import TptTelemetry.Compiler.Search

namespace TptTelemetry.Compiler.Exact

open TptTelemetry.Lib TptTelemetry.Lib.Text TptTelemetry.Lib.Pattern TptTelemetry.Dsl.Ast
open TptTelemetry.Compiler.Scalar TptTelemetry.Compiler.Compile TptTelemetry.Compiler.Matcher
open TptTelemetry.Compiler.Search

variable {C : Chrono}

def captureNames : List Seg → List Str
  | [] => []
  | .literal _ :: segs => captureNames segs
  | .capture field _ :: segs => field :: captureNames segs

theorem length_captureNames {segs : List Seg} {ts : List Str} {s : Str}
    (h : Fits (parts C segs) ts s) : ts.length = (captureNames segs).length := by
  induction segs generalizing ts s with
  | nil => simp [(fits_nil.mp h).1, captureNames]
  | cons seg segs ih =>
    cases seg with
    | literal l =>
      obtain ⟨s', -, h'⟩ := fits_lit.mp h
      exact ih h'
    | capture field ty =>
      obtain ⟨t, ts', s', rfl, -, -, h'⟩ := fits_hole.mp h
      rw [List.length_cons, ih h', captureNames, List.length_cons]

theorem rawFields_spans {segs : List Seg} {ts : List Str} {s : Str}
    (h : Fits (parts C segs) ts s) (done : List Seg) (pre : Str) :
    rawFields (pre ++ s) (done ++ segs) (spans segs done.length (byteLen pre) ts) =
      .ok (List.zipWith RawField.mk (captureNames segs) ts) := by
  induction segs generalizing ts s done pre with
  | nil => simp [spans, rawFields, captureNames]
  | cons seg segs ih =>
    cases seg with
    | literal l =>
      obtain ⟨s', rfl, h'⟩ := fits_lit.mp h
      have hrest := ih h' (done ++ [.literal l]) (pre ++ l)
      rw [List.append_assoc, List.append_assoc, List.singleton_append, List.length_append,
        byteLen_append] at hrest
      exact hrest
    | capture field ty =>
      obtain ⟨t, ts', s', rfl, rfl, -, h'⟩ := fits_hole.mp h
      have hrest := ih h' (done ++ [.capture field ty]) (pre ++ t)
      rw [List.append_assoc, List.append_assoc, List.singleton_append, List.length_append,
        List.length_singleton, byteLen_append] at hrest
      have hget : (done ++ .capture field ty :: segs)[done.length]? = some (.capture field ty) := by
        simp
      simp only [spans, rawFields, hget, slice_append, hrest, bind, Except.bind, captureNames,
        List.zipWith_cons_cons]

/-- What `match_into` and `match_raw` do with a line: both panic, both find
that nothing fits, or both find the greatest fit. -/
theorem match_cases (C : Chrono) (fmt : CompiledFormat) (line : Str) (ctx : MatchCtx) :
    (¬ Safe C fmt.segments line ∧ matchInto C fmt line ctx = .error .strIndex ∧
        matchRaw C fmt line = .error .strIndex) ∨
      (Safe C fmt.segments line ∧ ¬ Matches (parts C fmt.segments) line ∧
        matchInto C fmt line ctx = .ok (false, ⟨[]⟩) ∧ matchRaw C fmt line = .ok none) ∨
      (Safe C fmt.segments line ∧ ∃ ts, Greatest (parts C fmt.segments) ts line ∧
        matchInto C fmt line ctx = .ok (true, ⟨spans fmt.segments 0 0 ts⟩) ∧
        matchRaw C fmt line =
          .ok (some ⟨fmt.name, List.zipWith RawField.mk (captureNames fmt.segments) ts⟩)) := by
  obtain ⟨hs, ⟨found, caps⟩, hx, ha⟩ | ⟨hs, hx⟩ :=
    matchSegments_spec (C := C) fmt.segments [] line 0 []
  · rw [List.nil_append, byteLen_nil] at hx
    cases found with
    | false =>
      obtain ⟨rfl, hm⟩ := ha
      refine Or.inr (Or.inl ⟨hs, hm, ?_, ?_⟩)
      · simp only [matchInto, MatchCtx.reset, hx, bind, Except.bind]
      · simp only [matchRaw, matchInto, MatchCtx.reset, hx, bind, Except.bind, Bool.false_eq_true,
          if_false]
    | true =>
      obtain ⟨ts, hts, rfl⟩ := ha
      have hraw := rawFields_spans hts.1 [] []
      simp only [List.nil_append, byteLen_nil, List.length_nil] at hx hraw
      refine Or.inr (Or.inr ⟨hs, ts, hts, ?_, ?_⟩)
      · simp only [matchInto, MatchCtx.reset, hx, bind, Except.bind]
      · simp only [matchRaw, matchInto, MatchCtx.reset, hx, bind, Except.bind, if_true,
          MatchCtx.intoRaw, hraw]
  · rw [List.nil_append, byteLen_nil] at hx
    refine Or.inl ⟨hs, ?_, ?_⟩
    · simp only [matchInto, MatchCtx.reset, hx, bind, Except.bind]
    · simp only [matchRaw, matchInto, MatchCtx.reset, hx, bind, Except.bind]

theorem safe_of_ascii {segs : List Seg} {s : Str} (hs : Ascii s) : Safe C segs s := by
  induction segs generalizing s with
  | nil => trivial
  | cons seg segs ih =>
    cases seg with
    | literal l =>
      rintro s' rfl
      exact ih (ascii_append.mp hs).2
    | capture field ty => exact Or.inl hs

theorem zipWith_fields {names ts : List Str} (h : ts.length = names.length) :
    (List.zipWith RawField.mk names ts).map RawField.name = names ∧
      (List.zipWith RawField.mk names ts).map RawField.value = ts := by
  induction names generalizing ts with
  | nil => simpa using h
  | cons n names ih =>
    cases ts with
    | nil => cases h
    | cons t ts =>
      obtain ⟨hn, hv⟩ := ih (Nat.succ.inj h)
      simp only [List.zipWith_cons_cons, List.map_cons, hn, hv, and_self]

theorem matchRaw_eq_some {fmt : CompiledFormat} {line : Str} {raw : RawMatch}
    (h : matchRaw C fmt line = .ok (some raw)) :
    raw.fields.map RawField.name = captureNames fmt.segments ∧
      Greatest (parts C fmt.segments) (raw.fields.map RawField.value) line := by
  obtain ⟨-, -, hr⟩ | ⟨-, -, -, hr⟩ | ⟨-, ts, hts, -, hr⟩ := match_cases C fmt line MatchCtx.new
  · rw [hr] at h
    cases h
  · rw [hr] at h
    cases h
  · rw [hr] at h
    cases h
    obtain ⟨hn, hv⟩ := zipWith_fields (length_captureNames hts.1)
    exact ⟨hn, by rw [hv]; exact hts⟩

/-- The matcher decides exactly its pattern: an ASCII line is matched without
a panic; where there is no panic, a match is reported exactly when texts for
the captures make up the line; and the fields of a match are such texts. -/
theorem matcher_exact (C : Chrono) (fmt : CompiledFormat) (line : Str) (ctx : MatchCtx) :
    (Ascii line → ∃ x, matchInto C fmt line ctx = .ok x) ∧
      (∀ found ctx', matchInto C fmt line ctx = .ok (found, ctx') →
        (found = true ↔ ∃ ts, Fits (parts C fmt.segments) ts line) ∧
        ∃ raw, matchRaw C fmt line = .ok raw ∧ (raw.isSome ↔ found = true)) ∧
      (∀ raw, matchRaw C fmt line = .ok (some raw) →
        raw.fields.map RawField.name = captureNames fmt.segments ∧
        Fits (parts C fmt.segments) (raw.fields.map RawField.value) line) := by
  refine ⟨fun ha => ?_, fun found ctx' h => ?_, fun raw h => ?_⟩
  · obtain ⟨hs, -⟩ | ⟨-, -, hi, -⟩ | ⟨-, _, -, hi, -⟩ := match_cases C fmt line ctx
    · exact absurd (safe_of_ascii ha) hs
    · exact ⟨_, hi⟩
    · exact ⟨_, hi⟩
  · obtain ⟨-, hi, -⟩ | ⟨-, hm, hi, hr⟩ | ⟨-, ts, hts, hi, hr⟩ := match_cases C fmt line ctx
    · rw [hi] at h
      cases h
    · rw [hi] at h
      cases h
      exact ⟨⟨fun h => (Bool.false_ne_true h).elim, fun h => absurd h hm⟩, none, hr, by simp⟩
    · rw [hi] at h
      cases h
      exact ⟨⟨fun _ => ⟨ts, hts.1⟩, fun _ => rfl⟩, _, hr, by simp⟩
  · obtain ⟨hn, hg⟩ := matchRaw_eq_some h
    exact ⟨hn, hg.1⟩

theorem byteLen_lt_append (t : Str) (c : Char) (u : Str) : byteLen t < byteLen (t ++ c :: u) := by
  have hc := Char.utf8Size_pos c
  rw [byteLen_append, byteLen_cons]
  omega

/-- The match is greedy: among all texts for the captures that make up the line,
those of a match are the greatest, comparing their lengths in bytes in segment
order. -/
theorem matchRaw_greedy {fmt : CompiledFormat} {line : Str} {raw : RawMatch}
    (h : matchRaw C fmt line = .ok (some raw)) :
    raw.fields.map RawField.name = captureNames fmt.segments ∧
      Fits (parts C fmt.segments) (raw.fields.map RawField.value) line ∧
      ∀ us, Fits (parts C fmt.segments) us line → us ≠ raw.fields.map RawField.value →
        List.Lex (· < ·) (us.map byteLen) ((raw.fields.map RawField.value).map byteLen) := by
  obtain ⟨hnames, hfits, hmax⟩ := matchRaw_eq_some h
  refine ⟨hnames, hfits, fun us hu hne => ?_⟩
  exact lex_measure byteLen_lt_append hu hfits ((hmax us hu).resolve_left hne)

/-- The format `%{a:string} %{b:string}`. -/
def words : CompiledFormat :=
  ⟨"Words".toList, [.capture "a".toList .string, .literal " ".toList, .capture "b".toList .string],
    [], []⟩

theorem matchRaw_greedy_words :
    matchRaw noTimestamps words "x y z".toList = .ok (some ⟨"Words".toList,
        [⟨"a".toList, "x y".toList⟩, ⟨"b".toList, "z".toList⟩]⟩) ∧
      List.Lex (· < ·) (["x".toList, "y z".toList].map byteLen)
        (["x y".toList, "z".toList].map byteLen) := by
  have hraw : matchRaw noTimestamps words "x y z".toList = .ok (some ⟨"Words".toList,
      [⟨"a".toList, "x y".toList⟩, ⟨"b".toList, "z".toList⟩]⟩) := by decide +kernel
  refine ⟨hraw, (matchRaw_greedy hraw).2.2 ["x".toList, "y z".toList] ⟨?_, rfl⟩ (by decide)⟩
  exact .cons (Or.inl rfl) (.cons (Or.inl rfl) .nil)

end TptTelemetry.Compiler.Exact
