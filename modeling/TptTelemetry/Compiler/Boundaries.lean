import TptTelemetry.Compiler.Redaction

namespace TptTelemetry.Compiler.Boundaries

open TptTelemetry.Lib TptTelemetry.Lib.Text TptTelemetry.Lib.Pattern TptTelemetry.Dsl.Ast
open TptTelemetry.Compiler.Scalar TptTelemetry.Compiler.Compile TptTelemetry.Compiler.Matcher
open TptTelemetry.Compiler.Search TptTelemetry.Compiler.Exact TptTelemetry.Compiler.Typed
open TptTelemetry.Compiler.Redaction

variable {C : Chrono}

/-- The last two bytes of the text, or all of a shorter text, are whole
characters. -/
def Maskable (t : Str) : Prop := ∃ p q, t = p ++ q ∧ byteLen q = min (byteLen t) 2

theorem maskValue_ok_iff {t : Str} : (∃ v, maskValue t = .ok v) ↔ Maskable t := by
  simp only [maskValue, exists_bind_ok, sliceFrom_ok_iff, Maskable]
  refine exists_congr fun p => exists_congr fun q => and_congr_right ?_
  rintro rfl
  rw [byteLen_append]
  omega

theorem maskable_of_ascii {t : Str} (ht : Ascii t) : Maskable t := by
  obtain ⟨p, q, rfl, hp⟩ := exists_split_of_ascii ht (Nat.sub_le (byteLen t) (min (byteLen t) 2))
  refine ⟨p, q, rfl, ?_⟩
  simp only [byteLen_append] at hp ⊢
  omega

theorem redactField_ok_iff {raw : RawMatch} {r : Str × RedactMode} {fields : List TypedField} :
    (∃ fields', redactField raw fields r = .ok fields') ↔
      (r.1 ∈ names fields → r.2 = .mask → Maskable (firstText raw r.1)) := by
  have htext : (∃ text, redactText r.2 (firstText raw r.1) = .ok text) ↔
      (r.2 = .mask → Maskable (firstText raw r.1)) := by
    cases r.2 with
    | hash => simp [redactText]
    | mask => simpa [redactText] using maskValue_ok_iff
  rw [redactField]
  split
  · next hmem =>
    rw [exists_bind_ok, htext]
    exact ⟨fun h _ => h, fun h => h hmem⟩
  · next hmem => exact ⟨fun _ hm => absurd hm hmem, fun _ => ⟨fields, rfl⟩⟩

theorem redactions_ok_iff {raw : RawMatch} {rs : List (Str × RedactMode)}
    {fields : List TypedField} :
    (∃ fields', rs.foldlM (redactField raw) fields = .ok fields') ↔
      ∀ n, (n, .mask) ∈ rs → n ∈ names fields → Maskable (firstText raw n) := by
  induction rs generalizing fields with
  | nil => simp [pure, Except.pure]
  | cons r rs ih =>
    simp only [List.foldlM_cons, bind_eq_ok]
    refine ⟨?_, fun h => ?_⟩
    · rintro ⟨fields', fields₁, h₁, h⟩ n hn hmem
      obtain rfl | hn := List.mem_cons.mp hn
      · exact redactField_ok_iff.mp ⟨_, h₁⟩ hmem rfl
      · exact ih.mp ⟨_, h⟩ n hn ((redactField_get h₁).1 ▸ hmem)
    · obtain ⟨fields₁, h₁⟩ := redactField_ok_iff.mpr
        (fun hmem hr => h r.1 (by rw [← hr]; simp) hmem)
      obtain ⟨fields', h'⟩ := ih.mpr (fun n hn hmem =>
        h n (by simp [hn]) ((redactField_get h₁).1 ▸ hmem))
      exact ⟨fields', fields₁, h₁, h'⟩

/-- The first capture keeps the parser on character boundaries: the fixed text
before it is not there, or the text from it on is ASCII, or the longest text
it can take leaves only ASCII and, if it is to be masked, can be masked. -/
def Guarded (C : Chrono) (masked : Str → Prop) : List Seg → Str → Prop
  | [], _ => True
  | .literal l :: segs, s => ∀ s', s = l ++ s' → Guarded C masked segs s'
  | .capture field ty :: segs, s =>
    Ascii s ∨ ∃ t r, Takes (HasType C ty) (parts C segs) s t r ∧ Ascii r ∧
      (∀ t' r', Takes (HasType C ty) (parts C segs) s t' r' → t'.length ≤ t.length) ∧
      (masked field → Maskable t)

theorem guarded_literal {masked : Str → Prop} {l s : Str} {segs : List Seg} :
    Guarded C masked (.literal l :: segs) (l ++ s) ↔ Guarded C masked segs s := by
  refine ⟨fun h => h s rfl, fun h t ht => ?_⟩
  rwa [← List.append_cancel_left ht]

theorem safe_of_guarded {masked : Str → Prop} {segs : List Seg} {s : Str}
    (h : Guarded C masked segs s) : Safe C segs s := by
  induction segs generalizing s with
  | nil => trivial
  | cons seg segs ih =>
    cases seg with
    | literal l => exact fun s' hs => ih (h s' hs)
    | capture field ty =>
      obtain h | ⟨t, r, ht, hr, -⟩ := h
      · exact Or.inl h
      · exact Or.inr ⟨t, r, ht, hr⟩

theorem guarded_of_not_matches {masked : Str → Prop} {segs : List Seg} {s : Str}
    (hs : Safe C segs s) (hm : ¬ Matches (parts C segs) s) : Guarded C masked segs s := by
  induction segs generalizing s with
  | nil => trivial
  | cons seg segs ih =>
    cases seg with
    | literal l =>
      rintro s' rfl
      exact ih (hs s' rfl) (fun h => hm (matches_lit.mpr ⟨s', rfl, h⟩))
    | capture field ty =>
      obtain h | ⟨t, r, ⟨hst, ht, hr⟩, -⟩ := hs
      · exact Or.inl h
      · exact absurd (matches_hole.mpr ⟨t, r, hst, Or.inl ht, hr⟩) hm

theorem ascii_of_fits {segs : List Seg} {ts : List Str} {s : Str} (hs : Ascii s)
    (h : Fits (parts C segs) ts s) : ∀ t ∈ ts, Ascii t := by
  induction segs generalizing ts s with
  | nil => simp [(fits_nil.mp h).1]
  | cons seg segs ih =>
    cases seg with
    | literal l =>
      obtain ⟨s', rfl, h'⟩ := fits_lit.mp h
      exact ih (ascii_append.mp hs).2 h'
    | capture field ty =>
      obtain ⟨t, ts', s', rfl, rfl, -, h'⟩ := fits_hole.mp h
      have ht := ascii_append.mp hs
      exact List.forall_mem_cons.mpr ⟨ht.1, ih ht.2 h'⟩

def textOf (fieldNames ts : List Str) (n : Str) : Str :=
  firstText ⟨[], List.zipWith RawField.mk fieldNames ts⟩ n

theorem textOf_cons {m t n : Str} {fieldNames ts : List Str} :
    textOf (m :: fieldNames) (t :: ts) n = if m = n then t else textOf fieldNames ts n := by
  by_cases hn : m = n
  · simp [textOf, firstText, hn]
  · simp [textOf, firstText, hn]

theorem ascii_textOf {fieldNames ts : List Str} (hts : ∀ t ∈ ts, Ascii t) (n : Str) :
    Ascii (textOf fieldNames ts n) := by
  induction fieldNames generalizing ts with
  | nil => simp [textOf, firstText, Ascii]
  | cons m fieldNames ih =>
    cases ts with
    | nil => simp [textOf, firstText, Ascii]
    | cons t ts =>
      obtain ⟨ht, hts'⟩ := List.forall_mem_cons.mp hts
      rw [textOf_cons]
      split
      · exact ht
      · exact ih hts'

/-- In the greatest fit of a safe search through text that is not ASCII, the
first capture takes the longest text it can, and leaves only ASCII. -/
theorem first_of_greatest {field : Str} {ty : TypeName} {segs : List Seg} {ts : List Str} {s : Str}
    (ha : ¬ Ascii s) (hs : Safe C (.capture field ty :: segs) s)
    (hg : Greatest (parts C (.capture field ty :: segs)) ts s) :
    ∃ t ts' r, ts = t :: ts' ∧ Fits (parts C segs) ts' r ∧
      Takes (HasType C ty) (parts C segs) s t r ∧ Ascii r ∧
      ∀ t' r', Takes (HasType C ty) (parts C segs) s t' r' → t'.length ≤ t.length := by
  obtain ⟨t, ts', r, rfl, hst, ht, hfit⟩ := fits_hole.mp hg.1
  have hmax : ∀ t' r', Takes (HasType C ty) (parts C segs) s t' r' → t'.length ≤ t.length :=
    fun t' r' h => hg.first_longest ⟨h.1, Or.inl h.2.1, h.2.2⟩
  have hr : Ascii r := by
    obtain h | ⟨t₀, r₀, h₀, hr₀⟩ := hs
    · exact absurd h ha
    · obtain ⟨w, rfl⟩ := List.prefix_of_prefix_length_le ⟨r₀, h₀.1.symm⟩ ⟨r, hst.symm⟩
        (hmax t₀ r₀ h₀)
      rw [h₀.1, List.append_assoc] at hst
      rw [List.append_cancel_left hst] at hr₀
      exact (ascii_append.mp hr₀).2
  have hne : t ≠ [] := by
    rintro rfl
    exact ha (by rwa [hst])
  exact ⟨t, ts', r, rfl, hfit, ⟨hst, (accepts_of_ne_nil hne).mp ht, ts', hfit⟩, hr, hmax⟩

/-- In the greatest fit of a safe search, only the text of the first capture
can fail to be maskable. -/
theorem masks_iff (masked : Str → Prop) {segs : List Seg} {ts : List Str} {s : Str}
    (hs : Safe C segs s) (hg : Greatest (parts C segs) ts s) :
    (∀ n, masked n → n ∈ captureNames segs → Maskable (textOf (captureNames segs) ts n)) ↔
      Guarded C masked segs s := by
  induction segs generalizing ts s with
  | nil => simp [captureNames, Guarded]
  | cons seg segs ih =>
    cases seg with
    | literal l =>
      obtain ⟨s', rfl, -⟩ := fits_lit.mp hg.1
      rw [guarded_literal]
      exact ih (hs s' rfl) (greatest_lit.mp hg)
    | capture field ty =>
      by_cases ha : Ascii s
      · have hts : ∀ t ∈ ts, Ascii t :=
          ascii_of_fits ha (show Fits (parts C (.capture field ty :: segs)) ts s from hg.1)
        exact ⟨fun _ => Or.inl ha, fun _ n _ _ => maskable_of_ascii (ascii_textOf hts n)⟩
      obtain ⟨t, ts', r, rfl, hfit, htake, hr, hmax⟩ := first_of_greatest ha hs hg
      have hfirst : (∀ n, masked n → n ∈ captureNames (.capture field ty :: segs) →
          Maskable (textOf (captureNames (.capture field ty :: segs)) (t :: ts') n)) ↔
          (masked field → Maskable t) := by
        refine ⟨fun h hm => ?_, fun h n hm _ => ?_⟩
        · simpa [captureNames, textOf_cons] using h field hm (by simp [captureNames])
        · rw [captureNames, textOf_cons]
          split
          · next hn => exact h (hn ▸ hm)
          · exact maskable_of_ascii (ascii_textOf (ascii_of_fits hr hfit) n)
      rw [hfirst]
      refine ⟨fun h => Or.inr ⟨t, r, htake, hr, hmax, h⟩, ?_⟩
      rintro (h | ⟨t₁, r₁, h₁, -, hmax₁, hm₁⟩)
      · exact absurd h ha
      · have hlen : t₁.length = t.length := Nat.le_antisymm (hmax t₁ r₁ h₁) (hmax₁ t r htake)
        rwa [(List.append_inj (h₁.1.symm.trans htake.1) hlen).1] at hm₁

def Masked (fmt : CompiledFormat) (field : Str) : Prop := (field, RedactMode.mask) ∈ fmt.redactions

theorem buildRecord_ok_iff {fmt : CompiledFormat} {line : Str} {ts : List Str}
    (hs : Safe C fmt.segments line) (hg : Greatest (parts C fmt.segments) ts line) :
    (∃ record, buildRecord C fmt
        ⟨fmt.name, List.zipWith RawField.mk (captureNames fmt.segments) ts⟩ = .ok record) ↔
      Guarded C (Masked fmt) fmt.segments line := by
  have hnames : names (typedFields C fmt
      ⟨fmt.name, List.zipWith RawField.mk (captureNames fmt.segments) ts⟩) =
        captureNames fmt.segments := by
    rw [names_typedFields]
    exact (zipWith_fields (length_captureNames hg.1)).1
  have hbuild : ∀ raw : RawMatch, (∃ record, buildRecord C fmt raw = .ok record) ↔
      ∃ fields, fmt.redactions.foldlM (redactField raw) (typedFields C fmt raw) = .ok fields :=
    fun raw => exists_bind_ok
  rw [← masks_iff (Masked fmt) hs hg, hbuild, redactions_ok_iff, hnames]
  rfl

theorem parse_cases (C : Chrono) (fmt : CompiledFormat) (line : Str) :
    (¬ Guarded C (Masked fmt) fmt.segments line ∧ ∃ e, parse C fmt line = .error e) ∨
      (Guarded C (Masked fmt) fmt.segments line ∧ ¬ Matches (parts C fmt.segments) line ∧
        parse C fmt line = .ok none) ∨
      (Guarded C (Masked fmt) fmt.segments line ∧ Matches (parts C fmt.segments) line ∧
        ∃ record, parse C fmt line = .ok (some record)) := by
  obtain ⟨hs, -, hr⟩ | ⟨hs, hm, -, hr⟩ | ⟨hs, ts, hts, -, hr⟩ := match_cases C fmt line MatchCtx.new
  · exact Or.inl ⟨fun h => hs (safe_of_guarded h), .strIndex, by rw [parse, hr]; rfl⟩
  · exact Or.inr (Or.inl ⟨guarded_of_not_matches hs hm, hm, by rw [parse, hr]; rfl⟩)
  · have hbuild := buildRecord_ok_iff hs hts
    rw [parse, hr]
    cases hb : buildRecord C fmt ⟨fmt.name, List.zipWith RawField.mk (captureNames fmt.segments) ts⟩ with
    | ok record =>
      refine Or.inr (Or.inr ⟨hbuild.mp ⟨record, hb⟩, ⟨ts, hts.1⟩, record, ?_⟩)
      simp only [bind, Except.bind, hb]
    | error e =>
      refine Or.inl ⟨fun h => ?_, e, ?_⟩
      · obtain ⟨record, hr'⟩ := hbuild.mpr h
        rw [hb] at hr'
        cases hr'
      · simp only [bind, Except.bind, hb]

/-- The formats are tried in order until one fits, and each that is tried has a
guarded first capture. -/
def LineSafe (C : Chrono) (line : Str) : List CompiledFormat → Prop
  | [] => True
  | fmt :: formats =>
    Guarded C (Masked fmt) fmt.segments line ∧
      (¬ Matches (parts C fmt.segments) line → LineSafe C line formats)

/-- Parsing a line returns, without a panic, exactly when the line is safe. -/
theorem parseLine_ok_iff (C : Chrono) (cs : CompiledSchema) (line : Str) :
    (∃ x, parseLine C cs line = .ok x) ↔ LineSafe C line cs.formats := by
  rw [parseLine]
  induction cs.formats with
  | nil => exact ⟨fun _ => trivial, fun _ => ⟨none, rfl⟩⟩
  | cons fmt formats ih =>
    rw [parseFormats, LineSafe]
    obtain ⟨hg, e, hp⟩ | ⟨hg, hm, hp⟩ | ⟨hg, hm, record, hp⟩ := parse_cases C fmt line
    · rw [hp]
      refine ⟨?_, fun h => absurd h.1 hg⟩
      rintro ⟨x, hx⟩
      cases hx
    · rw [hp]
      refine ⟨fun h => ⟨hg, fun _ => ih.mp h⟩, fun h => ih.mpr (h.2 hm)⟩
    · rw [hp]
      exact ⟨fun _ => ⟨hg, fun h => absurd hm h⟩, fun _ => ⟨some record, rfl⟩⟩

/-- The schema `format Count { pattern: "%{n:int}"; }`. -/
def countSchema : Schema :=
  ⟨[⟨"Count".toList, ⟨[.capture ⟨"n".toList, .int, false, none⟩]⟩, [], [], []⟩]⟩

/-- One byte that is not UTF-8 becomes U+FFFD, on which the parser panics. -/
theorem parseLine_panics :
    compile countSchema = .ok ⟨[⟨"Count".toList, [.capture "n".toList .int], [], []⟩]⟩ ∧
      parseLine noTimestamps ⟨[⟨"Count".toList, [.capture "n".toList .int], [], []⟩]⟩
        (Utf8.fromUtf8Lossy [0xFF]) = .error .strIndex := by
  decide +kernel

end TptTelemetry.Compiler.Boundaries
