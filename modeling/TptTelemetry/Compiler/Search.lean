import TptTelemetry.Compiler.Matcher

namespace TptTelemetry.Compiler.Search

open TptTelemetry.Lib TptTelemetry.Lib.Text TptTelemetry.Lib.Pattern TptTelemetry.Dsl.Ast
open TptTelemetry.Compiler.Scalar TptTelemetry.Compiler.Compile TptTelemetry.Compiler.Matcher

variable {C : Chrono}

def parts (C : Chrono) : List Seg → List (Piece Char)
  | [] => []
  | .literal l :: segs => .lit l :: parts C segs
  | .capture _ ty :: segs => .hole (Accepts C ty) :: parts C segs

/-- The ranges of an assignment of texts to the captures. -/
def spans : List Seg → Nat → Nat → List Str → List Cap
  | [], _, _, _ => []
  | .literal l :: segs, si, pos, ts => spans segs (si + 1) (pos + byteLen l) ts
  | .capture _ _ :: _, _, _, [] => []
  | .capture _ _ :: segs, si, pos, t :: ts =>
    ⟨si, pos, pos + byteLen t⟩ :: spans segs (si + 1) (pos + byteLen t) ts

/-- What a search of the segments through `s` comes back with: an untouched
stack when nothing fits, or the ranges of the greatest fit. -/
def Answers (C : Chrono) (segs : List Seg) (si pos : Nat) (s : Str) (caps : List Cap) :
    Bool × List Cap → Prop
  | (false, caps') => caps' = caps ∧ ¬ Matches (parts C segs) s
  | (true, caps') => ∃ ts, Greatest (parts C segs) ts s ∧ caps' = caps ++ spans segs si pos ts

abbrev HasType (C : Chrono) (ty : TypeName) (t : Str) : Prop := typeMatches C ty t = true

section Loop

variable {ty : TypeName} {si : Nat} {next : Nat → List Cap → Except Panic (Bool × List Cap)}
  {pre : Str}

theorem captureLoop_done {line : Str} {pos n : Nat} (h : n ≤ pos) (caps : List Cap) :
    captureLoop C line ty si pos next n caps = .ok (false, caps) := by
  cases n with
  | zero => rfl
  | succ n => rw [captureLoop, if_neg (Nat.not_lt.mpr h)]

theorem captureLoop_miss {t r : Str} {caps : List Cap}
    (h : HasType C ty t → next (byteLen pre + byteLen t)
      (caps ++ [⟨si, byteLen pre, byteLen pre + byteLen t⟩]) =
        .ok (false, caps ++ [⟨si, byteLen pre, byteLen pre + byteLen t⟩])) :
    captureLoop C (pre ++ (t ++ r)) ty si (byteLen pre) next (byteLen pre + byteLen t + 1) caps =
      captureLoop C (pre ++ (t ++ r)) ty si (byteLen pre) next (byteLen pre + byteLen t) caps := by
  rw [captureLoop, if_pos (by omega), slice_append]
  by_cases ht : HasType C ty t
  · simp only [bind, Except.bind, ht, if_true, h ht, List.dropLast_concat, Bool.false_eq_true,
      if_false]
  · simp only [bind, Except.bind, ht, if_false]

theorem captureLoop_hit {t r : Str} {caps caps' : List Cap} (ht : HasType C ty t)
    (h : next (byteLen pre + byteLen t) (caps ++ [⟨si, byteLen pre, byteLen pre + byteLen t⟩]) =
      .ok (true, caps')) :
    captureLoop C (pre ++ (t ++ r)) ty si (byteLen pre) next (byteLen pre + byteLen t + 1) caps =
      .ok (true, caps') := by
  rw [captureLoop, if_pos (by omega), slice_append]
  simp only [bind, Except.bind, ht, if_true, h]

theorem captureLoop_wide {p q : Str} {c : Char} (hc : 1 < c.utf8Size) (caps : List Cap) :
    captureLoop C (pre ++ (p ++ c :: q)) ty si (byteLen pre) next
      (byteLen pre + byteLen (p ++ [c])) caps = .error .strIndex := by
  obtain ⟨n, hn⟩ : ∃ n, byteLen p + c.utf8Size = n + 1 := ⟨byteLen p + c.utf8Size - 1, by omega⟩
  have hsplit := splitAt_inside (p := p) (q := q) hc
  rw [hn, Nat.add_sub_cancel] at hsplit
  have hslice : slice (pre ++ (p ++ c :: q)) (byteLen pre) (byteLen pre + n) = .error .strIndex := by
    rw [slice, splitAt_append]
    simp only [Nat.le_add_right, if_true, Nat.add_sub_cancel_left, hsplit]
  rw [byteLen_append, byteLen_cons, byteLen_nil, Nat.add_zero, hn, ← Nat.add_assoc, captureLoop,
    if_pos (by omega), hslice]
  rfl

theorem captureLoop_round (ty : TypeName) {segs : List Seg} {caps : List Cap} {s t r : Str}
    (hs : s = t ++ r)
    (hnext : ∃ x, next (byteLen pre + byteLen t)
          (caps ++ [⟨si, byteLen pre, byteLen pre + byteLen t⟩]) = .ok x ∧
        Answers C segs (si + 1) (byteLen pre + byteLen t) r
          (caps ++ [⟨si, byteLen pre, byteLen pre + byteLen t⟩]) x) :
    (∃ ts, HasType C ty t ∧ Greatest (parts C segs) ts r ∧
      captureLoop C (pre ++ s) ty si (byteLen pre) next (byteLen pre + byteLen t + 1) caps =
        .ok (true, caps ++ ⟨si, byteLen pre, byteLen pre + byteLen t⟩ ::
          spans segs (si + 1) (byteLen pre + byteLen t) ts)) ∨
    (¬ (HasType C ty t ∧ Matches (parts C segs) r) ∧
      captureLoop C (pre ++ s) ty si (byteLen pre) next (byteLen pre + byteLen t + 1) caps =
        captureLoop C (pre ++ s) ty si (byteLen pre) next (byteLen pre + byteLen t) caps) := by
  subst hs
  obtain ⟨⟨found, caps'⟩, hx, ha⟩ := hnext
  by_cases ht : HasType C ty t
  · cases found with
    | true =>
      obtain ⟨ts, hts, rfl⟩ := ha
      refine Or.inl ⟨ts, ht, hts, ?_⟩
      rw [captureLoop_hit ht hx, List.append_assoc, List.singleton_append]
    | false =>
      obtain ⟨rfl, hm⟩ := ha
      exact Or.inr ⟨fun h => hm h.2, captureLoop_miss (fun _ => hx)⟩
  · exact Or.inr ⟨fun h => ht h.1, captureLoop_miss (fun h => absurd h ht)⟩

/-- The loop over the ends inside the ASCII text `u` behind `p`, longest
first. It stops at the longest text the capture can take there, or goes on
before `p` when there is none. -/
theorem captureLoop_down {segs : List Seg} {caps : List Cap} {s p : Str}
    (hnext : ∀ t r, s = t ++ r → p.length ≤ t.length →
      ∃ x, next (byteLen pre + byteLen t)
          (caps ++ [⟨si, byteLen pre, byteLen pre + byteLen t⟩]) = .ok x ∧
        Answers C segs (si + 1) (byteLen pre + byteLen t) r
          (caps ++ [⟨si, byteLen pre, byteLen pre + byteLen t⟩]) x)
    {u v : Str} (hu : Ascii u) (hs : s = p ++ u ++ v) :
    (∃ t r ts, s = t ++ r ∧ HasType C ty t ∧ p.length ≤ t.length ∧
      (∀ t' r', Takes (HasType C ty) (parts C segs) s t' r' →
        t'.length ≤ (p ++ u).length → t'.length ≤ t.length) ∧
      Greatest (parts C segs) ts r ∧
      captureLoop C (pre ++ s) ty si (byteLen pre) next (byteLen pre + byteLen (p ++ u) + 1) caps =
        .ok (true, caps ++ ⟨si, byteLen pre, byteLen pre + byteLen t⟩ ::
          spans segs (si + 1) (byteLen pre + byteLen t) ts)) ∨
    ((∀ t r, Takes (HasType C ty) (parts C segs) s t r →
        t.length ≤ (p ++ u).length → t.length < p.length) ∧
      captureLoop C (pre ++ s) ty si (byteLen pre) next (byteLen pre + byteLen (p ++ u) + 1) caps =
        captureLoop C (pre ++ s) ty si (byteLen pre) next (byteLen pre + byteLen p) caps) := by
  -- a text that cannot be taken excludes the texts of its length
  have hlt : ∀ {t r : Str}, s = t ++ r → ¬ (HasType C ty t ∧ Matches (parts C segs) r) →
      ∀ t' r', Takes (HasType C ty) (parts C segs) s t' r' → t'.length ≤ t.length →
        t'.length < t.length := by
    intro t r hst hn t' r' ht' hle
    apply Nat.lt_of_le_of_ne hle
    intro hlen
    obtain ⟨rfl, rfl⟩ := List.append_inj (ht'.1.symm.trans hst) hlen
    exact hn ht'.2
  induction u using List.reverseRecOn generalizing v with
  | nil =>
    rw [List.append_nil] at hs ⊢
    obtain ⟨ts, ht, hts, hrun⟩ | ⟨hn, hrun⟩ := captureLoop_round ty hs (hnext p v hs le_rfl)
    · exact Or.inl ⟨p, v, ts, hs, ht, le_rfl, fun _ _ _ hle => hle, hts, hrun⟩
    · exact Or.inr ⟨hlt hs hn, hrun⟩
  | append_singleton u c ih =>
    have hc : c.utf8Size = 1 := hu c (by simp)
    have hb : byteLen (p ++ (u ++ [c])) = byteLen (p ++ u) + 1 := by
      rw [← List.append_assoc, byteLen_append, byteLen_cons, byteLen_nil, hc]
    have hl : (p ++ (u ++ [c])).length = (p ++ u).length + 1 := by simp [Nat.add_assoc]
    obtain ⟨ts, ht, hts, hrun⟩ | ⟨hn, hrun⟩ :=
      captureLoop_round ty hs (hnext _ v hs (by simp))
    · exact Or.inl ⟨_, v, ts, hs, ht, by simp, fun _ _ _ hle => hle, hts, hrun⟩
    have hbelow : ∀ t' r', Takes (HasType C ty) (parts C segs) s t' r' →
        t'.length ≤ (p ++ (u ++ [c])).length → t'.length ≤ (p ++ u).length := by
      intro t' r' ht' hle
      have := hlt hs hn t' r' ht' hle
      omega
    rw [hrun, hb, ← Nat.add_assoc]
    obtain ⟨t, r, ts, hst, ht, hp, hmax, hts, hrun'⟩ | ⟨hnone, hrun'⟩ :=
      ih (v := c :: v) (fun d hd => hu d (by simp [hd])) (by simpa using hs)
    · exact Or.inl ⟨t, r, ts, hst, ht, hp,
        fun t' r' ht' hle => hmax t' r' ht' (hbelow t' r' ht' hle), hts, hrun'⟩
    · exact Or.inr ⟨fun t' r' ht' hle => hnone t' r' ht' (hbelow t' r' ht' hle), hrun'⟩

end Loop

theorem matchSegments_nil (pre s : Str) (si : Nat) (caps : List Cap) :
    matchSegments C (pre ++ s) [] si (byteLen pre) caps = .ok (decide (s = []), caps) := by
  have hs : byteLen pre = byteLen (pre ++ s) ↔ s = [] := by
    rw [byteLen_append, ← byteLen_eq_zero]
    omega
  simp only [matchSegments, hs]

theorem answers_nil (si pos : Nat) (s : Str) (caps : List Cap) :
    Answers C [] si pos s caps (decide (s = []), caps) := by
  by_cases hs : s = []
  · subst hs
    exact ⟨[], greatest_nil, by simp [spans]⟩
  · rw [decide_eq_false hs]
    exact ⟨rfl, fun hm => hs (matches_nil.mp hm)⟩

section Literal

variable {l : Str} {segs : List Seg}

theorem matchSegments_literal (pre s : Str) (si : Nat) (caps : List Cap) :
    matchSegments C (pre ++ (l ++ s)) (.literal l :: segs) si (byteLen pre) caps =
      matchSegments C (pre ++ l ++ s) segs (si + 1) (byteLen (pre ++ l)) caps := by
  have hl := List.isPrefixOf_iff_prefix.mpr (List.prefix_append l s)
  rw [matchSegments, sliceFrom_append, byteLen_append, List.append_assoc]
  simp only [bind, Except.bind, hl, if_true]

theorem answers_literal {si : Nat} {pre s : Str} {caps : List Cap} {x : Bool × List Cap}
    (h : Answers C segs (si + 1) (byteLen (pre ++ l)) s caps x) :
    Answers C (.literal l :: segs) si (byteLen pre) (l ++ s) caps x := by
  rw [byteLen_append] at h
  obtain ⟨_ | _, caps'⟩ := x
  · refine ⟨h.1, fun hm => h.2 ?_⟩
    obtain ⟨s', hs, hm'⟩ := matches_lit.mp hm
    rwa [List.append_cancel_left hs]
  · obtain ⟨ts, hts, hc⟩ := h
    exact ⟨ts, greatest_lit.mpr hts, hc⟩

theorem matchSegments_no_literal {s : Str} (hl : ¬ l <+: s) (pre : Str) (si : Nat)
    (caps : List Cap) :
    matchSegments C (pre ++ s) (.literal l :: segs) si (byteLen pre) caps = .ok (false, caps) := by
  rw [matchSegments, sliceFrom_append]
  simp only [bind, Except.bind, mt List.isPrefixOf_iff_prefix.mp hl, if_false, Bool.false_eq_true]

theorem answers_no_literal {s : Str} (hl : ¬ l <+: s) (si pos : Nat) (caps : List Cap) :
    Answers C (.literal l :: segs) si pos s caps (false, caps) := by
  refine ⟨rfl, fun hm => ?_⟩
  obtain ⟨s', rfl, -⟩ := matches_lit.mp hm
  exact hl (List.prefix_append l s')

end Literal

section Capture

variable {field : Str} {ty : TypeName} {segs : List Seg} {si : Nat} {caps : List Cap}

theorem answers_capture {pos : Nat} {s t r : Str} {ts : List Str} (hs : s = t ++ r)
    (ht : Accepts C ty t) (hts : Greatest (parts C segs) ts r)
    (hmax : ∀ t' r', Takes (HasType C ty) (parts C segs) s t' r' → t'.length ≤ t.length) :
    Answers C (.capture field ty :: segs) si pos s caps
      (true, caps ++ ⟨si, pos, pos + byteLen t⟩ :: spans segs (si + 1) (pos + byteLen t) ts) := by
  refine ⟨t :: ts, greatest_hole hs ht hts ?_, rfl⟩
  rintro u q ⟨hsu, hu | ⟨rfl, -⟩, hq⟩
  · exact hmax u q ⟨hsu, hu, hq⟩
  · exact Nat.zero_le _

theorem matchSegments_hit {line : Str} {pos : Nat} {caps' : List Cap}
    (h : captureLoop C line ty si pos (matchSegments C line segs (si + 1)) (byteLen line + 1) caps =
      .ok (true, caps')) :
    matchSegments C line (.capture field ty :: segs) si pos caps = .ok (true, caps') := by
  rw [matchSegments, h]
  rfl

theorem matchSegments_panic {line : Str} {pos : Nat} {e : Panic}
    (h : captureLoop C line ty si pos (matchSegments C line segs (si + 1)) (byteLen line + 1) caps =
      .error e) :
    matchSegments C line (.capture field ty :: segs) si pos caps = .error e := by
  rw [matchSegments, h]
  rfl

theorem matchSegments_miss {pre s : Str}
    (hloop : captureLoop C (pre ++ s) ty si (byteLen pre)
      (matchSegments C (pre ++ s) segs (si + 1)) (byteLen (pre ++ s) + 1) caps = .ok (false, caps))
    (hnone : ∀ t r, ¬ Takes (HasType C ty) (parts C segs) s t r)
    (hrest : ∀ caps, ∃ x, matchSegments C (pre ++ s) segs (si + 1) (byteLen pre) caps = .ok x ∧
      Answers C segs (si + 1) (byteLen pre) s caps x) :
    ∃ x, matchSegments C (pre ++ s) (.capture field ty :: segs) si (byteLen pre) caps = .ok x ∧
      Answers C (.capture field ty :: segs) si (byteLen pre) s caps x := by
  have hempty : ty ≠ .string ∨ ¬ Matches (parts C segs) s →
      Answers C (.capture field ty :: segs) si (byteLen pre) s caps (false, caps) := by
    intro hno
    refine ⟨rfl, fun hm => ?_⟩
    obtain ⟨t, r, hs, ht | ⟨rfl, hty⟩, hr⟩ := matches_hole.mp hm
    · exact hnone t r ⟨hs, ht, hr⟩
    · exact hno.elim (fun h => h hty) (fun h => h (hs ▸ hr))
  rw [matchSegments, hloop]
  by_cases hty : ty = .string
  · have hle : byteLen pre ≤ byteLen (pre ++ s) := by rw [byteLen_append]; omega
    obtain ⟨⟨_ | _, caps'⟩, hx, ha⟩ := hrest (caps ++ [⟨si, byteLen pre, byteLen pre⟩])
    · obtain ⟨rfl, hm⟩ := ha
      refine ⟨(false, caps), ?_, hempty (Or.inr hm)⟩
      simp only [bind, Except.bind, Bool.false_eq_true, if_false, hty, hle, and_self, if_true, hx,
        List.dropLast_concat]
    · obtain ⟨ts, hts, rfl⟩ := ha
      refine ⟨(true, _), ?_, answers_capture (t := []) rfl (accepts_nil.mpr hty) hts ?_⟩
      · simp only [bind, Except.bind, Bool.false_eq_true, if_false, hty, hle, and_self, if_true, hx,
          List.append_assoc, List.singleton_append, byteLen_nil, Nat.add_zero]
      · exact fun t' r' h => absurd h (hnone t' r')
  · refine ⟨(false, caps), ?_, hempty (Or.inl hty)⟩
    simp only [bind, Except.bind, Bool.false_eq_true, if_false, hty, false_and]

end Capture

theorem matchSegments_ascii (segs : List Seg) (pre : Str) {s : Str} (hs : Ascii s) (si : Nat)
    (caps : List Cap) :
    ∃ x, matchSegments C (pre ++ s) segs si (byteLen pre) caps = .ok x ∧
      Answers C segs si (byteLen pre) s caps x := by
  induction segs generalizing pre s si caps with
  | nil => exact ⟨_, matchSegments_nil pre s si caps, answers_nil si _ s caps⟩
  | cons seg segs ih =>
    cases seg with
    | literal l =>
      by_cases hl : l <+: s
      · obtain ⟨s', rfl⟩ := hl
        obtain ⟨x, hx, ha⟩ := ih (pre ++ l) (ascii_append.mp hs).2 (si + 1) caps
        exact ⟨x, (matchSegments_literal pre s' si caps).trans hx, answers_literal ha⟩
      · exact ⟨_, matchSegments_no_literal hl pre si caps, answers_no_literal hl si _ caps⟩
    | capture field ty =>
      have hnext : ∀ t r, s = t ++ r → ∀ caps, ∃ x,
          matchSegments C (pre ++ s) segs (si + 1) (byteLen pre + byteLen t) caps = .ok x ∧
            Answers C segs (si + 1) (byteLen pre + byteLen t) r caps x := by
        rintro t r rfl caps
        have h := ih (pre ++ t) (ascii_append.mp hs).2 (si + 1) caps
        rwa [List.append_assoc, byteLen_append] at h
      have hend : byteLen (pre ++ s) + 1 = byteLen pre + byteLen ([] ++ s) + 1 := by
        rw [byteLen_append, List.nil_append]
      obtain ⟨t, r, ts, hst, ht, -, hmax, hts, hrun⟩ | ⟨hnone, hrun⟩ :=
        captureLoop_down (C := C) (p := []) (v := []) (fun t r h _ => hnext t r h _) hs
          (by simp)
      · refine ⟨_, matchSegments_hit (hend ▸ hrun), answers_capture hst (Or.inl ht) hts ?_⟩
        intro t' r' ht'
        refine hmax t' r' ht' ?_
        rw [ht'.1]
        simp
      · refine matchSegments_miss ?_ ?_ ?_
        · rw [hend, hrun]
          exact captureLoop_done (by simp) caps
        · intro t r ht
          refine absurd (hnone t r ht ?_) (Nat.not_lt_zero _)
          rw [ht.1]
          simp
        · exact fun caps => hnext [] s rfl caps

/-- The search stays on character boundaries: the fixed text before the first
capture is not there, or the text from the first capture on is ASCII, or the
capture can take a text that leaves only ASCII. -/
def Safe (C : Chrono) : List Seg → Str → Prop
  | [], _ => True
  | .literal l :: segs, s => ∀ s', s = l ++ s' → Safe C segs s'
  | .capture _ ty :: segs, s =>
    Ascii s ∨ ∃ t r, Takes (HasType C ty) (parts C segs) s t r ∧ Ascii r

/-- A capture in front of text that is not ASCII: the loop walks down to the
last wide character, and panics inside it unless it has stopped before. -/
theorem matchSegments_wide (field : Str) (ty : TypeName) (segs : List Seg) (pre : Str) {s : Str}
    (hs : ¬ Ascii s) (si : Nat) (caps : List Cap) :
    (Safe C (.capture field ty :: segs) s ∧
        ∃ x, matchSegments C (pre ++ s) (.capture field ty :: segs) si (byteLen pre) caps = .ok x ∧
          Answers C (.capture field ty :: segs) si (byteLen pre) s caps x) ∨
      (¬ Safe C (.capture field ty :: segs) s ∧
        matchSegments C (pre ++ s) (.capture field ty :: segs) si (byteLen pre) caps =
          .error .strIndex) := by
  obtain ⟨p, c, q, rfl, hc, hq⟩ := exists_last_wide hs
  have hnext : ∀ t r, p ++ c :: q = t ++ r → (p ++ [c]).length ≤ t.length → ∃ x,
      matchSegments C (pre ++ (p ++ c :: q)) segs (si + 1) (byteLen pre + byteLen t)
        (caps ++ [⟨si, byteLen pre, byteLen pre + byteLen t⟩]) = .ok x ∧
      Answers C segs (si + 1) (byteLen pre + byteLen t) r
        (caps ++ [⟨si, byteLen pre, byteLen pre + byteLen t⟩]) x := by
    intro t r htr hlen
    have hr : Ascii r := (ascii_suffix_iff hc hq htr).mpr (Nat.lt_of_lt_of_le (by simp) hlen)
    have h := matchSegments_ascii (C := C) segs (pre ++ t) hr (si + 1)
      (caps ++ [⟨si, byteLen pre, byteLen pre + byteLen t⟩])
    rwa [List.append_assoc, byteLen_append, ← htr] at h
  have hend : byteLen (pre ++ (p ++ c :: q)) + 1 =
      byteLen pre + byteLen (p ++ [c] ++ q) + 1 := by simp
  have hle : ∀ t r, p ++ c :: q = t ++ r → t.length ≤ (p ++ [c] ++ q).length := by
    intro t r h
    have hlen := congrArg List.length h
    simp only [List.length_append, List.length_cons, List.length_nil] at hlen ⊢
    omega
  obtain ⟨t, r, ts, htr, ht, hp, hmax, hts, hrun⟩ | ⟨hnone, hrun⟩ :=
    captureLoop_down (C := C) (v := []) hnext hq (by simp)
  · refine Or.inl ⟨Or.inr ⟨t, r, ⟨htr, ht, ts, hts.1⟩, ?_⟩, _,
      matchSegments_hit (hend ▸ hrun), answers_capture htr (Or.inl ht) hts ?_⟩
    · exact (ascii_suffix_iff hc hq htr).mpr (Nat.lt_of_lt_of_le (by simp) hp)
    · exact fun t' r' ht' => hmax t' r' ht' (hle t' r' ht'.1)
  · refine Or.inr ⟨?_, matchSegments_panic (hend ▸ hrun.trans (captureLoop_wide hc caps))⟩
    rintro (h | ⟨t, r, ht, hr⟩)
    · exact hs h
    · have hlt := hnone t r ht (hle t r ht.1)
      have hgt := (ascii_suffix_iff hc hq ht.1).mp hr
      simp only [List.length_append, List.length_singleton] at hlt
      omega

/-- What a search does: it answers when it is safe, and panics otherwise. -/
theorem matchSegments_spec (segs : List Seg) (pre s : Str) (si : Nat) (caps : List Cap) :
    (Safe C segs s ∧ ∃ x, matchSegments C (pre ++ s) segs si (byteLen pre) caps = .ok x ∧
        Answers C segs si (byteLen pre) s caps x) ∨
      (¬ Safe C segs s ∧
        matchSegments C (pre ++ s) segs si (byteLen pre) caps = .error .strIndex) := by
  induction segs generalizing pre s si with
  | nil => exact Or.inl ⟨trivial, _, matchSegments_nil pre s si caps, answers_nil si _ s caps⟩
  | cons seg segs ih =>
    cases seg with
    | literal l =>
      by_cases hl : l <+: s
      · obtain ⟨s', rfl⟩ := hl
        have hsafe : Safe C (.literal l :: segs) (l ++ s') ↔ Safe C segs s' := by
          refine ⟨fun h => h s' rfl, fun h t ht => ?_⟩
          rwa [← List.append_cancel_left ht]
        rw [hsafe, matchSegments_literal]
        refine (ih (pre ++ l) s' (si + 1)).imp_left ?_
        rintro ⟨h, x, hx, ha⟩
        exact ⟨h, x, hx, answers_literal ha⟩
      · refine Or.inl ⟨?_, _, matchSegments_no_literal hl pre si caps,
          answers_no_literal hl si _ caps⟩
        rintro s' rfl
        exact absurd (List.prefix_append l s') hl
    | capture field ty =>
      by_cases hs : Ascii s
      · exact Or.inl ⟨Or.inl hs, matchSegments_ascii _ pre hs si caps⟩
      · exact matchSegments_wide field ty segs pre hs si caps

end TptTelemetry.Compiler.Search
