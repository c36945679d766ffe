import TptTelemetry.Lib.Template
import TptTelemetry.Lib.Utf8

namespace TptTelemetry.Lib.TemplateBytes

open TptTelemetry.Lib.Text TptTelemetry.Lib.Utf8 TptTelemetry.Lib.Template

abbrev PERCENT : UInt8 := 0x25
abbrev OPEN : UInt8 := 0x7B
abbrev CLOSE : UInt8 := 0x7D

def levelByte (depth : Nat) (b : UInt8) : Nat :=
  if b = OPEN then depth + 1 else if b = CLOSE then depth - 1 else depth

/-- The inner loop: from the offset `j` on, until all braces are closed. -/
def closing (bytes : Bytes) (depth j : Nat) : Nat × Nat :=
  if h : j < bytes.length ∧ 0 < depth then
    closing bytes (levelByte depth (bytes.get ⟨j, h.1⟩)) (j + 1)
  else (depth, j)
termination_by bytes.length - j

theorem le_closing (bytes : Bytes) (depth j : Nat) : j ≤ (closing bytes depth j).2 := by
  induction depth, j using closing.induct bytes with
  | case1 depth j h ih =>
    rw [closing, dif_pos h]
    exact Nat.le_of_succ_le ih
  | case2 depth j h => rw [closing, dif_neg h]

variable {ε τ : Type} (syn : Syntax ε τ)

def pushLiteral (pattern : Str) (litStart i : Nat) (out : List τ) : Except Panic (List τ) :=
  if litStart < i then (slice pattern litStart i).map (fun s => out ++ [syn.literal s]) else .ok out

def scan (pattern : Str) (i litStart : Nat) (out : List τ) :
    Except Panic (Except ε (List τ)) :=
  if i < (encode pattern).length then
    if (encode pattern)[i]? = some PERCENT ∧ (encode pattern)[i + 1]? = some OPEN then do
      let out ← pushLiteral syn pattern litStart i out
      let j := (closing (encode pattern) 1 (i + 2)).2
      if (closing (encode pattern) 1 (i + 2)).1 ≠ 0 then .ok (.error syn.unbalanced)
      else do
        let content ← slice pattern (i + 2) (j - 1)
        match syn.capture content with
        | .error e => .ok (.error e)
        | .ok part => scan pattern j j (out ++ [part])
    else scan pattern (i + 1) litStart out
  else if litStart < byteLen pattern then
    (sliceFrom pattern litStart).map (fun s => .ok (out ++ [syn.literal s]))
  else .ok (.ok out)
termination_by (encode pattern).length - i
decreasing_by
  · have := le_closing (encode pattern) 1 (i + 2)
    omega
  · omega

def tokenizeBytes (pattern : Str) : Except Panic (Except ε (List τ)) := scan syn pattern 0 0 []

section Ascii

theorem encode_cons (c : Char) (s : Str) : encode (c :: s) = String.utf8EncodeChar c ++ encode s :=
  List.flatMap_cons

theorem toUInt8_eq {c d : Char} (hc : c.utf8Size = 1) (hd : d.utf8Size = 1) :
    c.val.toUInt8 = d.val.toUInt8 ↔ c = d := by
  refine ⟨fun h => ?_, fun h => by rw [h]⟩
  rw [← (toUInt8_ascii hc).2, h, (toUInt8_ascii hd).2]

theorem levelByte_ascii {c : Char} (hc : c.utf8Size = 1) (depth : Nat) :
    levelByte depth c.val.toUInt8 = level depth c := by
  have ho : c.val.toUInt8 = OPEN ↔ c = '{' := toUInt8_eq hc (d := '{') rfl
  have hcl : c.val.toUInt8 = CLOSE ↔ c = '}' := toUInt8_eq hc (d := '}') rfl
  simp only [levelByte, level, ho, hcl]

theorem level_wide {c : Char} (hc : c.utf8Size ≠ 1) (depth : Nat) : level depth c = depth := by
  have ho : c ≠ '{' := by
    rintro rfl
    exact hc rfl
  have hcl : c ≠ '}' := by
    rintro rfl
    exact hc rfl
  rw [level, if_neg ho, if_neg hcl]

/-- The first byte of a text is that of an ASCII character only if the text
begins with the character. -/
theorem head_encode {s : Str} {d : Char} (hd : d.utf8Size = 1) :
    (encode s).head? = some d.val.toUInt8 ↔ s.head? = some d := by
  cases s with
  | nil => simp [encode]
  | cons c s =>
    rw [List.head?_cons, Option.some.injEq]
    by_cases hc : c.utf8Size = 1
    · rw [encode_cons_ascii hc, List.head?_cons, Option.some.injEq, toUInt8_eq hc hd]
    · obtain ⟨b, bs, hb, hlow, -⟩ := utf8EncodeChar_wide hc
      rw [encode_cons, hb, List.cons_append, List.head?_cons, Option.some.injEq]
      refine iff_of_false (fun h => ?_) (fun h => hc (h ▸ hd))
      have hlt := UInt8.lt_iff_toNat_lt.mp (toUInt8_ascii hd).1
      rw [← h] at hlt
      have h80 : (0x80 : UInt8).toNat = 0x80 := rfl
      omega

end Ascii

section Drop

variable {bytes l : Bytes} {b : UInt8} {i : Nat}

theorem lt_length_of_drop (h : bytes.drop i = b :: l) : i < bytes.length := by
  by_contra hn
  rw [List.drop_eq_nil_of_le (Nat.le_of_not_lt hn)] at h
  cases h

theorem drop_succ_of_drop (h : bytes.drop i = b :: l) : bytes.drop (i + 1) = l := by
  rw [← List.drop_drop, h]
  rfl

theorem getElem?_of_drop (h : bytes.drop i = b :: l) :
    bytes[i]? = some b ∧ bytes[i + 1]? = l.head? := by
  rw [← List.head?_drop, ← List.head?_drop, h, drop_succ_of_drop h]
  exact ⟨rfl, rfl⟩

end Drop

section Closing

variable {bytes : Bytes} {depth j : Nat}

theorem closing_next {b : UInt8} {l : Bytes} (h : bytes.drop j = b :: l) (hd : 0 < depth) :
    closing bytes depth j = closing bytes (levelByte depth b) (j + 1) := by
  have hj := lt_length_of_drop h
  have hb : bytes.get ⟨j, hj⟩ = b := by
    have hget := List.drop_eq_getElem_cons hj
    rw [h] at hget
    exact (List.cons.inj hget).1.symm
  rw [closing, dif_pos ⟨hj, hd⟩, hb]

theorem closing_end (h : bytes.drop j = []) : closing bytes depth j = (depth, j) := by
  rw [closing, dif_neg]
  rintro ⟨hj, -⟩
  exact absurd (List.drop_eq_nil_iff.mp h) (Nat.not_le_of_lt hj)

theorem closing_zero : closing bytes 0 j = (0, j) := by
  rw [closing, dif_neg (fun h => Nat.lt_irrefl 0 h.2)]

theorem levelByte_high {b : UInt8} (hb : 0x80 ≤ b.toNat) (depth : Nat) :
    levelByte depth b = depth := by
  have ho : b ≠ OPEN := by
    rintro rfl
    exact absurd hb (by decide)
  have hc : b ≠ CLOSE := by
    rintro rfl
    exact absurd hb (by decide)
  rw [levelByte, if_neg ho, if_neg hc]

theorem closing_skip {w l : Bytes} (hw : ∀ b ∈ w, 0x80 ≤ b.toNat) (h : bytes.drop j = w ++ l)
    (hd : 0 < depth) : closing bytes depth j = closing bytes depth (j + w.length) := by
  induction w generalizing j with
  | nil => rfl
  | cons b w ih =>
    obtain ⟨hb, hw⟩ := List.forall_mem_cons.mp hw
    rw [closing_next h hd, levelByte_high hb, ih hw (drop_succ_of_drop h), List.length_cons]
    congr 1
    omega

theorem closing_cases (a t : Str) {depth : Nat} (hd : 0 < depth) :
    (closeAt depth t = none ∧ (closing (encode (a ++ t)) depth (byteLen a)).1 ≠ 0) ∨
      ∃ u r, closeAt depth t = some (u, r) ∧
        closing (encode (a ++ t)) depth (byteLen a) = (0, byteLen (a ++ u) + 1) := by
  induction t generalizing a depth with
  | nil =>
    refine Or.inl ⟨rfl, ?_⟩
    rw [closing_end (drop_encode a [])]
    exact Nat.ne_of_gt hd
  | cons c t ih =>
    have hdrop := drop_encode a (c :: t)
    rw [encode_cons] at hdrop
    have happ : a ++ c :: t = (a ++ [c]) ++ t := by simp
    have hlen : byteLen (a ++ [c]) = byteLen a + c.utf8Size := by simp
    -- what the loop does behind the character, unless that closes the capture
    have hrest : level depth c ≠ 0 → closing (encode (a ++ c :: t)) depth (byteLen a) =
        closing (encode (a ++ c :: t)) (level depth c) (byteLen (a ++ [c])) →
        (closeAt depth (c :: t) = none ∧ (closing (encode (a ++ c :: t)) depth (byteLen a)).1 ≠ 0) ∨
          ∃ u r, closeAt depth (c :: t) = some (u, r) ∧
            closing (encode (a ++ c :: t)) depth (byteLen a) = (0, byteLen (a ++ u) + 1) := by
      intro hz hstep
      rw [hstep, closeAt, if_neg hz, happ]
      obtain ⟨hn, h⟩ | ⟨u, r, hs, h⟩ := ih (a ++ [c]) (Nat.pos_of_ne_zero hz)
      · exact Or.inl ⟨by rw [hn]; rfl, h⟩
      · exact Or.inr ⟨c :: u, r, by rw [hs]; rfl, by rw [h]; simp⟩
    by_cases hc : c.utf8Size = 1
    · rw [String.utf8EncodeChar_eq_singleton hc, List.singleton_append] at hdrop
      have hstep := closing_next hdrop hd
      rw [levelByte_ascii hc, ← hc, ← hlen] at hstep
      by_cases hz : level depth c = 0
      · refine Or.inr ⟨[], t, by rw [closeAt, if_pos hz], ?_⟩
        rw [hstep, hz, closing_zero, hlen, hc, List.append_nil]
      · exact hrest hz hstep
    · have hstep := closing_skip (utf8EncodeChar_high hc) hdrop hd
      rw [String.length_utf8EncodeChar, ← hlen] at hstep
      have hl := level_wide hc depth
      exact hrest (by rw [hl]; exact Nat.ne_of_gt hd) (by rw [hl]; exact hstep)

end Closing

section Scan

variable {pattern : Str} {i litStart : Nat} {out : List τ}

theorem scan_next {b : UInt8} {l : Bytes} (h : (encode pattern).drop i = b :: l)
    (hb : b = PERCENT → l.head? ≠ some OPEN) :
    scan syn pattern i litStart out = scan syn pattern (i + 1) litStart out := by
  obtain ⟨hget, hget'⟩ := getElem?_of_drop h
  have hnot : ¬ ((encode pattern)[i]? = some PERCENT ∧ (encode pattern)[i + 1]? = some OPEN) := by
    rintro ⟨h₁, h₂⟩
    rw [hget, Option.some.injEq] at h₁
    rw [hget'] at h₂
    exact hb h₁ h₂
  rw [scan, if_pos (lt_length_of_drop h), if_neg hnot]

theorem scan_skip {w l : Bytes} (hw : ∀ b ∈ w, 0x80 ≤ b.toNat)
    (h : (encode pattern).drop i = w ++ l) :
    scan syn pattern i litStart out = scan syn pattern (i + w.length) litStart out := by
  induction w generalizing i with
  | nil => rfl
  | cons b w ih =>
    obtain ⟨hb, hw⟩ := List.forall_mem_cons.mp hw
    have hne : b = PERCENT → (w ++ l).head? ≠ some OPEN := by
      rintro rfl
      exact absurd hb (by decide)
    rw [scan_next syn h hne, ih hw (drop_succ_of_drop h), List.length_cons]
    congr 1
    omega

theorem byteLen_reverse_pos {run : Str} (h : run ≠ []) : 0 < byteLen run.reverse := by
  rw [Nat.pos_iff_ne_zero, Ne, byteLen_eq_zero]
  simpa using h

theorem pushLiteral_eq (pre run s : Str) (out : List τ) :
    pushLiteral syn (pre ++ (run.reverse ++ s)) (byteLen pre) (byteLen pre + byteLen run.reverse) out =
      .ok (out ++ flush syn run []) := by
  rw [pushLiteral, slice_append, flush]
  by_cases hrun : run = []
  · simp [hrun]
  · have hpos := byteLen_reverse_pos hrun
    rw [if_pos (by omega), if_neg hrun]
    rfl

theorem flush_eq (run : Str) (parts : List τ) :
    flush syn run parts = flush syn run [] ++ parts := by
  rw [flush, flush]
  split <;> rfl

theorem scan_end (pre run : Str) (out : List τ) :
    scan syn (pre ++ run.reverse) (byteLen pre + byteLen run.reverse) (byteLen pre) out =
      .ok (.ok (out ++ flush syn run [])) := by
  rw [scan, if_neg (by simp [length_encode]), sliceFrom_append, byteLen_append, flush]
  by_cases hrun : run = []
  · simp [hrun]
  · have hpos := byteLen_reverse_pos hrun
    rw [if_pos (by omega), if_neg hrun]
    rfl

/-- A character that opens no capture joins the pending literal. -/
theorem scan_char {pre run s : Str} {c : Char} (h : c = '%' → s.head? ≠ some '{') (out : List τ) :
    scan syn (pre ++ (run.reverse ++ c :: s)) (byteLen pre + byteLen run.reverse) (byteLen pre) out =
      scan syn (pre ++ ((c :: run).reverse ++ s)) (byteLen pre + byteLen (c :: run).reverse)
        (byteLen pre) out := by
  have hpat : pre ++ ((c :: run).reverse ++ s) = pre ++ (run.reverse ++ c :: s) := by simp
  have hlen : byteLen pre + byteLen (c :: run).reverse =
      byteLen pre + byteLen run.reverse + c.utf8Size := by
    simp
    omega
  have hdrop := drop_encode (pre ++ run.reverse) (c :: s)
  rw [byteLen_append, List.append_assoc, encode_cons] at hdrop
  rw [hpat, hlen]
  by_cases hc : c.utf8Size = 1
  · rw [String.utf8EncodeChar_eq_singleton hc, List.singleton_append] at hdrop
    have hb : c.val.toUInt8 = PERCENT → (encode s).head? ≠ some OPEN := by
      intro hp ho
      exact h ((toUInt8_eq hc (d := '%') rfl).mp hp) ((head_encode (d := '{') rfl).mp ho)
    rw [scan_next syn hdrop hb, hc]
  · rw [scan_skip syn (utf8EncodeChar_high hc) hdrop, String.length_utf8EncodeChar]

/-- The opening of a capture: the pending literal is pushed, and the content up
to the closing brace is taken, with both slices on boundaries. -/
theorem scan_open (pre run t : Str) (out : List τ) :
    scan syn (pre ++ (run.reverse ++ '%' :: '{' :: t)) (byteLen pre + byteLen run.reverse)
        (byteLen pre) out =
      match closeAt 1 t with
      | none => .ok (.error syn.unbalanced)
      | some (u, _) =>
        match syn.capture u with
        | .error e => .ok (.error e)
        | .ok part => scan syn (pre ++ (run.reverse ++ '%' :: '{' :: t))
            (byteLen (pre ++ (run.reverse ++ '%' :: '{' :: (u ++ ['}']))))
            (byteLen (pre ++ (run.reverse ++ '%' :: '{' :: (u ++ ['}']))))
            (out ++ flush syn run [] ++ [part]) := by
  have hdrop : (encode (pre ++ (run.reverse ++ '%' :: '{' :: t))).drop
      (byteLen pre + byteLen run.reverse) = PERCENT :: OPEN :: encode t := by
    have h := drop_encode (pre ++ run.reverse) ('%' :: '{' :: t)
    rw [byteLen_append, List.append_assoc] at h
    exact h
  obtain ⟨hget, hget'⟩ := getElem?_of_drop hdrop
  have hpat : pre ++ (run.reverse ++ '%' :: '{' :: t) = (pre ++ run.reverse ++ ['%', '{']) ++ t := by
    simp
  have hlen : byteLen (pre ++ run.reverse ++ ['%', '{']) = byteLen pre + byteLen run.reverse + 2 := by
    rw [byteLen_append, byteLen_append]
    rfl
  have hclosing := closing_cases (pre ++ run.reverse ++ ['%', '{']) t Nat.one_pos
  rw [← hpat, hlen] at hclosing
  rw [scan, if_pos (lt_length_of_drop hdrop), if_pos ⟨hget, hget'⟩, pushLiteral_eq]
  obtain ⟨hn, hc⟩ | ⟨u, r, hs, hc⟩ := hclosing
  · rw [hn]
    simp only [bind, Except.bind, if_pos hc]
  · obtain ⟨rfl, -⟩ := closeAt_balanced.mp hs
    have hend : byteLen (pre ++ run.reverse ++ ['%', '{'] ++ u) =
        byteLen pre + byteLen run.reverse + 2 + byteLen u := by
      rw [byteLen_append, hlen]
    have hj : byteLen (pre ++ run.reverse ++ ['%', '{'] ++ u) + 1 =
        byteLen (pre ++ (run.reverse ++ '%' :: '{' :: (u ++ ['}']))) := by
      have hbr : ('}' : Char).utf8Size = 1 := rfl
      simp only [byteLen_append, byteLen_cons, byteLen_nil, hbr]
      omega
    have hslice : slice (pre ++ (run.reverse ++ '%' :: '{' :: (u ++ '}' :: r)))
        (byteLen pre + byteLen run.reverse + 2)
        (byteLen (pre ++ (run.reverse ++ '%' :: '{' :: (u ++ ['}']))) - 1) = .ok u := by
      rw [← hj, Nat.add_sub_cancel, hend, ← hlen, hpat, slice_append]
    rw [hs, hc]
    simp only [bind, Except.bind, ne_eq, not_true_eq_false, if_false, hslice, hj]

theorem scan_eq (pre run s : Str) (out : List τ) :
    scan syn (pre ++ (run.reverse ++ s)) (byteLen pre + byteLen run.reverse) (byteLen pre) out =
      .ok ((scanLiteral syn run s).map (out ++ ·)) := by
  induction hn : s.length using Nat.strongRecOn generalizing pre run s out with
  | _ n ih =>
    cases s with
    | nil =>
      rw [List.append_nil, scan_end, scanLiteral]
      rfl
    | cons c s =>
      by_cases hopen : c = '%' ∧ s.head? = some '{'
      · obtain ⟨rfl, hs⟩ := hopen
        obtain ⟨t, rfl⟩ : ∃ t, s = '{' :: t := by
          cases s with
          | nil => cases hs
          | cons d t => exact ⟨t, by rw [Option.some.inj hs]⟩
        rw [scan_open, scanLiteral, scanCapture_eq syn Nat.one_pos]
        cases hc : closeAt 1 t with
        | none => rfl
        | some p =>
          obtain ⟨u, r⟩ := p
          obtain ⟨rfl, -⟩ := closeAt_balanced.mp hc
          simp only [resume, List.reverse_nil, List.nil_append]
          cases hcap : syn.capture u with
          | error e => rfl
          | ok part =>
            have hlt : r.length < n := by
              rw [← hn]
              simp
              omega
            have hpat : pre ++ (run.reverse ++ '%' :: '{' :: (u ++ ['}'])) ++ r =
                pre ++ (run.reverse ++ '%' :: '{' :: (u ++ '}' :: r)) := by
              simp
            have hrest := ih _ hlt (pre ++ (run.reverse ++ '%' :: '{' :: (u ++ ['}']))) [] r
              (out ++ flush syn run [] ++ [part]) rfl
            rw [List.reverse_nil, byteLen_nil, Nat.add_zero, List.nil_append, hpat] at hrest
            simp only [hrest]
            cases scanLiteral syn [] r with
            | error e => rfl
            | ok parts =>
              have hflush := flush_eq syn run (part :: parts)
              simp [Except.map, bind, Except.bind, hflush]
      · have hnot : c = '%' → s.head? ≠ some '{' := fun hc hs => hopen ⟨hc, hs⟩
        rw [scan_char syn hnot, scanLiteral_cons syn hnot]
        exact ih s.length (by rw [← hn]; simp) pre (c :: run) s out rfl

/-- The byte-level tokenizer never panics, and is the tokenizer over
characters. -/
theorem tokenizeBytes_eq (pattern : Str) :
    tokenizeBytes syn pattern = .ok (tokenize syn pattern) := by
  have h := scan_eq syn [] [] pattern []
  rw [tokenizeBytes, tokenize]
  rw [show ([] : Str) ++ ([].reverse ++ pattern) = pattern from rfl] at h
  refine h.trans ?_
  cases scanLiteral syn [] pattern <;> rfl

end Scan

end TptTelemetry.Lib.TemplateBytes
