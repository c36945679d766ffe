import TptTelemetry.Lib.Utf8

namespace TptTelemetry.Lib.Numeral

open TptTelemetry.Lib.Text TptTelemetry.Lib.Utf8

def toDigit (radix : Nat) (c : Char) : Option Nat :=
  let d :=
    if '0' ≤ c ∧ c ≤ '9' then some (c.toNat - '0'.toNat)
    else if 'a' ≤ c ∧ c ≤ 'z' then some (c.toNat - 'a'.toNat + 10)
    else if 'A' ≤ c ∧ c ≤ 'Z' then some (c.toNat - 'A'.toNat + 10)
    else none
  d.filter (· < radix)

/-- Accumulate digits, failing as soon as the value leaves the range. -/
def parseDigits (radix bound : Nat) : Nat → Str → Option Nat
  | acc, [] => some acc
  | acc, c :: s => do
    let d ← toDigit radix c
    if acc * radix + d < bound then parseDigits radix bound (acc * radix + d) s else none

/-- `from_str_radix` of an unsigned type with the given number of values. A
leading plus sign is part of the grammar. -/
def parseUnsigned (radix bound : Nat) : Str → Option Nat
  | [] => none
  | ['+'] => none
  | ['-'] => none
  | '+' :: s => parseDigits radix bound 0 s
  | s => parseDigits radix bound 0 s

/-- `from_str` of a signed type whose least value is `-half`. -/
def parseSigned (half : Nat) : Str → Option Int
  | [] => none
  | ['+'] => none
  | ['-'] => none
  | '+' :: s => (parseDigits 10 half 0 s).map Int.ofNat
  | '-' :: s => (parseDigits 10 (half + 1) 0 s).map (fun n => -Int.ofNat n)
  | s => (parseDigits 10 half 0 s).map Int.ofNat

/-- `checked_add` of an unsigned type with the given number of values. -/
def checkedAdd (bound a b : Nat) : Option Nat := if a + b < bound then some (a + b) else none

def checkedMul (bound a b : Nat) : Option Nat := if a * b < bound then some (a * b) else none

def decimal (n : Nat) : Str := Nat.toDigits 10 n

theorem toDigit_digitChar {d : Nat} (h : d < 16) : toDigit 16 d.digitChar = some d := by
  have hall : ∀ d : Fin 16, toDigit 16 d.val.digitChar = some d.val := by decide
  exact hall ⟨d, h⟩

theorem checkedAdd_eq_some {bound a b c : Nat} :
    checkedAdd bound a b = some c ↔ a + b < bound ∧ a + b = c := by
  simp [checkedAdd]

theorem checkedMul_eq_some {bound a b c : Nat} :
    checkedMul bound a b = some c ↔ a * b < bound ∧ a * b = c := by
  simp [checkedMul]

theorem toDigit_lt {radix d : Nat} {c : Char} (h : toDigit radix c = some d) : d < radix := by
  rw [toDigit, Option.filter_eq_some_iff] at h
  exact of_decide_eq_true h.2

theorem toNat_of_toDigit {radix d : Nat} {c : Char} (h : toDigit radix c = some d) :
    (48 ≤ c.toNat ∧ c.toNat ≤ 57) ∨ (97 ≤ c.toNat ∧ c.toNat ≤ 122) ∨
      (65 ≤ c.toNat ∧ c.toNat ≤ 90) := by
  rw [toDigit, Option.filter_eq_some_iff] at h
  obtain ⟨h, -⟩ := h
  split at h
  · next hc => exact Or.inl hc
  · split at h
    · next hc => exact Or.inr (Or.inl hc)
    · split at h
      · next hc => exact Or.inr (Or.inr hc)
      · cases h

theorem utf8Size_of_toDigit {radix d : Nat} {c : Char} (h : toDigit radix c = some d) :
    c.utf8Size = 1 := by
  rw [Char.utf8Size_eq_one_iff]
  have hle : c.toNat ≤ 127 := by
    have := toNat_of_toDigit h
    omega
  exact UInt32.le_iff_toNat_le.mpr hle

theorem toDigit_plus (radix : Nat) : toDigit radix '+' = none := rfl

theorem toDigit_minus (radix : Nat) : toDigit radix '-' = none := rfl

theorem parseUnsigned_eq_some {radix bound n : Nat} {s : Str} :
    parseUnsigned radix bound s = some n ↔
      (s ≠ [] ∧ parseDigits radix bound 0 s = some n) ∨
        ∃ t, s = '+' :: t ∧ t ≠ [] ∧ parseDigits radix bound 0 t = some n := by
  have hsign : ∀ {c : Char} {t : Str}, toDigit radix c = none →
      parseDigits radix bound 0 (c :: t) ≠ some n := by
    intro c t hc h
    simp [parseDigits, hc] at h
  unfold parseUnsigned
  split
  · simp
  · simp [hsign (toDigit_plus radix)]
  · simp [hsign (toDigit_minus radix)]
  · next t ht =>
    have hne : t ≠ [] := by
      rintro rfl
      exact ht rfl
    simp [hsign (toDigit_plus radix), hne]
  · next hnil _ _ hplus =>
    refine ⟨fun h => Or.inl ⟨fun h' => hnil h', h⟩, ?_⟩
    rintro (⟨-, h⟩ | ⟨t, rfl, -, -⟩)
    · exact h
    · exact absurd rfl (hplus t)

theorem toDigit_ten {c : Char} (hc : c.isDigit) : toDigit 10 c = some (c.toNat - '0'.toNat) := by
  obtain ⟨hl, hu⟩ : '0' ≤ c ∧ c ≤ '9' := by
    simpa [Char.isDigit, Char.le_def] using hc
  have hlt : c.toNat - '0'.toNat < 10 := by
    have h : c.toNat ≤ '9'.toNat := hu
    have : '9'.toNat = 57 := rfl
    have : '0'.toNat = 48 := rfl
    omega
  simp only [toDigit, hl, hu, and_self, if_true, Option.filter_some, decide_eq_true_eq, hlt]

theorem le_ofDigitChars (s : Str) (acc : Nat) : acc ≤ Nat.ofDigitChars 10 s acc := by
  induction s generalizing acc with
  | nil => simp
  | cons c s ih =>
    rw [Nat.ofDigitChars_cons]
    refine Nat.le_trans ?_ (ih _)
    omega

theorem parseDigits_eq {bound : Nat} {s : Str} (hs : ∀ c ∈ s, c.isDigit) (acc : Nat)
    (hb : Nat.ofDigitChars 10 s acc < bound) :
    parseDigits 10 bound acc s = some (Nat.ofDigitChars 10 s acc) := by
  induction s generalizing acc with
  | nil => simp [parseDigits]
  | cons c s ih =>
    rw [Nat.ofDigitChars_cons] at hb ⊢
    have hle := le_ofDigitChars s (10 * acc + (c.toNat - '0'.toNat))
    have hlt : acc * 10 + (c.toNat - '0'.toNat) < bound := by
      rw [Nat.mul_comm]
      exact Nat.lt_of_le_of_lt hle hb
    simp only [parseDigits, toDigit_ten (hs c (by simp)), Option.bind_eq_bind, Option.bind_some,
      hlt, if_true]
    rw [Nat.mul_comm]
    exact ih (fun d hd => hs d (by simp [hd])) _ hb

theorem isDigit_of_toDigit {c : Char} {d : Nat} (h : toDigit 10 c = some d) : c.isDigit := by
  rw [toDigit, Option.filter_eq_some_iff] at h
  obtain ⟨hd, hlt⟩ := h
  have hlt : d < 10 := of_decide_eq_true hlt
  split at hd
  · next hc => simpa [Char.isDigit, Char.le_def] using hc
  · split at hd
    · cases hd
      omega
    · split at hd
      · cases hd
        omega
      · cases hd

/-- What is read as a decimal number is a run of digits with that value. -/
theorem parseDigits_ten {bound acc n : Nat} {s : Str} (hacc : acc < bound) :
    parseDigits 10 bound acc s = some n ↔
      (∀ c ∈ s, c.isDigit) ∧ Nat.ofDigitChars 10 s acc = n ∧ n < bound := by
  constructor
  · intro h
    induction s generalizing acc with
    | nil =>
      cases h
      exact ⟨by simp, by simp, hacc⟩
    | cons c s ih =>
      rw [parseDigits] at h
      obtain ⟨d, hd, h⟩ := Option.bind_eq_some_iff.mp h
      have hc := isDigit_of_toDigit hd
      rw [toDigit_ten hc] at hd
      split at h
      · next hlt =>
        obtain ⟨hs, hv, hn⟩ := ih hlt h
        refine ⟨List.forall_mem_cons.mpr ⟨hc, hs⟩, ?_, hn⟩
        rw [Nat.ofDigitChars_cons, Nat.mul_comm, Option.some.inj hd]
        exact hv
      · cases h
  · rintro ⟨hs, rfl, hn⟩
    exact parseDigits_eq hs acc hn

theorem parseUnsigned_lt {bound n : Nat} {s : Str} (hb : 0 < bound)
    (h : parseUnsigned 10 bound s = some n) : n < bound := by
  obtain ⟨-, h⟩ | ⟨t, -, -, h⟩ := parseUnsigned_eq_some.mp h
  · exact ((parseDigits_ten hb).mp h).2.2
  · exact ((parseDigits_ten hb).mp h).2.2

theorem parseDigits_mono {bound bound' acc n : Nat} {s : Str} (hacc : acc < bound)
    (hle : bound ≤ bound') (h : parseDigits 10 bound acc s = some n) :
    parseDigits 10 bound' acc s = some n := by
  obtain ⟨hs, hv, hn⟩ := (parseDigits_ten hacc).mp h
  exact (parseDigits_ten (Nat.lt_of_lt_of_le hacc hle)).mpr ⟨hs, hv, Nat.lt_of_lt_of_le hn hle⟩

theorem parseUnsigned_mono {bound bound' n : Nat} {s : Str} (hb : 0 < bound) (hle : bound ≤ bound')
    (h : parseUnsigned 10 bound s = some n) : parseUnsigned 10 bound' s = some n := by
  rw [parseUnsigned_eq_some] at h ⊢
  exact h.imp (And.imp_right (parseDigits_mono hb hle))
    (fun ⟨t, hs, ht, hd⟩ => ⟨t, hs, ht, parseDigits_mono hb hle hd⟩)

theorem parseSigned_of_unsigned {half n : Nat} {s : Str} (h : parseUnsigned 10 half s = some n) :
    parseSigned half s = some (n : Int) := by
  have hsign : ∀ {c : Char} {t : Str}, toDigit 10 c = none →
      parseDigits 10 half 0 (c :: t) ≠ some n := by
    intro c t hc h
    simp [parseDigits, hc] at h
  obtain ⟨hne, h⟩ | ⟨t, rfl, hne, h⟩ := parseUnsigned_eq_some.mp h
  · unfold parseSigned
    split
    · exact absurd rfl hne
    · exact absurd h (hsign (toDigit_plus 10))
    · exact absurd h (hsign (toDigit_minus 10))
    · exact absurd h (hsign (toDigit_plus 10))
    · exact absurd h (hsign (toDigit_minus 10))
    · rw [h]
      rfl
  · cases t with
    | nil => exact absurd rfl hne
    | cons c t =>
      rw [parseSigned, h]
      · rfl
      · simp

theorem isDigit_decimal {n : Nat} {c : Char} (hc : c ∈ decimal n) : c.isDigit :=
  Nat.isDigit_of_mem_toDigits (by decide) (by decide) hc

theorem decimal_ne_nil (n : Nat) : decimal n ≠ [] := Nat.toDigits_ne_nil

theorem utf8Size_of_isDigit {c : Char} (hc : c.isDigit) : c.utf8Size = 1 := by
  rw [Char.utf8Size_eq_one_iff]
  obtain ⟨-, hu⟩ : '0' ≤ c ∧ c ≤ '9' := by
    simpa [Char.isDigit, Char.le_def] using hc
  exact UInt32.le_trans (show c.val ≤ 57 from hu) (by decide)

theorem ascii_decimal (n : Nat) : Ascii (decimal n) :=
  fun _ hc => utf8Size_of_isDigit (isDigit_decimal hc)

theorem parseUnsigned_decimal {n bound : Nat} (hn : n < bound) :
    parseUnsigned 10 bound (decimal n) = some n := by
  have hdig : ∀ c ∈ decimal n, c.isDigit := fun c hc => isDigit_decimal hc
  have hv : Nat.ofDigitChars 10 (decimal n) 0 = n := Nat.ofDigitChars_ten_toDigits
  have hd : parseDigits 10 bound 0 (decimal n) = some n := by
    rw [parseDigits_eq hdig 0 (by rwa [hv]), hv]
  exact parseUnsigned_eq_some.mpr (Or.inl ⟨decimal_ne_nil n, hd⟩)

def signed (n : Int) : Str := if n < 0 then '-' :: decimal n.natAbs else decimal n.toNat

theorem parseSigned_signed {half : Nat} {n : Int} (hle : -(half : Int) ≤ n) (hlt : n < half) :
    parseSigned half (signed n) = some n := by
  rw [signed]
  split
  · next hneg =>
    have hdig : ∀ c ∈ decimal n.natAbs, c.isDigit := fun _ hc => isDigit_decimal hc
    have hv : Nat.ofDigitChars 10 (decimal n.natAbs) 0 = n.natAbs := Nat.ofDigitChars_ten_toDigits
    have hd : parseDigits 10 (half + 1) 0 (decimal n.natAbs) = some n.natAbs := by
      rw [parseDigits_eq hdig 0 (by omega), hv]
    rw [parseSigned, hd, Option.map_some, Int.ofNat_eq_natCast]
    · congr 1
      omega
    · exact decimal_ne_nil _
  · next hpos =>
    rw [parseSigned_of_unsigned (parseUnsigned_decimal (by omega))]
    congr 1
    omega

example : parseUnsigned 10 256 "+007".toList = some 7 := by decide
example : parseSigned 128 "-128".toList = some (-128) := by decide

end TptTelemetry.Lib.Numeral
