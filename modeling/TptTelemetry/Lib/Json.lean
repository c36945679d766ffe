import Mathlib.Data.List.TakeWhile
import TptTelemetry.Lib.Numeral

namespace TptTelemetry.Lib.Json

open TptTelemetry.Lib.Text TptTelemetry.Lib.Numeral

section Numbers

def isNumberChar (c : Char) : Bool :=
  c.isDigit || c = '-' || c = '+' || c = '.' || c = 'e' || c = 'E'

def digits (s : Str) : Option Str :=
  if s.takeWhile Char.isDigit = [] then none else some (s.dropWhile Char.isDigit)

def intPart : Str → Option Str
  | '0' :: r => some r
  | s => digits s

def fracPart : Str → Option Str
  | '.' :: r => digits r
  | s => some s

def expPart : Str → Option Str
  | [] => some []
  | c :: r =>
    if c = 'e' ∨ c = 'E' then
      match r with
      | '+' :: r | '-' :: r => digits r
      | r => digits r
    else some (c :: r)

def magnitude (s : Str) : Bool := decide (((intPart s).bind fracPart).bind expPart = some [])

/-- The grammar of a number: no sign but a minus, and no leading zero. -/
def isNumber : Str → Bool
  | '-' :: r => magnitude r
  | s => magnitude s

structure Number where
  text : Str
  chars : text.all isNumberChar = true
  valid : isNumber text = true
  deriving DecidableEq, Repr

theorem digits_of_all {s : Str} (hs : ∀ c ∈ s, c.isDigit) (hne : s ≠ []) : digits s = some [] := by
  have htake : s.takeWhile Char.isDigit = s := List.takeWhile_eq_self_iff.mpr hs
  have hdrop : s.dropWhile Char.isDigit = [] := List.dropWhile_eq_nil_iff.mpr hs
  rw [digits, htake, hdrop, if_neg hne]

theorem decimal_step {n : Nat} (h : 10 ≤ n) :
    decimal n = decimal (n / 10) ++ [Nat.digitChar (n % 10)] :=
  Nat.toDigits_of_base_le (by decide) h

theorem digitChar_ne_zero : ∀ d : Fin 10, d.val ≠ 0 → Nat.digitChar d.val ≠ '0' := by
  decide

theorem head_decimal (n : Nat) : n = 0 ∨ ∃ c r, decimal n = c :: r ∧ c ≠ '0' := by
  induction n using Nat.strongRecOn with
  | ind n ih =>
    by_cases h : 10 ≤ n
    · obtain hz | ⟨c, r, hd, hc⟩ := ih (n / 10) (by omega)
      · omega
      · exact Or.inr ⟨c, r ++ [Nat.digitChar (n % 10)], by rw [decimal_step h, hd]; rfl, hc⟩
    · by_cases hz : n = 0
      · exact Or.inl hz
      · exact Or.inr ⟨Nat.digitChar n, [], Nat.toDigits_of_lt_base (by omega),
          digitChar_ne_zero ⟨n, by omega⟩ hz⟩

theorem magnitude_decimal (n : Nat) : magnitude (decimal n) = true := by
  have hint : intPart (decimal n) = some [] := by
    obtain rfl | ⟨c, r, hd, hc⟩ := head_decimal n
    · rfl
    · have hall : ∀ d ∈ decimal n, d.isDigit := fun _ hd => isDigit_decimal hd
      have hdig := digits_of_all hall (decimal_ne_nil n)
      rw [hd] at hdig ⊢
      rw [intPart, hdig]
      rintro r' ⟨⟩
      exact hc rfl
  rw [magnitude, hint]
  rfl

theorem isNumberChar_of_isDigit {c : Char} (hc : c.isDigit) : isNumberChar c = true := by
  simp [isNumberChar, hc]

theorem all_isNumberChar_decimal (n : Nat) : (decimal n).all isNumberChar = true :=
  List.all_eq_true.mpr fun _ hc => isNumberChar_of_isDigit (isDigit_decimal hc)

theorem isNumber_decimal (n : Nat) : isNumber (decimal n) = true := by
  cases hd : decimal n with
  | nil => exact absurd hd (decimal_ne_nil n)
  | cons c r =>
    have hc : c.isDigit := isDigit_decimal (n := n) (by simp [hd])
    rw [isNumber, ← hd]
    · exact magnitude_decimal n
    · rintro r' ⟨⟩
      exact absurd hc (by decide)

def Number.ofNat (n : Nat) : Number := ⟨decimal n, all_isNumberChar_decimal n, isNumber_decimal n⟩

def Number.ofInt (n : Int) : Number :=
  if n < 0 then
    ⟨'-' :: decimal n.natAbs, by
      rw [List.all_cons, all_isNumberChar_decimal]
      rfl, magnitude_decimal n.natAbs⟩
  else .ofNat n.toNat

theorem Number.text_ofInt (n : Int) : (Number.ofInt n).text = signed n := by
  rw [Number.ofInt, signed]
  split <;> rfl

end Numbers

/-- The members of an object are in the order in which they are written. -/
inductive Tree
  | null
  | bool (b : Bool)
  | num (n : Number)
  | str (s : Str)
  | arr (items : List Tree)
  | obj (members : List (Str × Tree))

section Print

/-- Only what must be escaped is: the quote, the backslash and the control
characters below the blank. -/
def escapeChar (c : Char) : Str :=
  if c = '"' then ['\\', '"']
  else if c = '\\' then ['\\', '\\']
  else if c = '\n' then ['\\', 'n']
  else if c = '\r' then ['\\', 'r']
  else if c = '\t' then ['\\', 't']
  else if c = Char.ofNat 8 then ['\\', 'b']
  else if c = Char.ofNat 12 then ['\\', 'f']
  else if c.toNat < 0x20 then
    ['\\', 'u', '0', '0', Nat.digitChar (c.toNat / 16), Nat.digitChar (c.toNat % 16)]
  else [c]

def quoted (s : Str) : Str := '"' :: s.flatMap escapeChar ++ ['"']

mutual

/-- Compact, without blanks. -/
def print : Tree → Str
  | .null => ['n', 'u', 'l', 'l']
  | .bool true => ['t', 'r', 'u', 'e']
  | .bool false => ['f', 'a', 'l', 's', 'e']
  | .num n => n.text
  | .str s => quoted s
  | .arr items => '[' :: printItems items ++ [']']
  | .obj members => '{' :: printMembers members ++ ['}']

def printItems : List Tree → Str
  | [] => []
  | [j] => print j
  | j :: js => print j ++ ',' :: printItems js

def printMembers : List (Str × Tree) → Str
  | [] => []
  | [(k, j)] => quoted k ++ ':' :: print j
  | (k, j) :: ms => quoted k ++ ':' :: print j ++ ',' :: printMembers ms

end

end Print

section Read

def unescape (c : Char) : Option Char :=
  if c = '"' ∨ c = '\\' ∨ c = '/' then some c
  else if c = 'n' then some '\n'
  else if c = 'r' then some '\r'
  else if c = 't' then some '\t'
  else if c = 'b' then some (Char.ofNat 8)
  else if c = 'f' then some (Char.ofNat 12)
  else none

/-- The number that four hexadecimal digits stand for, if it is a character: the
halves of surrogate pairs are not read. -/
def hexChar (a b c d : Char) : Option Char := do
  let a ← toDigit 16 a
  let b ← toDigit 16 b
  let c ← toDigit 16 c
  let d ← toDigit 16 d
  let n := ((a * 16 + b) * 16 + c) * 16 + d
  if n.isValidChar then some (Char.ofNat n) else none

def readString : Str → Option (Str × Str)
  | [] => none
  | '"' :: r => some ([], r)
  | '\\' :: 'u' :: a :: b :: c :: d :: r =>
    (hexChar a b c d).bind fun x => (readString r).map fun (t, r) => (x :: t, r)
  | '\\' :: c :: r => (unescape c).bind fun x => (readString r).map fun (t, r) => (x :: t, r)
  | c :: r => if c.toNat < 0x20 then none else (readString r).map fun (t, r) => (c :: t, r)

def readLiteral (s : Str) : Option (Tree × Str) :=
  if ['n', 'u', 'l', 'l'] <+: s then some (.null, s.drop 4)
  else if ['t', 'r', 'u', 'e'] <+: s then some (.bool true, s.drop 4)
  else if ['f', 'a', 'l', 's', 'e'] <+: s then some (.bool false, s.drop 5)
  else
    let text := s.takeWhile isNumberChar
    if h : text.all isNumberChar = true ∧ isNumber text = true then
      some (.num ⟨text, h.1, h.2⟩, s.dropWhile isNumberChar)
    else none

mutual

/-- A value at the start of the text, with what follows it. -/
def readValue : Nat → Str → Option (Tree × Str)
  | 0, _ => none
  | n + 1, s =>
    match s with
    | '"' :: r => (readString r).map fun (t, r) => (.str t, r)
    | '[' :: ']' :: r => some (.arr [], r)
    | '[' :: r => (readItems n r).map fun (js, r) => (.arr js, r)
    | '{' :: '}' :: r => some (.obj [], r)
    | '{' :: r => (readMembers n r).map fun (ms, r) => (.obj ms, r)
    | s => readLiteral s

def readItems : Nat → Str → Option (List Tree × Str)
  | 0, _ => none
  | n + 1, s =>
    match readValue n s with
    | some (j, ',' :: r) => (readItems n r).map fun (js, r) => (j :: js, r)
    | some (j, ']' :: r) => some ([j], r)
    | _ => none

def readMembers : Nat → Str → Option (List (Str × Tree) × Str)
  | 0, _ => none
  | n + 1, s =>
    match s with
    | '"' :: r =>
      match readString r with
      | some (k, ':' :: r) =>
        match readValue n r with
        | some (j, ',' :: r) => (readMembers n r).map fun (ms, r) => ((k, j) :: ms, r)
        | some (j, '}' :: r) => some ([(k, j)], r)
        | _ => none
      | _ => none
    | _ => none

end

def read (s : Str) : Option Tree :=
  match readValue (2 * s.length + 1) s with
  | some (j, []) => some j
  | _ => none

end Read

section RoundTrip

theorem hexChar_low {c : Char} (hc : c.toNat < 0x20) :
    hexChar '0' '0' (Nat.digitChar (c.toNat / 16)) (Nat.digitChar (c.toNat % 16)) = some c := by
  have hhigh := toDigit_digitChar (show c.toNat / 16 < 16 by omega)
  have hlow := toDigit_digitChar (show c.toNat % 16 < 16 by omega)
  have hzero : toDigit 16 '0' = some 0 := by decide
  have hsum : ((0 * 16 + 0) * 16 + c.toNat / 16) * 16 + c.toNat % 16 = c.toNat := by omega
  have hvalid : c.toNat.isValidChar := Or.inl (by omega)
  simp only [hexChar, hzero, hhigh, hlow, bind, Option.bind_some, hsum, hvalid, if_true,
    Char.ofNat_toNat]

/-- A character is read back, however it had to be written. -/
theorem readString_escapeChar (c : Char) (t : Str) :
    readString (escapeChar c ++ t) = (readString t).map fun p => (c :: p.1, p.2) := by
  unfold escapeChar
  split
  · next h => subst h; rfl
  split
  · next h => subst h; rfl
  split
  · next h => subst h; rfl
  split
  · next h => subst h; rfl
  split
  · next h => subst h; rfl
  split
  · next h => subst h; rfl
  split
  · next h => subst h; rfl
  split
  · next h =>
    simp only [List.cons_append, List.nil_append, readString, hexChar_low h, Option.bind_some]
  · next hq hb _ _ _ _ _ h =>
    rw [List.singleton_append, readString, if_neg h]
    · exact hq
    · intro a b c d r hc
      exact absurd hc hb
    · intro d r hc
      exact absurd hc hb

theorem readString_flatMap (s r : Str) :
    readString (s.flatMap escapeChar ++ '"' :: r) = some (s, r) := by
  induction s with
  | nil => rfl
  | cons c s ih =>
    rw [List.flatMap_cons, List.append_assoc, readString_escapeChar, ih]
    rfl

theorem quoted_append (s r : Str) : quoted s ++ r = '"' :: (s.flatMap escapeChar ++ '"' :: r) := by
  simp [quoted]

def NoNumberHead (r : Str) : Prop := ∀ c t, r = c :: t → isNumberChar c = false

theorem noNumberHead_cons {c : Char} {r : Str} (hc : isNumberChar c = false) :
    NoNumberHead (c :: r) := by
  rintro c' t ⟨⟩
  exact hc

theorem Number.exists_head (n : Number) : ∃ c t, n.text = c :: t ∧ isNumberChar c = true := by
  cases h : n.text with
  | nil =>
    have hv := n.valid
    rw [h] at hv
    exact absurd hv (by decide)
  | cons c t =>
    have hall := n.chars
    rw [h, List.all_cons, Bool.and_eq_true] at hall
    exact ⟨c, t, rfl, hall.1⟩

theorem ne_of_isNumberChar {c : Char} (hc : isNumberChar c = true) :
    c ≠ 'n' ∧ c ≠ 't' ∧ c ≠ 'f' ∧ c ≠ '"' ∧ c ≠ '[' ∧ c ≠ '{' ∧ c ≠ ']' := by
  refine ⟨?_, ?_, ?_, ?_, ?_, ?_, ?_⟩ <;> rintro rfl <;> exact absurd hc (by decide)

theorem readLiteral_number (n : Number) {r : Str} (hr : NoNumberHead r) :
    readLiteral (n.text ++ r) = some (.num n, r) := by
  obtain ⟨c, t, ht, hc⟩ := n.exists_head
  obtain ⟨hn, htr, hf, -⟩ := ne_of_isNumberChar hc
  have hall : ∀ d ∈ n.text, isNumberChar d = true := List.all_eq_true.mp n.chars
  have hstop : r.takeWhile isNumberChar = [] ∧ r.dropWhile isNumberChar = r := by
    cases r with
    | nil => exact ⟨rfl, rfl⟩
    | cons d r => simp [hr d r rfl]
  have htake : (n.text ++ r).takeWhile isNumberChar = n.text := by
    rw [List.takeWhile_append_of_pos hall, hstop.1, List.append_nil]
  have hdrop : (n.text ++ r).dropWhile isNumberChar = r := by
    rw [List.dropWhile_append_of_pos hall, hstop.2]
  have hhead : ∀ {d : Char} {w : Str}, c ≠ d → ¬ d :: w <+: n.text ++ r := by
    intro d w hcd hp
    rw [ht, List.cons_append, List.cons_prefix_cons] at hp
    exact hcd hp.1.symm
  rw [readLiteral, if_neg (hhead hn), if_neg (hhead htr), if_neg (hhead hf)]
  simp only [htake, hdrop, n.chars, n.valid, and_self, dite_true]

theorem readValue_literal {c : Char} {r : Str} (n : Nat) (hq : c ≠ '"') (ha : c ≠ '[')
    (ho : c ≠ '{') : readValue (n + 1) (c :: r) = readLiteral (c :: r) := by
  rw [readValue] <;> simp_all

mutual

/-- How deep the reader goes for a value. -/
def size : Tree → Nat
  | .arr items => 1 + sizeItems items
  | .obj members => 1 + sizeMembers members
  | .null | .bool _ | .num _ | .str _ => 1

def sizeItems : List Tree → Nat
  | [] => 0
  | j :: js => 1 + size j + sizeItems js

def sizeMembers : List (Str × Tree) → Nat
  | [] => 0
  | (_, j) :: ms => 1 + size j + sizeMembers ms

end

theorem print_head (j : Tree) : ∃ c t, print j = c :: t ∧ c ≠ ']' := by
  cases j with
  | null => exact ⟨_, _, rfl, by decide⟩
  | bool b => cases b <;> exact ⟨_, _, rfl, by decide⟩
  | num n =>
    obtain ⟨c, t, ht, hc⟩ := n.exists_head
    exact ⟨c, t, by rw [print, ht], (ne_of_isNumberChar hc).2.2.2.2.2.2⟩
  | str s => exact ⟨_, _, rfl, by decide⟩
  | arr items => exact ⟨_, _, rfl, by decide⟩
  | obj members => exact ⟨_, _, rfl, by decide⟩

theorem printItems_head (j : Tree) (js : List Tree) :
    ∃ c t, printItems (j :: js) = c :: t ∧ c ≠ ']' := by
  obtain ⟨c, t, ht, hc⟩ := print_head j
  cases js with
  | nil => exact ⟨c, t, ht, hc⟩
  | cons j' js => exact ⟨c, _, by rw [printItems, ht, List.cons_append]; exact nofun, hc⟩

theorem printMembers_head (k : Str) (j : Tree) (ms : List (Str × Tree)) :
    ∃ t, printMembers ((k, j) :: ms) = '"' :: t := by
  cases ms with
  | nil => exact ⟨_, rfl⟩
  | cons m ms => exact ⟨_, rfl⟩

theorem readValue_arr {c : Char} {t : Str} (n : Nat) (hc : c ≠ ']') :
    readValue (n + 1) ('[' :: c :: t) = (readItems n (c :: t)).map fun p => (.arr p.1, p.2) := by
  rw [readValue]
  simpa using hc

theorem readValue_obj {t : Str} (n : Nat) :
    readValue (n + 1) ('{' :: '"' :: t) = (readMembers n ('"' :: t)).map fun p => (.obj p.1, p.2) := by
  rw [readValue]
  simp

def ReadsValue (n : Nat) : Prop := ∀ (j : Tree) (r : Str), size j ≤ n → NoNumberHead r →
  readValue n (print j ++ r) = some (j, r)

def ReadsItems (n : Nat) : Prop := ∀ (j : Tree) (js : List Tree) (r : Str),
  sizeItems (j :: js) ≤ n → readItems n (printItems (j :: js) ++ ']' :: r) = some (j :: js, r)

def ReadsMembers (n : Nat) : Prop := ∀ (k : Str) (j : Tree) (ms : List (Str × Tree)) (r : Str),
  sizeMembers ((k, j) :: ms) ≤ n →
    readMembers n (printMembers ((k, j) :: ms) ++ '}' :: r) = some ((k, j) :: ms, r)

theorem size_pos (j : Tree) : 0 < size j := by
  cases j <;> simp only [size] <;> omega

variable {n : Nat}

theorem readsValue_succ (hi : ReadsItems n) (hm : ReadsMembers n) : ReadsValue (n + 1) := by
  intro j r hn hr
  cases j with
  | null => exact (readValue_literal n (by decide) (by decide) (by decide)).trans rfl
  | bool b => cases b <;> exact (readValue_literal n (by decide) (by decide) (by decide)).trans rfl
  | num m =>
    obtain ⟨c, t, ht, hc⟩ := m.exists_head
    obtain ⟨-, -, -, hq, ha, ho, -⟩ := ne_of_isNumberChar hc
    have hread := readLiteral_number m hr
    rw [ht, List.cons_append] at hread
    rw [print, ht, List.cons_append, readValue_literal n hq ha ho, hread]
  | str s =>
    rw [print, quoted_append, readValue, readString_flatMap]
    rfl
  | arr items =>
    cases items with
    | nil => rfl
    | cons j js =>
      obtain ⟨c, t, ht, hc⟩ := printItems_head j js
      have hread := hi j js r (by rw [size] at hn; omega)
      rw [ht] at hread
      rw [print, ht, List.cons_append, List.cons_append, List.append_assoc, List.singleton_append,
        List.cons_append, readValue_arr n hc]
      rw [List.cons_append] at hread
      rw [hread]
      rfl
  | obj members =>
    cases members with
    | nil => rfl
    | cons m ms =>
      obtain ⟨k, j⟩ := m
      obtain ⟨t, ht⟩ := printMembers_head k j ms
      have hread := hm k j ms r (by rw [size] at hn; omega)
      rw [ht, List.cons_append] at hread
      rw [print, ht, List.cons_append, List.cons_append, List.append_assoc, List.singleton_append,
        List.cons_append, readValue_obj, hread]
      rfl

theorem readsItems_succ (hv : ReadsValue n) (hi : ReadsItems n) : ReadsItems (n + 1) := by
  intro j js r hn
  rw [sizeItems] at hn
  cases js with
  | nil =>
    rw [printItems, readItems, hv j (']' :: r) (by omega) (noNumberHead_cons (by decide))]
    rfl
  | cons j' js =>
    have hrest := hi j' js r (by omega)
    rw [printItems, List.append_assoc, List.cons_append, readItems,
      hv j _ (by omega) (noNumberHead_cons (by decide))]
    · simp only [hrest]
      rfl
    · exact nofun

theorem readsMembers_succ (hv : ReadsValue n) (hm : ReadsMembers n) : ReadsMembers (n + 1) := by
  intro k j ms r hn
  rw [sizeMembers] at hn
  cases ms with
  | nil =>
    rw [printMembers, List.append_assoc, quoted_append, readMembers, List.cons_append,
      readString_flatMap]
    simp only [hv j ('}' :: r) (by omega) (noNumberHead_cons (by decide))]
  | cons m ms =>
    obtain ⟨k', j'⟩ := m
    have hrest := hm k' j' ms r (by omega)
    have hvalue := hv j (',' :: (printMembers ((k', j') :: ms) ++ '}' :: r)) (by omega)
      (noNumberHead_cons (by decide))
    rw [printMembers, List.append_assoc, List.append_assoc, quoted_append, readMembers,
      List.cons_append, readString_flatMap]
    · simp only [List.cons_append, hvalue, hrest]
      rfl
    · exact nofun

theorem reads_print (n : Nat) : ReadsValue n ∧ ReadsItems n ∧ ReadsMembers n := by
  induction n with
  | zero =>
    refine ⟨fun j r hn => ?_, fun j js r hn => ?_, fun k j ms r hn => ?_⟩
    · exact absurd hn (Nat.not_le_of_lt (size_pos j))
    · rw [sizeItems] at hn
      omega
    · rw [sizeMembers] at hn
      omega
  | succ n ih =>
    obtain ⟨hv, hi, hm⟩ := ih
    exact ⟨readsValue_succ hi hm, readsItems_succ hv hi, readsMembers_succ hv hm⟩

mutual

theorem size_le : ∀ j : Tree, size j ≤ 2 * (print j).length
  | .null => by decide
  | .bool true => by decide
  | .bool false => by decide
  | .num n => by
    obtain ⟨c, t, ht, -⟩ := n.exists_head
    rw [size, print, ht, List.length_cons]
    omega
  | .str s => by
    rw [size, print, quoted, List.length_append, List.length_cons]
    omega
  | .arr items => by
    have h := sizeItems_le items
    rw [size, print, List.length_append, List.length_cons, List.length_singleton]
    omega
  | .obj members => by
    have h := sizeMembers_le members
    rw [size, print, List.length_append, List.length_cons, List.length_singleton]
    omega

theorem sizeItems_le : ∀ items : List Tree, sizeItems items ≤ 2 * (printItems items).length + 1
  | [] => by decide
  | [j] => by
    have h := size_le j
    rw [sizeItems, sizeItems, printItems]
    omega
  | j :: j' :: js => by
    have h := size_le j
    have hs := sizeItems_le (j' :: js)
    rw [sizeItems, printItems, List.length_append, List.length_cons]
    · omega
    · exact nofun

theorem sizeMembers_le : ∀ members : List (Str × Tree),
    sizeMembers members ≤ 2 * (printMembers members).length + 1
  | [] => by decide
  | [(k, j)] => by
    have h := size_le j
    rw [sizeMembers, sizeMembers, printMembers, List.length_append, List.length_cons]
    omega
  | (k, j) :: (k', j') :: ms => by
    have h := size_le j
    have hs := sizeMembers_le ((k', j') :: ms)
    rw [sizeMembers, printMembers, List.length_append, List.length_append, List.length_cons,
      List.length_cons]
    · omega
    · exact nofun

end

theorem read_print (j : Tree) : read (print j) = some j := by
  have hsize := size_le j
  have hread := (reads_print (2 * (print j).length + 1)).1 j [] (by omega) nofun
  rw [List.append_nil] at hread
  rw [read, hread]

end RoundTrip

example : print (.obj [("a\n".toList, .arr [.num (.ofInt (-40)), .null]), ([], .bool true)]) =
    ['{'] ++ "\"a\\n\":[-40,null],\"\":true".toList ++ ['}'] := by
  decide +kernel

end TptTelemetry.Lib.Json
