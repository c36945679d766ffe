import TptTelemetry.Lib.Text

namespace TptTelemetry.Lib.Rust

open TptTelemetry.Lib.Text

/-- `char::escape_debug` as the `Debug` of a `str` uses it. Which characters
are printable is a table of the standard library. -/
def escapeDebug (printable : Char → Bool) (c : Char) : Str :=
  if c = '\x00' then ['\\', '0']
  else if c = '\t' then ['\\', 't']
  else if c = '\r' then ['\\', 'r']
  else if c = '\n' then ['\\', 'n']
  else if c = '\\' then ['\\', '\\']
  else if c = '"' then ['\\', '"']
  else if printable c then [c]
  else ['\\', 'u', '{'] ++ Nat.toDigits 16 c.toNat ++ ['}']

def debug (printable : Char → Bool) (s : Str) : Str :=
  '"' :: s.flatMap (escapeDebug printable) ++ ['"']

section Lexer

inductive Token
  | ident (name : Str)
  | str (value : Str)
  | punct (c : Char)
  | bad
  deriving DecidableEq, Repr

inductive Mode
  | start
  | ident (name : Str)
  | slash
  | comment
  | str (value : Str)
  | escape (value : Str)
  | unicode (value : Str)
  | hex (value : Str) (n : Nat)
  deriving DecidableEq, Repr

def isIdent (c : Char) : Bool := c.isAlphanum || c = '_'

def startStep (c : Char) : List Token × Mode :=
  if c = ' ' ∨ c = '\n' then ([], .start)
  else if isIdent c then ([], .ident [c])
  else if c = '"' then ([], .str [])
  else if c = '/' then ([], .slash)
  else ([.punct c], .start)

def unescape (c : Char) : Option Char :=
  if c = '0' then some '\x00'
  else if c = 't' then some '\t'
  else if c = 'r' then some '\r'
  else if c = 'n' then some '\n'
  else if c = '\\' then some '\\'
  else if c = '"' then some '"'
  else if c = '\'' then some '\''
  else none

def hexValue (c : Char) : Option Nat :=
  if '0' ≤ c ∧ c ≤ '9' then some (c.toNat - '0'.toNat)
  else if 'a' ≤ c ∧ c ≤ 'f' then some (c.toNat - 'a'.toNat + 10)
  else if 'A' ≤ c ∧ c ≤ 'F' then some (c.toNat - 'A'.toNat + 10)
  else none

def step : Mode → Char → List Token × Mode
  | .start, c => startStep c
  | .ident name, c =>
    if isIdent c then ([], .ident (name ++ [c]))
    else (.ident name :: (startStep c).1, (startStep c).2)
  | .slash, c =>
    if c = '/' then ([], .comment) else (.punct '/' :: (startStep c).1, (startStep c).2)
  | .comment, c => ([], if c = '\n' then .start else .comment)
  | .str value, c =>
    if c = '"' then ([.str value], .start)
    else if c = '\\' then ([], .escape value)
    else ([], .str (value ++ [c]))
  | .escape value, c =>
    if c = 'u' then ([], .unicode value)
    else
      match unescape c with
      | some d => ([], .str (value ++ [d]))
      | none => ([.bad], .start)
  | .unicode value, c => if c = '{' then ([], .hex value 0) else ([.bad], .start)
  | .hex value n, c =>
    if c = '}' then
      if n.isValidChar then ([], .str (value ++ [Char.ofNat n])) else ([.bad], .start)
    else
      match hexValue c with
      | some d => ([], .hex value (16 * n + d))
      | none => ([.bad], .start)

def scan : Mode → Str → List Token × Mode
  | m, [] => ([], m)
  | m, c :: s => ((step m c).1 ++ (scan (step m c).2 s).1, (scan (step m c).2 s).2)

theorem scan_append (m : Mode) (s t : Str) :
    scan m (s ++ t) =
      ((scan m s).1 ++ (scan (scan m s).2 t).1, (scan (scan m s).2 t).2) := by
  induction s generalizing m with
  | nil => rfl
  | cons c s ih => simp only [List.cons_append, scan, ih, List.append_assoc]

theorem scan_append_of {m m' m'' : Mode} {s t : Str} {ts us : List Token}
    (hs : scan m s = (ts, m')) (ht : scan m' t = (us, m'')) :
    scan m (s ++ t) = (ts ++ us, m'') := by
  rw [scan_append, hs, ht]

/-- The text is the given tokens, with no token cut at either end. -/
structure Lexes (s : Str) (ts : List Token) : Prop where
  scan_eq : scan .start s = (ts, .start)

instance (s : Str) (ts : List Token) : Decidable (Lexes s ts) :=
  decidable_of_iff (scan .start s = (ts, .start)) ⟨Lexes.mk, Lexes.scan_eq⟩

theorem Lexes.append {s t : Str} {ts us : List Token} (hs : Lexes s ts) (ht : Lexes t us) :
    Lexes (s ++ t) (ts ++ us) := ⟨scan_append_of hs.scan_eq ht.scan_eq⟩

theorem Lexes.flatMap {α : Type} {f : α → Str} {g : α → List Token} (h : ∀ x, Lexes (f x) (g x))
    (xs : List α) : Lexes (xs.flatMap f) (xs.flatMap g) := by
  induction xs with
  | nil => exact ⟨rfl⟩
  | cons x xs ih => exact (h x).append ih

theorem hexValue_digitChar (d : Fin 16) : hexValue (Nat.digitChar d) = some d.val := by
  revert d
  decide

theorem step_hex (value : Str) (k : Nat) {d : Nat} (hd : d < 16) :
    step (.hex value k) d.digitChar = ([], .hex value (16 * k + d)) := by
  have hv : hexValue d.digitChar = some d := hexValue_digitChar ⟨d, hd⟩
  have hne : d.digitChar ≠ '}' := by
    intro h
    rw [h] at hv
    cases hv
  simp only [step, hne, if_false, hv]

theorem scan_hex (value : Str) (n : Nat) :
    scan (.hex value 0) (Nat.toDigits 16 n) = ([], .hex value n) := by
  induction n using Nat.strongRecOn with
  | _ n ih =>
    by_cases hn : n < 16
    · rw [Nat.toDigits_of_lt_base hn, scan, scan, step_hex value 0 hn, Nat.mul_zero, Nat.zero_add]
      rfl
    · have hlt : n / 16 < n := Nat.div_lt_self (by omega) (by decide)
      have hmod : n % 16 < 16 := Nat.mod_lt n (by decide)
      rw [Nat.toDigits_of_base_le (by decide) (Nat.le_of_not_lt hn), scan_append, ih _ hlt, scan,
        scan, step_hex value _ hmod, Nat.div_add_mod]
      rfl

theorem scan_escapeDebug (printable : Char → Bool) (value : Str) (c : Char) :
    scan (.str value) (escapeDebug printable c) = ([], .str (value ++ [c])) := by
  rw [escapeDebug]
  split_ifs with h0 ht hr hn hb hq hp
  · rw [h0]
    rfl
  · rw [ht]
    rfl
  · rw [hr]
    rfl
  · rw [hn]
    rfl
  · rw [hb]
    rfl
  · rw [hq]
    rfl
  · simp only [scan, step, hq, hb, if_false, List.append_nil]
  · have hopen : scan (.str value) ['\\', 'u', '{'] = ([], .hex value 0) := rfl
    have hclose : scan (.hex value c.toNat) ['}'] = ([], .str (value ++ [c])) := by
      have hv : c.toNat.isValidChar := c.valid
      simp only [scan, step, if_true, hv, Char.ofNat_toNat, List.append_nil]
    exact scan_append_of (scan_append_of hopen (scan_hex value c.toNat)) hclose

theorem scan_escaped (printable : Char → Bool) (value s : Str) :
    scan (.str value) (s.flatMap (escapeDebug printable)) = ([], .str (value ++ s)) := by
  induction s generalizing value with
  | nil =>
    rw [List.append_nil]
    rfl
  | cons c s ih =>
    rw [List.append_cons]
    exact scan_append_of (scan_escapeDebug printable value c) (ih (value ++ [c]))

/-- Reading the literal undoes the escaping. -/
theorem lexes_debug (printable : Char → Bool) (s : Str) : Lexes (debug printable s) [.str s] := by
  have hopen : scan .start ['"'] = ([], .str []) := rfl
  have hclose : scan (.str s) ['"'] = ([.str s], .start) := rfl
  exact ⟨scan_append_of (scan_append_of hopen (scan_escaped printable [] s)) hclose⟩

end Lexer

section Readers

variable {α : Type} {item : List Token → Option (α × List Token)}

def kw (name : String) : Token := .ident name.toList

def sym (c : Char) : Token := .punct c

def expect : List Token → List Token → Option (List Token)
  | [], us => some us
  | _ :: _, [] => none
  | t :: ts, u :: us => if t = u then expect ts us else none

theorem expect_append (ts us : List Token) : expect ts (ts ++ us) = some us := by
  induction ts with
  | nil => rfl
  | cons t ts ih => rw [List.cons_append, expect, if_pos rfl, ih]

def readString : List Token → Option (Str × List Token)
  | .str s :: ts => do
    let ts ← expect [sym '.', kw "to_string", sym '(', sym ')'] ts
    some (s, ts)
  | _ => none

def readItems (item : List Token → Option (α × List Token)) :
    Nat → List Token → Option (List α × List Token)
  | 0, _ => none
  | fuel + 1, ts =>
    match expect [sym ']'] ts with
    | some ts => some ([], ts)
    | none => do
      let (x, ts) ← item ts
      match expect [sym ','] ts with
      | some ts =>
        let (xs, ts) ← readItems item fuel ts
        some (x :: xs, ts)
      | none =>
        let ts ← expect [sym ']'] ts
        some ([x], ts)

def vecOpen : List Token := [kw "vec", sym '!', sym '[']

def readVec (item : List Token → Option (α × List Token)) (ts : List Token) :
    Option (List α × List Token) := do
  let ts ← expect vecOpen ts
  readItems item ts.length ts

/-- The tokens are read as the value, whatever follows them. -/
def Reads (item : List Token → Option (α × List Token)) (ts : List Token) (x : α) : Prop :=
  ∀ rest, item (ts ++ rest) = some (x, rest)

theorem reads_string (s : Str) :
    Reads readString [.str s, sym '.', kw "to_string", sym '(', sym ')'] s := fun _ => rfl

theorem readItems_flatMap {f : α → List Token} (hr : ∀ x, Reads item (f x) x)
    (hf : ∀ x rest, expect [sym ']'] (f x ++ rest) = none) (xs : List α) (rest : List Token)
    {fuel : Nat} (hfuel : xs.length < fuel) :
    readItems item fuel (xs.flatMap (fun x => f x ++ [sym ',']) ++ sym ']' :: rest) =
      some (xs, rest) := by
  induction xs generalizing fuel with
  | nil =>
    obtain ⟨fuel, rfl⟩ := Nat.exists_eq_add_of_lt hfuel
    rfl
  | cons x xs ih =>
    obtain ⟨fuel, rfl⟩ := Nat.exists_eq_add_of_lt hfuel
    have hcomma : ∀ ts, expect [sym ','] (sym ',' :: ts) = some ts := fun _ => rfl
    rw [List.flatMap_cons, List.append_assoc, List.append_assoc, List.singleton_append, readItems,
      hf, hr]
    simp only [Option.bind_eq_bind, Option.bind_some, hcomma]
    rw [ih (by simp; omega)]
    rfl

theorem reads_vec {f : α → List Token} (hr : ∀ x, Reads item (f x) x)
    (hf : ∀ x rest, expect [sym ']'] (f x ++ rest) = none) (xs : List α) :
    Reads (readVec item)
      (vecOpen ++ xs.flatMap (fun x => f x ++ [sym ',']) ++ [sym ']']) xs := by
  intro rest
  have hlen : ∀ ys : List α, ys.length ≤ (ys.flatMap (fun x => f x ++ [sym ','])).length := by
    intro ys
    induction ys with
    | nil => exact Nat.zero_le _
    | cons y ys ih =>
      rw [List.flatMap_cons, List.length_append, List.length_append, List.length_cons]
      simp only [List.length_singleton]
      omega
  rw [readVec, List.append_assoc, List.append_assoc, expect_append]
  simp only [Option.bind_eq_bind, Option.bind_some]
  apply readItems_flatMap hr hf xs rest
  rw [List.length_append]
  simp only [List.singleton_append, List.length_cons]
  have h := hlen xs
  omega

end Readers

end TptTelemetry.Lib.Rust
