import TptTelemetry.Lib.Numeral

namespace TptTelemetry.Lib.Float

open TptTelemetry.Lib.Text TptTelemetry.Lib.Numeral

/-- The exponent behind `e`, with what follows it. It stops growing long
before it could overflow. -/
def parseScientific (s : Str) : Option (Int × Str) :=
  let (negative, s) : Bool × Str :=
    match s with
    | '-' :: r => (true, r)
    | '+' :: r => (false, r)
    | _ => (false, s)
  let (ds, rest) := s.span Char.isDigit
  if ds = [] then none
  else
    let e := ds.foldl (fun e c => if e < 0x10000 then 10 * e + (c.toNat - '0'.toNat) else e) 0
    some (if negative then -Int.ofNat e else Int.ofNat e, rest)

/-- A decimal number without its sign, as a mantissa and a power of ten. At
least one digit stands before or behind the dot. -/
def parseNumber (s : Str) : Option (Nat × Int) :=
  let (whole, s) := s.span Char.isDigit
  let (frac, s) : Str × Str :=
    match s with
    | '.' :: r => r.span Char.isDigit
    | _ => ([], s)
  let mantissa := Nat.ofDigitChars 10 (whole ++ frac) 0
  if whole = [] ∧ frac = [] then none
  else
    match s with
    | [] => some (mantissa, -Int.ofNat frac.length)
    | c :: r =>
      if c = 'e' ∨ c = 'E' then
        match parseScientific r with
        | some (e, []) => some (mantissa, e - Int.ofNat frac.length)
        | _ => none
      else none

def infinity : Nat := 0x7FF0000000000000

def nan : Nat := 0x7FF8000000000000

/-- The bits of the double nearest to `num / den`, ties to even. The quotient
is scaled by `2 ^ (-k)` to have 53 bits, or fewer at the least exponent. -/
def roundNearest (num den : Nat) : Nat :=
  let quotient (k : Int) : Nat × Nat := (num * 2 ^ (-k).toNat, den * 2 ^ k.toNat)
  let least : Int := max (-1074) (Int.ofNat num.log2 - Int.ofNat den.log2 - 53)
  let k := if (quotient least).1 / (quotient least).2 < 2 ^ 53 then least else least + 1
  let (n, d) := quotient k
  let q := n / d
  let r := n % d
  let q := if d < 2 * r ∨ (2 * r = d ∧ q % 2 = 1) then q + 1 else q
  if num = 0 then 0 else min ((k + 1074).toNat * 2 ^ 52 + q) infinity

/-- `f64::from_str`: the bits of the double. -/
def parseFloat (s : Str) : Option UInt64 :=
  let (negative, r) : Bool × Str :=
    match s with
    | '-' :: r => (true, r)
    | '+' :: r => (false, r)
    | _ => (false, s)
  let magnitude : Option Nat :=
    match parseNumber r with
    | some (m, e) => some (roundNearest (m * 10 ^ e.toNat) (10 ^ (-e).toNat))
    | none =>
      if r.map Char.toLower = "inf".toList ∨ r.map Char.toLower = "infinity".toList then
        some infinity
      else if r.map Char.toLower = "nan".toList then some nan
      else none
  magnitude.map (fun bits => UInt64.ofNat (if negative then 2 ^ 63 + bits else bits))

example : parseFloat "0.1".toList = some 0x3FB999999999999A := by decide +kernel
example : parseFloat "-2.5e-1".toList = some 0xBFD0000000000000 := by decide +kernel
example : parseFloat "1e309".toList = parseFloat "Inf".toList := by decide +kernel

end TptTelemetry.Lib.Float
