import TptTelemetry.Dsl.Ast
import TptTelemetry.Lib.Float
import TptTelemetry.Lib.Net

namespace TptTelemetry.Compiler.Scalar

open TptTelemetry.Lib TptTelemetry.Lib.Text TptTelemetry.Lib.Numeral
open TptTelemetry.Dsl.Ast

/-- What the compiler uses of the crate `chrono`: each parser gives the Unix
seconds and the nanoseconds within the second. -/
structure Chrono where
  parseFromRfc3339 : Str → Option (Int64 × UInt32)
  parseFromStr : Str → Str → Option (Int64 × UInt32)

def noTimestamps : Chrono := ⟨fun _ => none, fun _ _ => none⟩

structure MacAddr where
  bytes : List UInt8
  length_eq : bytes.length = 6
  deriving DecidableEq, Repr

def macLoop : List Str → List UInt8 → Option MacAddr
  | [], out => if h : out.length = 6 then some ⟨out, h⟩ else none
  | part :: parts, out =>
    if 6 ≤ out.length ∨ byteLen part ≠ 2 then none
    else (parseUnsigned 16 256 part).bind (fun b => macLoop parts (out ++ [UInt8.ofNat b]))

/-- The cast `c as u8` keeps the low byte of the character, so that some
characters beyond ASCII separate as well. -/
def parseMac (s : Str) : Option MacAddr :=
  let sep := if ':' ∈ s then ':' else '-'
  macLoop (s.splitOnP (fun c => c.toNat % 256 = sep.toNat)) []

def timestampFormats : List Str :=
  ["%Y-%m-%d %H:%M:%S".toList, "%Y-%m-%dT%H:%M:%S".toList, "%Y-%m-%d".toList]

def parseTimestamp (C : Chrono) (s : Str) : Option (Int64 × UInt32) :=
  (C.parseFromRfc3339 s).or (timestampFormats.findSome? (C.parseFromStr s))

def parseInt (s : Str) : Option Int64 := (parseSigned (2 ^ 63) s).map Int64.ofInt

def parseUint (s : Str) : Option UInt64 := (parseUnsigned 10 (2 ^ 64) s).map UInt64.ofNat

def lowercase (s : Str) : Str := s.map Char.toLower

/-- Does the text satisfy the scalar type? The empty text never does. -/
def typeMatches (C : Chrono) (ty : TypeName) (sub : Str) : Bool :=
  if sub = [] then false
  else
    match ty with
    | .int => (parseInt sub).isSome
    | .uint => (parseUint sub).isSome
    | .float => (Float.parseFloat sub).isSome
    | .bool => lowercase sub ∈ ["true".toList, "false".toList, "1".toList, "0".toList]
    | .string => true
    | .ipv4 => (Net.parseIpv4 sub).isSome
    | .ipv6 => (Net.parseIpv6 sub).isSome
    | .ip => (Net.parseIp sub).isSome
    | .mac => (parseMac sub).isSome
    | .timestamp => (parseTimestamp C sub).isSome

@[simp]
theorem typeMatches_nil (C : Chrono) (ty : TypeName) : typeMatches C ty [] = false := by
  simp [typeMatches]

/-- The texts a capture may take: those of its type, and for strings also the
empty text. -/
def Accepts (C : Chrono) (ty : TypeName) (t : Str) : Prop :=
  typeMatches C ty t = true ∨ (t = [] ∧ ty = .string)

theorem accepts_of_ne_nil {C : Chrono} {ty : TypeName} {t : Str} (ht : t ≠ []) :
    Accepts C ty t ↔ typeMatches C ty t = true := by
  simp [Accepts, ht]

theorem accepts_nil {C : Chrono} {ty : TypeName} : Accepts C ty [] ↔ ty = .string := by
  simp [Accepts]

end TptTelemetry.Compiler.Scalar
