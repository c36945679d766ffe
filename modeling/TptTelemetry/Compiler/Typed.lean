import TptTelemetry.Compiler.Matcher

namespace TptTelemetry.Compiler.Typed

open TptTelemetry.Lib TptTelemetry.Lib.Text TptTelemetry.Lib.Numeral TptTelemetry.Dsl.Ast
open TptTelemetry.Compiler.Scalar TptTelemetry.Compiler.Compile TptTelemetry.Compiler.Matcher

/-- A typed field value. A `float` is given by its bits. -/
inductive Value
  | str (s : Str)
  | ownedString (s : Str)
  | int (n : Int64)
  | uint (n : UInt64)
  | float (bits : UInt64)
  | bool (b : Bool)
  | ipv4 (addr : Net.Ipv4Addr)
  | ipv6 (addr : Net.Ipv6Addr)
  | ip (addr : Net.IpAddr)
  | mac (addr : MacAddr)
  | timestamp (seconds : Int64)
  | enum (n : UInt8)
  deriving DecidableEq, Repr

structure TypedField where
  name : Str
  value : Value
  deriving DecidableEq, Repr

structure Record where
  format : Str
  fields : List TypedField
  deriving DecidableEq, Repr

/-- Coerce a text to a scalar type, keeping the text when it does not parse. A
boolean is always made, and is false for any text but three. -/
def coerceScalar (C : Chrono) (ty : TypeName) (raw : Str) : Value :=
  match ty with
  | .int => ((parseInt raw).map .int).getD (.str raw)
  | .uint => ((parseUint raw).map .uint).getD (.str raw)
  | .float => ((Float.parseFloat raw).map .float).getD (.str raw)
  | .bool => .bool (lowercase raw ∈ ["true".toList, "1".toList, "yes".toList])
  | .string => .str raw
  | .ipv4 => ((Net.parseIpv4 raw).map .ipv4).getD (.str raw)
  | .ipv6 => ((Net.parseIpv6 raw).map .ipv6).getD (.str raw)
  | .ip => ((Net.parseIp raw).map .ip).getD (.str raw)
  | .mac => ((parseMac raw).map .mac).getD (.str raw)
  | .timestamp => ((parseTimestamp C raw).map (fun p => .timestamp p.1)).getD (.str raw)

/-- The cast `n as u8` keeps the index modulo 256. -/
def coerceEnum (variants : List Str) (raw : Str) : Value :=
  match (parseUnsigned 10 (2 ^ 64) raw).filter (· < variants.length) with
  | some n => .enum (UInt8.ofNat n)
  | none =>
    match variants.findIdx? (fun v => lowercase v = lowercase raw) with
    | some idx => .enum (UInt8.ofNat idx)
    | none => .str raw

def coerceField (C : Chrono) (fmt : CompiledFormat) (name : Str) (declared : TypeName) (raw : Str) :
    Value :=
  match fmt.coercions.find? (fun c => c.1 = name) with
  | some (_, .type t) => coerceScalar C t raw
  | some (_, .enum variants) => coerceEnum variants raw
  | none => coerceScalar C declared raw

/-- The type of the last capture of that name: a later insertion into the map
replaces an earlier one. -/
def declaredType (segs : List Seg) (name : Str) : Option TypeName :=
  segs.foldl (fun found seg =>
    match seg with
    | .capture field ty => if field = name then some ty else found
    | .literal _ => found) none

/-- Keep the last two bytes, which must start at a character boundary. -/
def maskValue (s : Str) : Except Panic Str := do
  let keep := min (byteLen s) 2
  let masked := byteLen s - keep
  let tail ← sliceFrom s (byteLen s - keep)
  .ok (List.replicate masked '*' ++ tail)

def fnv1a (s : Str) : UInt64 :=
  (Utf8.encode s).foldl (fun hash b => (hash ^^^ b.toUInt64) * 0x100000001b3) 0xcbf29ce484222325

def hashValue (s : Str) : Str := (Nat.toDigits 16 (fnv1a s).toNat).leftpad 16 '0'

def redactText : RedactMode → Str → Except Panic Str
  | .mask, s => maskValue s
  | .hash, s => .ok (hashValue s)

def assignFirst (name : Str) (value : Value) : List TypedField → List TypedField
  | [] => []
  | tf :: fields =>
    if tf.name = name then ⟨tf.name, value⟩ :: fields else tf :: assignFirst name value fields

def firstText (raw : RawMatch) (name : Str) : Str :=
  ((raw.fields.find? (fun f => f.name = name)).map RawField.value).getD []

/-- One round of the redaction loop: only the first field of the name is
found. -/
def redactField (raw : RawMatch) (fields : List TypedField) (r : Str × RedactMode) :
    Except Panic (List TypedField) :=
  if r.1 ∈ fields.map TypedField.name then do
    let text ← redactText r.2 (firstText raw r.1)
    .ok (assignFirst r.1 (.ownedString text) fields)
  else .ok fields

def typedFields (C : Chrono) (fmt : CompiledFormat) (raw : RawMatch) : List TypedField :=
  raw.fields.map (fun f =>
    ⟨f.name, coerceField C fmt f.name ((declaredType fmt.segments f.name).getD .string) f.value⟩)

def buildRecord (C : Chrono) (fmt : CompiledFormat) (raw : RawMatch) : Except Panic Record := do
  let fields ← fmt.redactions.foldlM (redactField raw) (typedFields C fmt raw)
  .ok ⟨raw.format, fields⟩

def parse (C : Chrono) (fmt : CompiledFormat) (line : Str) : Except Panic (Option Record) := do
  match ← matchRaw C fmt line with
  | none => .ok none
  | some raw =>
    let record ← buildRecord C fmt raw
    .ok (some record)

def parseFormats (C : Chrono) (line : Str) : List CompiledFormat → Except Panic (Option Record)
  | [] => .ok none
  | fmt :: formats => do
    match ← parse C fmt line with
    | some record => .ok (some record)
    | none => parseFormats C line formats

def parseLine (C : Chrono) (cs : CompiledSchema) (line : Str) : Except Panic (Option Record) :=
  parseFormats C line cs.formats

end TptTelemetry.Compiler.Typed
