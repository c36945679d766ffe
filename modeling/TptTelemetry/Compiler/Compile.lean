import TptTelemetry.Compiler.Scalar

namespace TptTelemetry.Compiler.Compile

open TptTelemetry.Lib.Text TptTelemetry.Dsl.Ast

inductive Seg
  | literal (l : Str)
  | capture (field : Str) (ty : TypeName)
  deriving DecidableEq, Repr

structure CompiledFormat where
  name : Str
  segments : List Seg
  coercions : List (Str × CoercionTarget)
  redactions : List (Str × RedactMode)
  deriving DecidableEq, Repr

structure CompiledSchema where
  formats : List CompiledFormat
  deriving DecidableEq, Repr

inductive CompileError
  | unsupportedGrok (name : Str)
  | unknownField (field format : Str)
  | unknownType (name : Str)
  | codegen (message : Str)
  deriving DecidableEq, Repr

def CompileError.display : CompileError → Str
  | .unsupportedGrok name =>
    "unsupported Grok pattern `".toList ++ name ++
      "` in zero-copy compiler (use a native `%\x7bfield:type\x7d` capture or `tpt-grok-engine`)".toList
  | .unknownField field format =>
    "coercion/redaction references unknown field `".toList ++ field ++ "` in format `".toList ++
      format ++ "`".toList
  | .unknownType name => "unknown scalar type `".toList ++ name ++ "`".toList
  | .codegen message => "codegen error: ".toList ++ message

def intNames : List String := ["INT", "NUMBER", "BASE10NUM"]

def uintNames : List String := ["POSINT", "NONNEGINT", "PORT", "BASE16NUM"]

def floatNames : List String := ["FLOAT", "BASE16FLOAT"]

def stringNames : List String :=
  ["WORD", "NOTSPACE", "DATA", "GREEDYDATA", "QS", "HOSTNAME", "USERNAME", "USER", "EMAILADDRESS",
    "SPACE"]

def timestampNames : List String :=
  ["MONTH", "MONTHDAY", "YEAR", "HOUR", "MINUTE", "SECOND", "TIME", "MONTHNUM", "MONTHNUM2",
    "ISO8601_SECOND"]

def grokNativeType (name : Str) : Option TypeName :=
  if name ∈ intNames.map String.toList then some .int
  else if name ∈ uintNames.map String.toList then some .uint
  else if name ∈ floatNames.map String.toList then some .float
  else if name = "IPV4".toList then some .ipv4
  else if name = "IPV6".toList then some .ipv6
  else if name = "IP".toList then some .ip
  else if name = "MAC".toList then some .mac
  else if name ∈ stringNames.map String.toList then some .string
  else if name ∈ timestampNames.map String.toList then some .timestamp
  else none

/-- A Grok capture takes the type written after it, unless that is the string
type, which also stands for no type at all. -/
def compileCapture (c : PatternCapture) : Except CompileError Seg :=
  if c.grok then
    if c.ty ≠ .string then .ok (.capture (c.field.getD c.name) c.ty)
    else
      match grokNativeType c.name with
      | some ty => .ok (.capture (c.field.getD c.name) ty)
      | none => .error (.unsupportedGrok c.name)
  else .ok (.capture c.name c.ty)

def compilePart : PatternPart → Except CompileError Seg
  | .literal s => .ok (.literal s)
  | .capture c => compileCapture c

def compileFormat (f : Format) : Except CompileError CompiledFormat := do
  let segments ← f.pattern.parts.mapM compilePart
  let coercions := f.coercions.map (fun c => (c.field, c.target))
  let redactions := f.redactions.map (fun r => (r.field, r.mode))
  .ok ⟨f.name, segments, coercions, redactions⟩

def compile (schema : Schema) : Except CompileError CompiledSchema := do
  let formats ← schema.formats.mapM compileFormat
  .ok ⟨formats⟩

theorem compilePart_error {part : PatternPart} {e : CompileError}
    (h : compilePart part = .error e) : ∃ name, e = .unsupportedGrok name := by
  cases part with
  | literal s => cases h
  | capture c =>
    rw [compilePart, compileCapture] at h
    split at h
    · split at h
      · cases h
      · split at h
        · cases h
        · cases h
          exact ⟨_, rfl⟩
    · cases h

theorem compile_error {schema : Schema} {e : CompileError} (h : compile schema = .error e) :
    ∃ name, e = .unsupportedGrok name := by
  obtain h | ⟨_, -, h⟩ := bind_eq_error.mp h
  · obtain ⟨f, -, h⟩ := mapM_error h
    obtain h | ⟨_, -, h⟩ := bind_eq_error.mp h
    · obtain ⟨part, -, h⟩ := mapM_error h
      exact compilePart_error h
    · cases h
  · cases h

end TptTelemetry.Compiler.Compile
