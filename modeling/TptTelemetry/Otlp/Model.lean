import TptTelemetry.Compiler.Typed

namespace TptTelemetry.Otlp.Model

open TptTelemetry.Lib.Text TptTelemetry.Lib.Numeral
open TptTelemetry.Compiler.Scalar TptTelemetry.Compiler.Typed

/-- A one-of: as built by the constructors below, exactly one part is there. A
double is given by its bits. -/
structure AnyValue where
  stringValue : Option Str
  boolValue : Option Bool
  intValue : Option Int64
  doubleValue : Option UInt64
  deriving DecidableEq, Repr

def AnyValue.default : AnyValue := ⟨none, none, none, none⟩

def AnyValue.string (s : Str) : AnyValue := { AnyValue.default with stringValue := some s }

def AnyValue.int (v : Int64) : AnyValue := { AnyValue.default with intValue := some v }

def AnyValue.bool (v : Bool) : AnyValue := { AnyValue.default with boolValue := some v }

def AnyValue.double (v : UInt64) : AnyValue := { AnyValue.default with doubleValue := some v }

structure KeyValue where
  key : Str
  value : AnyValue
  deriving DecidableEq, Repr

/-- The timestamps are nanoseconds since the Unix epoch, as decimal text. -/
structure LogRecord where
  timeUnixNano : Str
  observedTimeUnixNano : Option Str
  severityNumber : Option UInt32
  severityText : Option Str
  body : Option AnyValue
  attributes : List KeyValue
  deriving DecidableEq, Repr

structure Scope where
  name : Str
  version : Option Str
  deriving DecidableEq, Repr

structure ScopeLogs where
  scope : Option Scope
  logRecords : List LogRecord
  deriving DecidableEq, Repr

structure Resource where
  attributes : List KeyValue
  deriving DecidableEq, Repr

structure ResourceLogs where
  resource : Option Resource
  scopeLogs : List ScopeLogs
  deriving DecidableEq, Repr

structure LogsPayload where
  resourceLogs : List ResourceLogs
  deriving DecidableEq, Repr

/-- Two lower-case hexadecimal digits a byte. -/
def fmtMac (m : MacAddr) : Str :=
  [':'].intercalate (m.bytes.map (fun b => (Nat.toDigits 16 b.toNat).leftpad 2 '0'))

/-- The cast `u as i64` keeps the bits. -/
def valueToAny : Value → AnyValue
  | .str s => .string s
  | .ownedString s => .string s
  | .int i => .int i
  | .uint u => .int u.toInt64
  | .float f => .double f
  | .bool b => .bool b
  | .enum idx => .int (Int64.ofNat idx.toNat)
  | .timestamp ts => .int ts
  | .ip ip => .string ip.display
  | .ipv4 a => .string a.display
  | .ipv6 a => .string a.display
  | .mac m => .string (fmtMac m)

def severityInfo : UInt32 := 9

def severityOfEnum (idx : UInt8) : UInt32 :=
  if idx ≤ 1 then 17
  else if idx ≤ 3 then 17
  else if idx = 4 then 13
  else if idx = 5 then 11
  else if idx = 6 then 9
  else 7

def severityOfInt (i : Int64) : UInt32 :=
  if 0 ≤ i ∧ i ≤ 3 then 17
  else if i = 4 then 13
  else if i = 5 ∨ i = 6 then 9
  else 7

def severityOf : Value → UInt32
  | .enum idx => severityOfEnum idx
  | .int i => severityOfInt i
  | _ => severityInfo

/-- The clock gives the nanoseconds since the Unix epoch, or nothing when it is
set before it. The cast to `u64` keeps them modulo `2 ^ 64`. -/
def recordToLogRecord (clock : Option Nat) (rec : Record) : LogRecord :=
  let now : UInt64 := (clock.map UInt64.ofNat).getD 0
  let body := ((rec.fields.find? (fun f => f.name = "message".toList)).map
    (fun f => valueToAny f.value)).getD (.string rec.format)
  let severity := ((rec.fields.find? (fun f => f.name = "severity".toList)).map
    (fun f => severityOf f.value)).getD severityInfo
  { timeUnixNano := decimal now.toNat
    observedTimeUnixNano := none
    severityNumber := some severity
    severityText := none
    body := some body
    attributes := rec.fields.map (fun f => ⟨f.name, valueToAny f.value⟩) }

/-- The clock is read once a record. The version is that of the package. -/
def recordsToPayload (clock : Nat → Option Nat) (records : List Record) (scopeName : Str) :
    LogsPayload :=
  let logRecords := records.mapIdx (fun i rec => recordToLogRecord (clock i) rec)
  if logRecords.isEmpty then ⟨[]⟩
  else
    ⟨[⟨some ⟨[⟨"service.name".toList, .string "tpt-telemetry".toList⟩]⟩,
      [⟨some ⟨scopeName, some "0.1.0".toList⟩, logRecords⟩]⟩]⟩

example : valueToAny (.mac ⟨[0, 0x1b, 0x44, 0x11, 0x3a, 0xb7], rfl⟩) =
    .string "00:1b:44:11:3a:b7".toList := by
  decide +kernel

end TptTelemetry.Otlp.Model
