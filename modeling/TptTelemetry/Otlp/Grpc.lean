import TptTelemetry.Lib.Traverse
import TptTelemetry.Otlp.Model

namespace TptTelemetry.Otlp.Grpc

open TptTelemetry.Lib.Text TptTelemetry.Lib.Numeral TptTelemetry.Lib.Traverse
open TptTelemetry.Compiler.Scalar TptTelemetry.Compiler.Typed TptTelemetry.Otlp.Model

inductive OtlpError
  | serialize (message : Str)
  | transport (message : Str)
  | grpcFeatureDisabled
  | retriesExhausted (retries : Nat) (message : Str)
  | insecureTransport (message : Str)
  | invalidTimestamp (text : Str)
  deriving DecidableEq, Repr

/-- The variants of the protobuf one-of that the conversion makes. -/
inductive PlAnyValue
  | stringValue (s : Str)
  | boolValue (b : Bool)
  | intValue (i : Int64)
  | doubleValue (bits : UInt64)
  deriving DecidableEq, Repr

/-- The messages of the crate `opentelemetry-proto`, with the fields that the
conversion sets. The others keep their protobuf defaults. -/
structure PlAny where
  value : Option PlAnyValue
  deriving DecidableEq, Repr

structure PlKv where
  key : Str
  value : Option PlAny
  deriving DecidableEq, Repr

structure PlLr where
  timeUnixNano : UInt64
  observedTimeUnixNano : UInt64
  severityNumber : Int32
  severityText : Str
  body : Option PlAny
  attributes : List PlKv
  deriving DecidableEq, Repr

structure InstrumentationScope where
  name : Str
  version : Str
  deriving DecidableEq, Repr

structure PlSl where
  scope : Option InstrumentationScope
  logRecords : List PlLr
  deriving DecidableEq, Repr

structure PlResource where
  attributes : List PlKv
  deriving DecidableEq, Repr

structure PlRl where
  resource : Option PlResource
  scopeLogs : List PlSl
  deriving DecidableEq, Repr

structure ExportLogsServiceRequest where
  resourceLogs : List PlRl
  deriving DecidableEq, Repr

def anyToProto (a : AnyValue) : PlAny :=
  let v :=
    if let some s := a.stringValue then PlAnyValue.stringValue s
    else if let some i := a.intValue then .intValue i
    else if let some b := a.boolValue then .boolValue b
    else if let some d := a.doubleValue then .doubleValue d
    else .stringValue []
  ⟨some v⟩

def kvToProto (kv : KeyValue) : PlKv := ⟨kv.key, some (anyToProto kv.value)⟩

def parseNanos (s : Str) : Except OtlpError UInt64 :=
  match parseUint s with
  | some n => .ok n
  | none => .error (.invalidTimestamp s)

def observedToProto : Option Str → Except OtlpError (Option UInt64)
  | some s => if s ≠ [] then (parseNanos s).map some else .ok none
  | none => .ok none

def lrToProto (lr : LogRecord) : Except OtlpError PlLr := do
  let timeUnixNano ← parseNanos lr.timeUnixNano
  let observedTimeUnixNano ← observedToProto lr.observedTimeUnixNano
  .ok
    { timeUnixNano
      observedTimeUnixNano := observedTimeUnixNano.getD 0
      severityNumber := (lr.severityNumber.getD 0).toInt32
      severityText := lr.severityText.getD []
      body := lr.body.map anyToProto
      attributes := lr.attributes.map kvToProto }

def scopeToProto (s : Scope) : InstrumentationScope := ⟨s.name, s.version.getD []⟩

def slToProto (sl : ScopeLogs) : Except OtlpError PlSl := do
  let logRecords ← sl.logRecords.mapM lrToProto
  .ok ⟨sl.scope.map scopeToProto, logRecords⟩

def resourceToProto (r : Resource) : PlResource := ⟨r.attributes.map kvToProto⟩

def rlToProto (rl : ResourceLogs) : Except OtlpError PlRl := do
  let scopeLogs ← rl.scopeLogs.mapM slToProto
  .ok ⟨rl.resource.map resourceToProto, scopeLogs⟩

def payloadToProto (p : LogsPayload) : Except OtlpError ExportLogsServiceRequest := do
  let resourceLogs ← p.resourceLogs.mapM rlToProto
  .ok ⟨resourceLogs⟩

def populated (a : AnyValue) : List PlAnyValue :=
  (a.stringValue.map .stringValue).toList ++ (a.boolValue.map .boolValue).toList ++
    (a.intValue.map .intValue).toList ++ (a.doubleValue.map .doubleValue).toList

/-- A value with one variant becomes that variant. -/
def AnyCopied (a : AnyValue) (p : PlAny) : Prop := ∀ v, populated a = [v] → p.value = some v

structure KvCopied (kv : KeyValue) (p : PlKv) : Prop where
  key : p.key = kv.key
  value : ∃ a, p.value = some a ∧ AnyCopied kv.value a

/-- An absent or empty time is the default, which is zero. -/
def ObservedCopied : Option Str → UInt64 → Prop
  | some s, n => if s = [] then n = 0 else parseUint s = some n
  | none, n => n = 0

structure LrCopied (lr : LogRecord) (p : PlLr) : Prop where
  time : parseUint lr.timeUnixNano = some p.timeUnixNano
  observed : ObservedCopied lr.observedTimeUnixNano p.observedTimeUnixNano
  severityNumber : (lr.severityNumber.getD 0).toNat < 2 ^ 31 →
    p.severityNumber.toInt = (lr.severityNumber.getD 0).toNat
  severityText : p.severityText = lr.severityText.getD []
  body : Option.Rel AnyCopied lr.body p.body
  attributes : List.Forall₂ KvCopied lr.attributes p.attributes

structure ScopeCopied (s : Scope) (p : InstrumentationScope) : Prop where
  name : p.name = s.name
  version : p.version = s.version.getD []

structure SlCopied (sl : ScopeLogs) (p : PlSl) : Prop where
  scope : Option.Rel ScopeCopied sl.scope p.scope
  logRecords : List.Forall₂ LrCopied sl.logRecords p.logRecords

def ResourceCopied (r : Resource) (p : PlResource) : Prop :=
  List.Forall₂ KvCopied r.attributes p.attributes

structure RlCopied (rl : ResourceLogs) (p : PlRl) : Prop where
  resource : Option.Rel ResourceCopied rl.resource p.resource
  scopeLogs : List.Forall₂ SlCopied rl.scopeLogs p.scopeLogs

def Copied (p : LogsPayload) (req : ExportLogsServiceRequest) : Prop :=
  List.Forall₂ RlCopied p.resourceLogs req.resourceLogs

def BadTimes (lr : LogRecord) : Prop :=
  parseUint lr.timeUnixNano = none ∨
    ∃ s, lr.observedTimeUnixNano = some s ∧ s ≠ [] ∧ parseUint s = none

theorem anyToProto_copied (a : AnyValue) : AnyCopied a (anyToProto a) := by
  obtain ⟨s, b, i, d⟩ := a
  intro v hv
  cases s <;> cases b <;> cases i <;> cases d <;> simp_all [populated, anyToProto]

theorem kvToProto_copied (kv : KeyValue) : KvCopied kv (kvToProto kv) :=
  ⟨rfl, anyToProto kv.value, rfl, anyToProto_copied kv.value⟩

theorem attributes_copied (kvs : List KeyValue) : List.Forall₂ KvCopied kvs (kvs.map kvToProto) :=
  List.forall₂_map_right_iff.mpr (List.forall₂_same.mpr (fun kv _ => kvToProto_copied kv))

theorem resourceToProto_copied (r : Resource) : ResourceCopied r (resourceToProto r) :=
  attributes_copied r.attributes

theorem scopeToProto_copied (s : Scope) : ScopeCopied s (scopeToProto s) := ⟨rfl, rfl⟩

theorem option_copied {β γ : Type} {R : β → γ → Prop} {f : β → γ} (h : ∀ x, R x (f x))
    (o : Option β) : Option.Rel R o (o.map f) := by
  cases o with
  | none => exact .none
  | some x => exact .some (h x)

theorem toInt_severity {n : UInt32} (hn : n.toNat < 2 ^ 31) : n.toInt32.toInt = n.toNat := by
  have h : n.toInt32 = Int32.ofNat n.toNat := by rw [← UInt32.toInt32_ofNat', UInt32.ofNat_toNat]
  rw [h, Int32.toInt_ofNat_of_lt hn]

def IsTimestamp (e : OtlpError) : Prop := ∃ text, e = .invalidTimestamp text

theorem parseNanos_checks :
    Checks IsTimestamp parseNanos (fun s => parseUint s = none) (fun s n => parseUint s = some n) := by
  constructor
  · intro s hs
    exact ⟨.invalidTimestamp s, by rw [parseNanos, hs], s, rfl⟩
  · intro s hs
    obtain ⟨n, hn⟩ := Option.ne_none_iff_exists'.mp hs
    exact ⟨n, by rw [parseNanos, hn], hn⟩

theorem observedToProto_checks :
    Checks IsTimestamp observedToProto (fun o => ∃ s, o = some s ∧ s ≠ [] ∧ parseUint s = none)
      (fun o n => ObservedCopied o (n.getD 0)) := by
  constructor
  · rintro o ⟨s, rfl, hne, hs⟩
    obtain ⟨e, he, hE⟩ := parseNanos_checks.fails s hs
    exact ⟨e, by rw [observedToProto, if_pos hne, he]; rfl, hE⟩
  · intro o ho
    cases o with
    | none => exact ⟨none, rfl, rfl⟩
    | some s =>
      by_cases hne : s = []
      · exact ⟨none, by simp [observedToProto, hne], by simp [ObservedCopied, hne]⟩
      · obtain ⟨n, hn, hparse⟩ := parseNanos_checks.gives s (fun hs => ho ⟨s, rfl, hne, hs⟩)
        refine ⟨some n, by rw [observedToProto, if_pos hne, hn]; rfl, ?_⟩
        rw [ObservedCopied, if_neg hne]
        exact hparse

theorem lrToProto_checks : Checks IsTimestamp lrToProto BadTimes LrCopied := by
  constructor
  · intro lr hbad
    by_cases htime : parseUint lr.timeUnixNano = none
    · obtain ⟨e, he, hE⟩ := parseNanos_checks.fails _ htime
      exact ⟨e, by rw [lrToProto, he]; rfl, hE⟩
    · obtain ⟨n, hn, -⟩ := parseNanos_checks.gives _ htime
      obtain ⟨e, he, hE⟩ := observedToProto_checks.fails _ (hbad.resolve_left htime)
      exact ⟨e, by rw [lrToProto, hn, he]; rfl, hE⟩
  · intro lr hgood
    obtain ⟨htime, hobs⟩ := not_or.mp hgood
    obtain ⟨n, hn, htime⟩ := parseNanos_checks.gives _ htime
    obtain ⟨o, ho, hobs⟩ := observedToProto_checks.gives _ hobs
    refine ⟨_, by rw [lrToProto, hn, ho]; rfl, ?_⟩
    exact ⟨htime, hobs, toInt_severity, rfl, option_copied anyToProto_copied lr.body,
      attributes_copied lr.attributes⟩

/-- Some log record at any depth has a time that is no number. -/
def BadPayload (p : LogsPayload) : Prop :=
  ∃ rl ∈ p.resourceLogs, ∃ sl ∈ rl.scopeLogs, ∃ lr ∈ sl.logRecords, BadTimes lr

theorem slToProto_checks :
    Checks IsTimestamp slToProto (fun sl => ∃ lr ∈ sl.logRecords, BadTimes lr) SlCopied :=
  lrToProto_checks.mapM.part ScopeLogs.logRecords (fun sl => PlSl.mk (sl.scope.map scopeToProto))
    (fun sl _ h => SlCopied.mk (option_copied scopeToProto_copied sl.scope) h)

theorem rlToProto_checks :
    Checks IsTimestamp rlToProto
      (fun rl => ∃ sl ∈ rl.scopeLogs, ∃ lr ∈ sl.logRecords, BadTimes lr) RlCopied :=
  slToProto_checks.mapM.part ResourceLogs.scopeLogs
    (fun rl => PlRl.mk (rl.resource.map resourceToProto))
    (fun rl _ h => RlCopied.mk (option_copied resourceToProto_copied rl.resource) h)

theorem payloadToProto_checks : Checks IsTimestamp payloadToProto BadPayload Copied :=
  rlToProto_checks.mapM.part LogsPayload.resourceLogs (fun _ => ExportLogsServiceRequest.mk)
    (S := Copied) (fun _ _ h => h)

theorem parseUint_decimal (n : UInt64) : parseUint (decimal n.toNat) = some n := by
  rw [parseUint, parseUnsigned_decimal n.toNat_lt, Option.map_some, UInt64.ofNat_toNat]

theorem recordToLogRecord_timed (clock : Option Nat) (rec : Record) :
    ¬ BadTimes (recordToLogRecord clock rec) := by
  rintro (h | ⟨s, hs, -⟩)
  · rw [recordToLogRecord, parseUint_decimal] at h
    cases h
  · cases hs

theorem recordsToPayload_timed (clock : Nat → Option Nat) (records : List Record) (scopeName : Str) :
    ¬ BadPayload (recordsToPayload clock records scopeName) := by
  rintro ⟨rl, hrl, sl, hsl, lr, hlr, hbad⟩
  rw [recordsToPayload] at hrl
  split at hrl
  · cases hrl
  · obtain rfl := List.mem_singleton.mp hrl
    obtain rfl := List.mem_singleton.mp hsl
    obtain ⟨i, hi, rfl⟩ := List.mem_mapIdx.mp hlr
    exact recordToLogRecord_timed _ _ hbad

/-- The conversion fails exactly on the payloads with a time that is no number,
and only with an error about it. It copies all others part by part, and among
them are all that are made from records. -/
theorem payloadToProto_faithful :
    (∀ p, ((∃ text, payloadToProto p = .error (.invalidTimestamp text)) ↔ BadPayload p) ∧
      (¬ BadPayload p → ∃ req, payloadToProto p = .ok req ∧ Copied p req)) ∧
      ∀ clock records scopeName,
        ∃ req, payloadToProto (recordsToPayload clock records scopeName) = .ok req := by
  refine ⟨fun p => ⟨?_, payloadToProto_checks.gives p⟩, fun clock records scopeName => ?_⟩
  · rw [← payloadToProto_checks.error_iff p]
    constructor
    · rintro ⟨text, h⟩
      exact ⟨_, h, text, rfl⟩
    · rintro ⟨e, h, text, rfl⟩
      exact ⟨text, h⟩
  · obtain ⟨req, hreq, -⟩ :=
      payloadToProto_checks.gives _ (recordsToPayload_timed clock records scopeName)
    exact ⟨req, hreq⟩

example : payloadToProto ⟨[⟨none, [⟨none, [⟨['1'], some ['x'], none, none, none, []⟩]⟩]⟩]⟩ =
    .error (.invalidTimestamp ['x']) := by
  decide +kernel
example : payloadToProto ⟨[⟨none, [⟨none, [⟨['7'], some [], some 9, none, some (.int 3), []⟩]⟩]⟩]⟩ =
    .ok ⟨[⟨none, [⟨none, [⟨7, 0, 9, [], some ⟨some (.intValue 3)⟩, []⟩]⟩]⟩]⟩ := by
  decide +kernel

end TptTelemetry.Otlp.Grpc
