import TptTelemetry.Lib.JsonObject
import TptTelemetry.Lib.Utf8
import TptTelemetry.Otlp.Model

namespace TptTelemetry.Otlp.Json

open TptTelemetry.Lib TptTelemetry.Lib.Text TptTelemetry.Lib.Numeral TptTelemetry.Lib.Json
open TptTelemetry.Lib.JsonObject
open TptTelemetry.Lib.Utf8 TptTelemetry.Compiler.Typed TptTelemetry.Otlp.Model

section Write

/-- The exponent is not the one of the infinities and of NaN. -/
def isFinite (bits : UInt64) : Bool := decide (bits.toNat / 2 ^ 52 % 2 ^ 11 ≠ 2047)

def intToJson (v : Int64) : Tree := .num (.ofInt v.toInt)

def uintToJson (n : UInt32) : Tree := .num (.ofNat n.toNat)

variable (float : UInt64 → Number)

def floatToJson (bits : UInt64) : Tree := if isFinite bits then .num (float bits) else .null

/-- A field that is `None` is skipped. -/
def anyToJson (a : AnyValue) : Tree :=
  object [
    ("stringValue".toList, a.stringValue.map .str),
    ("boolValue".toList, a.boolValue.map .bool),
    ("intValue".toList, a.intValue.map intToJson),
    ("doubleValue".toList, a.doubleValue.map (floatToJson float))]

def kvToJson (kv : KeyValue) : Tree :=
  object [("key".toList, some (.str kv.key)), ("value".toList, some (anyToJson float kv.value))]

def attributesToJson (kvs : List KeyValue) : Tree := .arr (kvs.map (kvToJson float))

def lrToJson (lr : LogRecord) : Tree :=
  object [
    ("timeUnixNano".toList, some (.str lr.timeUnixNano)),
    ("observedTimeUnixNano".toList, lr.observedTimeUnixNano.map .str),
    ("severityNumber".toList, lr.severityNumber.map uintToJson),
    ("severityText".toList, lr.severityText.map .str),
    ("body".toList, lr.body.map (anyToJson float)),
    ("attributes".toList, some (attributesToJson float lr.attributes))]

def scopeToJson (s : Scope) : Tree :=
  object [("name".toList, some (.str s.name)), ("version".toList, s.version.map .str)]

def slToJson (sl : ScopeLogs) : Tree :=
  object [
    ("scope".toList, sl.scope.map scopeToJson),
    ("logRecords".toList, some (.arr (sl.logRecords.map (lrToJson float))))]

def resourceToJson (r : Resource) : Tree :=
  object [("attributes".toList, some (attributesToJson float r.attributes))]

def rlToJson (rl : ResourceLogs) : Tree :=
  object [
    ("resource".toList, rl.resource.map (resourceToJson float)),
    ("scopeLogs".toList, some (.arr (rl.scopeLogs.map (slToJson float))))]

def payloadToJson (p : LogsPayload) : Tree :=
  object [("resourceLogs".toList, some (.arr (p.resourceLogs.map (rlToJson float))))]

def toVec (p : LogsPayload) : Bytes := encode (print (payloadToJson float p))

end Write

section Read

variable (double : Number → Option UInt64)

def readStr : Tree → Option Str
  | .str s => some s
  | _ => none

def readBool : Tree → Option Bool
  | .bool b => some b
  | _ => none

def readInt : Tree → Option Int64
  | .num n => (parseSigned (2 ^ 63) n.text).map Int64.ofInt
  | _ => none

def readUint : Tree → Option UInt32
  | .num n => (parseUnsigned 10 (2 ^ 32) n.text).map UInt32.ofNat
  | _ => none

def readFloat : Tree → Option UInt64
  | .num n => double n
  | _ => none

/-- What a collector reads: the members it knows, whatever others there are. -/
def readAny : Tree → Option AnyValue := readObj fun ms => do
  let stringValue ← possible "stringValue".toList readStr ms
  let boolValue ← possible "boolValue".toList readBool ms
  let intValue ← possible "intValue".toList readInt ms
  let doubleValue ← possible "doubleValue".toList (readFloat double) ms
  some ⟨stringValue, boolValue, intValue, doubleValue⟩

def readKv : Tree → Option KeyValue := readObj fun ms => do
  let key ← required "key".toList readStr ms
  let value ← required "value".toList (readAny double) ms
  some ⟨key, value⟩

def readLr : Tree → Option LogRecord := readObj fun ms => do
  let timeUnixNano ← required "timeUnixNano".toList readStr ms
  let observedTimeUnixNano ← possible "observedTimeUnixNano".toList readStr ms
  let severityNumber ← possible "severityNumber".toList readUint ms
  let severityText ← possible "severityText".toList readStr ms
  let body ← possible "body".toList (readAny double) ms
  let attributes ← required "attributes".toList (readArr (readKv double)) ms
  some ⟨timeUnixNano, observedTimeUnixNano, severityNumber, severityText, body, attributes⟩

def readScope : Tree → Option Scope := readObj fun ms => do
  let name ← required "name".toList readStr ms
  let version ← possible "version".toList readStr ms
  some ⟨name, version⟩

def readSl : Tree → Option ScopeLogs := readObj fun ms => do
  let scope ← possible "scope".toList readScope ms
  let logRecords ← required "logRecords".toList (readArr (readLr double)) ms
  some ⟨scope, logRecords⟩

def readResource : Tree → Option Resource := readObj fun ms => do
  let attributes ← required "attributes".toList (readArr (readKv double)) ms
  some ⟨attributes⟩

def readRl : Tree → Option ResourceLogs := readObj fun ms => do
  let resource ← possible "resource".toList (readResource double) ms
  let scopeLogs ← required "scopeLogs".toList (readArr (readSl double)) ms
  some ⟨resource, scopeLogs⟩

def readPayload : Tree → Option LogsPayload := readObj fun ms => do
  let resourceLogs ← required "resourceLogs".toList (readArr (readRl double)) ms
  some ⟨resourceLogs⟩

def fromSlice (body : Bytes) : Option LogsPayload := do
  let text ← fromUtf8 body
  let tree ← read text
  readPayload double tree

end Read

section Sent

/-- What is left of a value: a double that is not finite is written as null,
and null is read as nothing. -/
def anySent (a : AnyValue) : AnyValue := { a with doubleValue := a.doubleValue.filter isFinite }

def kvSent (kv : KeyValue) : KeyValue := { kv with value := anySent kv.value }

def lrSent (lr : LogRecord) : LogRecord :=
  { lr with body := lr.body.map anySent, attributes := lr.attributes.map kvSent }

def slSent (sl : ScopeLogs) : ScopeLogs := { sl with logRecords := sl.logRecords.map lrSent }

def resourceSent (r : Resource) : Resource := ⟨r.attributes.map kvSent⟩

def rlSent (rl : ResourceLogs) : ResourceLogs :=
  ⟨rl.resource.map resourceSent, rl.scopeLogs.map slSent⟩

def payloadSent (p : LogsPayload) : LogsPayload := ⟨p.resourceLogs.map rlSent⟩

def attributesDoubles (kvs : List KeyValue) : List UInt64 :=
  kvs.flatMap fun kv => kv.value.doubleValue.toList

def lrDoubles (lr : LogRecord) : List UInt64 :=
  (lr.body.bind AnyValue.doubleValue).toList ++ attributesDoubles lr.attributes

def slDoubles (sl : ScopeLogs) : List UInt64 := sl.logRecords.flatMap lrDoubles

def rlDoubles (rl : ResourceLogs) : List UInt64 :=
  (rl.resource.map Resource.attributes).toList.flatMap attributesDoubles ++
    rl.scopeLogs.flatMap slDoubles

def payloadDoubles (p : LogsPayload) : List UInt64 := p.resourceLogs.flatMap rlDoubles

end Sent

section RoundTrip

theorem readInt_intToJson (v : Int64) : readInt (intToJson v) = some v := by
  have hle : -((2 ^ 63 : Nat) : Int) ≤ v.toInt := v.le_toInt
  have hlt : v.toInt < ((2 ^ 63 : Nat) : Int) := v.toInt_lt
  rw [intToJson, readInt, Number.text_ofInt, parseSigned_signed hle hlt, Option.map_some,
    Int64.ofInt_toInt]

theorem readUint_uintToJson (n : UInt32) : readUint (uintToJson n) = some n := by
  have hlt : n.toNat < 2 ^ 32 := n.toNat_lt
  rw [uintToJson, readUint, Number.ofNat, parseUnsigned_decimal hlt, Option.map_some,
    UInt32.ofNat_toNat]

variable {float : UInt64 → Number} {double : Number → Option UInt64}

/-- The doubles that are finite are read as they were. -/
def Exact (float : UInt64 → Number) (double : Number → Option UInt64) (bs : List UInt64) : Prop :=
  ∀ b ∈ bs, isFinite b → double (float b) = some b

theorem Exact.sub {bs cs : List UInt64} (h : Exact float double cs) (hsub : ∀ b ∈ bs, b ∈ cs) :
    Exact float double bs := fun b hb => h b (hsub b hb)

theorem possible_double {fields : List (Str × Option Tree)} {key : Str} {x : Option UInt64}
    (hx : Exact float double x.toList) (hnodup : (fields.map Prod.fst).Nodup)
    (hmem : (key, x.map (floatToJson float)) ∈ fields) :
    possible key (readFloat double) (members fields) = some (x.filter isFinite) := by
  have hlookup := lookup_members hnodup hmem
  cases x with
  | none => rw [possible, hlookup]; rfl
  | some b =>
    rw [possible, hlookup, Option.map_some, floatToJson, Option.filter_some]
    cases hb : isFinite b with
    | false => rfl
    | true =>
      have hread : readFloat double (.num (float b)) = some b := hx b (by simp) hb
      simp only [if_true, hread]
      rfl

theorem readAny_anyToJson {a : AnyValue} (h : Exact float double a.doubleValue.toList) :
    readAny double (anyToJson float a) = some (anySent a) := by
  have hnodup : ["stringValue".toList, "boolValue".toList, "intValue".toList,
    "doubleValue".toList].Nodup := by decide
  refine Option.bind_eq_some_iff.mpr
    ⟨_, possible_same hnodup (.head _) (fun _ => Tree.noConfusion) fun _ => rfl, ?_⟩
  refine Option.bind_eq_some_iff.mpr
    ⟨_, possible_same hnodup (.tail _ (.head _)) (fun _ => Tree.noConfusion) fun _ => rfl, ?_⟩
  refine Option.bind_eq_some_iff.mpr
    ⟨_, possible_same hnodup (.tail _ (.tail _ (.head _)))
      (fun _ => Tree.noConfusion) readInt_intToJson, ?_⟩
  exact Option.bind_eq_some_iff.mpr
    ⟨_, possible_double h hnodup (.tail _ (.tail _ (.tail _ (.head _)))), rfl⟩

theorem readKv_kvToJson {kv : KeyValue} (h : Exact float double kv.value.doubleValue.toList) :
    readKv double (kvToJson float kv) = some (kvSent kv) := by
  have hnodup : ["key".toList, "value".toList].Nodup := by decide
  rw [readKv, kvToJson, object, readObj]
  refine Option.bind_eq_some_iff.mpr ⟨_, required_members hnodup (.head _) rfl, ?_⟩
  exact Option.bind_eq_some_iff.mpr
    ⟨_, required_members hnodup (.tail _ (.head _)) (readAny_anyToJson h), rfl⟩

theorem readAttributes_attributesToJson {kvs : List KeyValue}
    (h : Exact float double (attributesDoubles kvs)) :
    readArr (readKv double) (attributesToJson float kvs) = some (kvs.map kvSent) :=
  readArr_map fun _ hkv =>
    readKv_kvToJson (h.sub fun _ hb => List.mem_flatMap.mpr ⟨_, hkv, hb⟩)

theorem readLr_lrToJson {lr : LogRecord} (h : Exact float double (lrDoubles lr)) :
    readLr double (lrToJson float lr) = some (lrSent lr) := by
  have hnodup : ["timeUnixNano".toList, "observedTimeUnixNano".toList, "severityNumber".toList,
    "severityText".toList, "body".toList, "attributes".toList].Nodup := by decide
  have hbody : ∀ v, lr.body = some v →
      anyToJson float v ≠ .null ∧ readAny double (anyToJson float v) = some (anySent v) := by
    intro v hv
    refine ⟨nofun, readAny_anyToJson (h.sub fun b hb => List.mem_append_left _ ?_)⟩
    rwa [hv, Option.bind_some]
  have hattributes := readAttributes_attributesToJson
    (h.sub fun b hb => List.mem_append_right _ hb)
  refine Option.bind_eq_some_iff.mpr ⟨_, required_members hnodup (.head _) rfl, ?_⟩
  refine Option.bind_eq_some_iff.mpr
    ⟨_, possible_same hnodup (.tail _ (.head _)) (fun _ => Tree.noConfusion) fun _ => rfl, ?_⟩
  refine Option.bind_eq_some_iff.mpr
    ⟨_, possible_same hnodup (.tail _ (.tail _ (.head _)))
      (fun _ => Tree.noConfusion) readUint_uintToJson, ?_⟩
  refine Option.bind_eq_some_iff.mpr
    ⟨_, possible_same hnodup (.tail _ (.tail _ (.tail _ (.head _))))
      (fun _ => Tree.noConfusion) fun _ => rfl, ?_⟩
  refine Option.bind_eq_some_iff.mpr
    ⟨_, possible_members hnodup (.tail _ (.tail _ (.tail _ (.tail _ (.head _))))) hbody, ?_⟩
  exact Option.bind_eq_some_iff.mpr ⟨_, required_members hnodup
    (.tail _ (.tail _ (.tail _ (.tail _ (.tail _ (.head _)))))) hattributes, rfl⟩

theorem readScope_scopeToJson (s : Scope) : readScope (scopeToJson s) = some s := by
  have hnodup : ["name".toList, "version".toList].Nodup := by decide
  rw [readScope, scopeToJson, object, readObj]
  refine Option.bind_eq_some_iff.mpr ⟨_, required_members hnodup (.head _) rfl, ?_⟩
  exact Option.bind_eq_some_iff.mpr
    ⟨_, possible_same hnodup (.tail _ (.head _)) (fun _ => Tree.noConfusion) fun _ => rfl, rfl⟩

theorem readSl_slToJson {sl : ScopeLogs} (h : Exact float double (slDoubles sl)) :
    readSl double (slToJson float sl) = some (slSent sl) := by
  have hnodup : ["scope".toList, "logRecords".toList].Nodup := by decide
  have hrecords : readArr (readLr double) (.arr (sl.logRecords.map (lrToJson float))) =
      some (sl.logRecords.map lrSent) :=
    readArr_map fun _ hlr => readLr_lrToJson (h.sub fun _ hb => List.mem_flatMap.mpr ⟨_, hlr, hb⟩)
  rw [readSl, slToJson, object, readObj]
  refine Option.bind_eq_some_iff.mpr
    ⟨_, possible_same hnodup (.head _) (fun _ => Tree.noConfusion) readScope_scopeToJson, ?_⟩
  exact Option.bind_eq_some_iff.mpr
    ⟨_, required_members hnodup (.tail _ (.head _)) hrecords, rfl⟩

theorem readResource_resourceToJson {r : Resource}
    (h : Exact float double (attributesDoubles r.attributes)) :
    readResource double (resourceToJson float r) = some (resourceSent r) := by
  have hnodup : ["attributes".toList].Nodup := by decide
  rw [readResource, resourceToJson, object, readObj]
  exact Option.bind_eq_some_iff.mpr
    ⟨_, required_members hnodup (.head _) (readAttributes_attributesToJson h), rfl⟩

theorem readRl_rlToJson {rl : ResourceLogs} (h : Exact float double (rlDoubles rl)) :
    readRl double (rlToJson float rl) = some (rlSent rl) := by
  have hnodup : ["resource".toList, "scopeLogs".toList].Nodup := by decide
  have hresource : ∀ r, rl.resource = some r → resourceToJson float r ≠ .null ∧
      readResource double (resourceToJson float r) = some (resourceSent r) := by
    intro r hr
    refine ⟨nofun, readResource_resourceToJson (h.sub fun b hb => List.mem_append_left _ ?_)⟩
    rw [hr]
    simpa using hb
  have hlogs : readArr (readSl double) (.arr (rl.scopeLogs.map (slToJson float))) =
      some (rl.scopeLogs.map slSent) :=
    readArr_map fun _ hsl => readSl_slToJson
      (h.sub fun _ hb => List.mem_append_right _ (List.mem_flatMap.mpr ⟨_, hsl, hb⟩))
  rw [readRl, rlToJson, object, readObj]
  refine Option.bind_eq_some_iff.mpr ⟨_, possible_members hnodup (.head _) hresource, ?_⟩
  exact Option.bind_eq_some_iff.mpr
    ⟨_, required_members hnodup (.tail _ (.head _)) hlogs, rfl⟩

/-- The body of a request holds the payload, however it is nested and whatever
its texts are. All that is lost are the doubles that are not finite. -/
theorem fromSlice_toVec {p : LogsPayload} (h : Exact float double (payloadDoubles p)) :
    fromSlice double (toVec float p) = some (payloadSent p) := by
  have hlogs : readArr (readRl double) (.arr (p.resourceLogs.map (rlToJson float))) =
      some (p.resourceLogs.map rlSent) :=
    readArr_map fun _ hrl => readRl_rlToJson (h.sub fun _ hb => List.mem_flatMap.mpr ⟨_, hrl, hb⟩)
  have hnodup : ["resourceLogs".toList].Nodup := by decide
  have hpayload : readPayload double (payloadToJson float p) = some (payloadSent p) := by
    rw [readPayload, payloadToJson, object, readObj]
    exact Option.bind_eq_some_iff.mpr ⟨_, required_members hnodup (.head _) hlogs, rfl⟩
  rw [fromSlice, toVec, fromUtf8_text, Option.bind_eq_bind, Option.bind_some, read_print,
    Option.bind_eq_bind, Option.bind_some, hpayload]

def half : Number := ⟨['0', '.', '5'], by decide, by decide⟩

end RoundTrip

end TptTelemetry.Otlp.Json
