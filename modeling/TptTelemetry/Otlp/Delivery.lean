import Mathlib.Data.List.Flatten
import TptTelemetry.Otlp.Exporter
import TptTelemetry.Otlp.Json

namespace TptTelemetry.Otlp.Delivery

open TptTelemetry.Lib.Text TptTelemetry.Lib.Utf8 TptTelemetry.Lib.Json TptTelemetry.Lib.Numeral
open TptTelemetry.Compiler.Typed TptTelemetry.Otlp.Model TptTelemetry.Otlp.Grpc
open TptTelemetry.Otlp.Exporter TptTelemetry.Otlp.Json

section Requests

variable {cfg : ExporterConfig} {send : Nat → Except Str Unit}

/-- The loop sends one request again and again, and stops at the first success. -/
theorem httpLoop_sends (cfg : ExporterConfig) (send : Nat → Except Str Unit) (req : Request)
    {attempt : Nat} (h : attempt ≤ cfg.maxRetries.toNat) {backoff : UInt64}
    (hdouble : backoff.toNat * 2 < 2 ^ 64) :
    ∃ n result, (httpLoop cfg send req attempt backoff).1 = .ok result ∧
      attempt + n ≤ cfg.maxRetries.toNat ∧
      requests (httpLoop cfg send req attempt backoff).2 = List.replicate (n + 1) req ∧
      (result = .ok () → send (attempt + n) = .ok ()) := by
  -- the induction is on the retries that are left
  obtain ⟨left, hleft⟩ := Nat.exists_eq_add_of_le h
  induction left generalizing attempt backoff with
  | zero =>
    cases hs : send attempt with
    | ok u =>
      rw [httpLoop_ok hs]
      exact ⟨0, _, rfl, h, rfl, fun _ => hs⟩
    | error e =>
      rw [httpLoop_last hs (by omega)]
      refine ⟨0, _, rfl, h, rfl, fun hok => ?_⟩
      cases hok
  | succ left ih =>
    cases hs : send attempt with
    | ok u =>
      rw [httpLoop_ok hs]
      exact ⟨0, _, rfl, h, rfl, fun _ => hs⟩
    | error e =>
      have hcapped : (UInt64.ofNat (min (backoff.toNat * 2) 30000)).toNat * 2 < 2 ^ 64 := by
        rw [UInt64.toNat_ofNat_of_lt' (Nat.lt_of_le_of_lt (Nat.min_le_right _ _) (by decide))]
        omega
      obtain ⟨n, result, hresult, hle, hreq, hok⟩ :=
        ih (show attempt + 1 ≤ cfg.maxRetries.toNat by omega) hcapped (by omega)
      rw [httpLoop_retry hs (by omega) req hdouble]
      refine ⟨n + 1, result, hresult, by omega, ?_, fun hr => ?_⟩
      · rw [List.replicate_succ, ← hreq]
        rfl
      · rw [show attempt + (n + 1) = attempt + 1 + n by omega]
        exact hok hr

end Requests

section Collector

variable (double : Number → Option UInt64) (arrives : Nat → Nat → Bool) (cfg : ExporterConfig)
  (env : Env)

/-- The requests that get through, of those for one payload. -/
def arrivals (gets : Nat → Bool) (reqs : List Request) : List Request :=
  (reqs.zipIdx.filter (fun r => gets r.2)).map Prod.fst

/-- What the collector reads from the requests for the payload of that number,
where `arrives` tells which of them get through. An answer may be lost: then the
request has arrived, and is sent again. -/
def collectedFor (index : Nat) (payload : LogsPayload) : List LogsPayload :=
  (arrivals (arrives index) (requests (exportPayload cfg env index payload).2)).filterMap
    (fun req => fromSlice double req.body)

def collected (s : Slice) : List LogsPayload :=
  ((exportRecords cfg env s).2.mapIdx (collectedFor double arrives cfg env)).flatten

def copiesOf (payloads : List LogsPayload) (index : Nat) : Nat :=
  ((payloads[index]?).map (fun p => (collectedFor double arrives cfg env index p).length)).getD 0

end Collector

section Copies

variable {double : Number → Option UInt64} {arrives : Nat → Nat → Bool} {cfg : ExporterConfig}
  {env : Env} {float : UInt64 → Number}

theorem arrivals_replicate (gets : Nat → Bool) (req : Request) (n : Nat) :
    ∃ m, arrivals gets (List.replicate n req) = List.replicate m req ∧ m ≤ n ∧
      ∀ k < n, gets k = true → 0 < m := by
  refine ⟨(arrivals gets (List.replicate n req)).length, ?_, ?_, ?_⟩
  · refine List.eq_replicate_iff.mpr ⟨rfl, fun r hr => ?_⟩
    obtain ⟨p, hp, rfl⟩ := List.mem_map.mp hr
    exact List.eq_of_mem_replicate (List.fst_mem_of_mem_zipIdx (List.mem_of_mem_filter hp))
  · rw [arrivals, List.length_map]
    refine (List.length_filter_le _ _).trans ?_
    rw [List.length_zipIdx, List.length_replicate]
  · intro k hk hget
    rw [arrivals, List.length_map]
    have hmem : (req, k) ∈ (List.replicate n req).zipIdx := by
      rw [List.mem_zipIdx_iff_getElem?, List.getElem?_replicate, if_pos hk]
    exact List.length_pos_of_mem (List.mem_filter.mpr ⟨hmem, hget⟩)

/-- The collector gets a payload a few times, and at least once if the exporter
is told so. -/
theorem collectedFor_copies {index : Nat} {payload : LogsPayload} (hhttp : cfg.transport = .http)
    (hbase : cfg.baseBackoffMs.toNat < 2 ^ 63)
    (hjson : env.toVec payload = .ok (toVec float payload))
    (hfloat : Exact float double (payloadDoubles payload))
    (hanswer : ∀ k, env.sendBytes index k = .ok () → arrives index k = true) :
    ∃ copies, collectedFor double arrives cfg env index payload =
        List.replicate copies (payloadSent payload) ∧ copies ≤ cfg.maxRetries.toNat + 1 ∧
      ((exportPayload cfg env index payload).1 = .ok (.ok ()) → 0 < copies) := by
  by_cases hinsecure : cfg.requireTls ∧ ¬ "https://".toList <+: cfg.endpoint ∧ cfg.headers ≠ []
  · rw [collectedFor, exportPayload, if_pos hinsecure]
    refine ⟨0, rfl, Nat.zero_le _, fun hok => ?_⟩
    cases hok
  · have hrun : exportPayload cfg env index payload = httpLoop cfg (env.sendBytes index)
        (postRequest cfg (toVec float payload)) 0 cfg.baseBackoffMs := by
      rw [exportPayload, if_neg hinsecure, hhttp]
      dsimp only
      rw [exportHttp, hjson]
    obtain ⟨n, result, hresult, hle, hreq, hok⟩ := httpLoop_sends cfg (env.sendBytes index)
      (postRequest cfg (toVec float payload)) (Nat.zero_le _) (by omega : cfg.baseBackoffMs.toNat * 2 < _)
    obtain ⟨m, hm, hmn, hpos⟩ := arrivals_replicate (arrives index)
      (postRequest cfg (toVec float payload)) (n + 1)
    have hread : fromSlice double (postRequest cfg (toVec float payload)).body =
        some (payloadSent payload) := fromSlice_toVec hfloat
    rw [collectedFor, hrun, hreq, hm, hresult]
    refine ⟨m, ?_, by omega, fun h => ?_⟩
    · exact List.filterMap_replicate_of_some (f := fun req : Request => fromSlice double req.body)
        hread
    · refine hpos n (Nat.lt_succ_self n) (hanswer n ?_)
      cases h
      simpa using hok rfl

theorem sublist_copies {α β : Type} (f : α → β) (copies : Nat → Nat) (l : List α)
    (h : ∀ j < l.length, 0 < copies j) :
    (l.map f).Sublist (l.mapIdx (fun j a => List.replicate (copies j) (f a))).flatten := by
  induction l generalizing copies with
  | nil => exact List.Sublist.refl _
  | cons a l ih =>
    rw [List.map_cons, List.mapIdx_cons, List.flatten_cons]
    have hfirst : [f a].Sublist (List.replicate (copies 0) (f a)) :=
      List.replicate_sublist_replicate (f a) |>.mpr (h 0 (Nat.succ_pos _))
    exact hfirst.append (ih (fun j => copies (j + 1)) fun j hj => h (j + 1) (Nat.succ_lt_succ hj))

theorem logRecords_sent (p : LogsPayload) : logRecords (payloadSent p) = (logRecords p).map lrSent := by
  simp [logRecords, payloadSent, rlSent, slSent, List.flatMap_map, List.map_flatMap]

/-- Delivery is at least once, and nothing else. A collector that reads the
requests that reach it gets the payloads in order, each a bounded number of
times, and all of them up to the one that the exporter gives up on. Every log
record that it gets is that of a record; and if the export succeeds, the log
records of all the records are there, in their order. -/
theorem export_at_least_once {s : Slice} (hhttp : cfg.transport = .http)
    (hbase : cfg.baseBackoffMs.toNat < 2 ^ 63) (hjson : ∀ p, env.toVec p = .ok (toVec float p))
    (hfloat : ∀ p ∈ (exportRecords cfg env s).2, Exact float double (payloadDoubles p))
    (hanswer : ∀ j k, env.sendBytes j k = .ok () → arrives j k = true) :
    ∃ (result : Except OtlpError Unit) (payloads : List LogsPayload) (copies : Nat → Nat),
      exportRecords cfg env s = (.ok result, payloads) ∧
      collected double arrives cfg env s =
        (payloads.mapIdx (fun j p => List.replicate (copies j) (payloadSent p))).flatten ∧
      (∀ j, copies j ≤ cfg.maxRetries.toNat + 1) ∧
      (∀ j, j + 1 < payloads.length → 0 < copies j) ∧
      (∀ lr ∈ (collected double arrives cfg env s).flatMap logRecords, ∃ i rec,
        s.records[i]? = some rec ∧ lr = lrSent (recordToLogRecord (env.clock i) rec)) ∧
      (result = .ok () →
        (s.records.mapIdx (fun i rec => lrSent (recordToLogRecord (env.clock i) rec))).Sublist
          ((collected double arrives cfg env s).flatMap logRecords)) := by
  obtain ⟨outcome, houtcome, hparts⟩ := exportRecords_partitions hbase env s
  obtain ⟨result, hresult⟩ := hparts.completes
  obtain ⟨⟨n, hpart⟩, -, hsuccess, hfailure⟩ := hparts
  have hok : ∀ (j : Nat) (p : LogsPayload), (exportRecords cfg env s).2[j]? = some p →
      (result = .ok () ∨ j + 1 < (exportRecords cfg env s).2.length) → outcome j p = .ok () := by
    intro j p hj hlast
    cases ho : outcome j p with
    | ok u => rfl
    | error e =>
      obtain ⟨hresult', hlen⟩ := hfailure j p e hj (by rwa [Nat.zero_add])
      obtain hr | hlt := hlast
      · rw [hresult', hr] at hresult
        cases hresult
      · omega
  have hcopies : ∀ (j : Nat) (p : LogsPayload), (exportRecords cfg env s).2[j]? = some p →
      collectedFor double arrives cfg env j p = List.replicate
          (copiesOf double arrives cfg env (exportRecords cfg env s).2 j) (payloadSent p) ∧
        copiesOf double arrives cfg env (exportRecords cfg env s).2 j ≤ cfg.maxRetries.toNat + 1 ∧
        (outcome j p = .ok () → 0 < copiesOf double arrives cfg env (exportRecords cfg env s).2 j) := by
    intro j p hj
    obtain ⟨n, hrep, hle, hpos⟩ := collectedFor_copies hhttp hbase (hjson p)
      (hfloat p (List.mem_of_getElem? hj)) (hanswer j)
    have hn : copiesOf double arrives cfg env (exportRecords cfg env s).2 j = n := by
      rw [copiesOf, hj, Option.map_some, Option.getD_some, hrep, List.length_replicate]
    rw [hn]
    exact ⟨hrep, hle, fun hok => hpos (by rw [houtcome, hok])⟩
  have hcollected : collected double arrives cfg env s = ((exportRecords cfg env s).2.mapIdx (fun j p =>
      List.replicate (copiesOf double arrives cfg env (exportRecords cfg env s).2 j)
        (payloadSent p))).flatten :=
    congrArg List.flatten (List.mapIdx_eq_mapIdx_iff.mpr fun j hj =>
      (hcopies j _ (List.getElem?_eq_getElem hj)).1)
  refine ⟨result, _, _, Prod.ext hresult rfl, hcollected, fun j => ?_, fun j hj => ?_,
    fun lr hlr => ?_, fun hr => ?_⟩
  · cases hget : (exportRecords cfg env s).2[j]? with
    | none =>
      rw [copiesOf, hget]
      exact Nat.zero_le _
    | some p => exact (hcopies j p hget).2.1
  · have hget := List.getElem?_eq_getElem (Nat.lt_of_succ_lt hj)
    exact (hcopies j _ hget).2.2 (hok j _ hget (Or.inr hj))
  · rw [hcollected] at hlr
    obtain ⟨p', hp', hlr⟩ := List.mem_flatMap.mp hlr
    obtain ⟨group, hgroup, hp'⟩ := List.mem_flatten.mp hp'
    obtain ⟨j, hj, rfl⟩ := List.mem_mapIdx.mp hgroup
    rw [List.eq_of_mem_replicate hp', logRecords_sent] at hlr
    obtain ⟨lr', hlr', rfl⟩ := List.mem_map.mp hlr
    have hmem : lr' ∈ (exportRecords cfg env s).2.flatMap logRecords :=
      List.mem_flatMap.mpr ⟨_, List.getElem_mem hj, hlr'⟩
    rw [hpart, images, List.drop_zero] at hmem
    obtain ⟨i, hi, rfl⟩ := List.mem_mapIdx.mp hmem
    rw [List.length_take] at hi
    refine ⟨i, _, List.getElem?_eq_getElem (by omega), ?_⟩
    rw [List.getElem_take, Nat.zero_add]
  · have hall := hsuccess fun j p hj => by
      rw [Nat.zero_add]
      exact hok j p hj (Or.inl hr)
    have hsent := sublist_copies payloadSent
      (copiesOf double arrives cfg env (exportRecords cfg env s).2) (exportRecords cfg env s).2
      fun j hj => by
        have hget := List.getElem?_eq_getElem hj
        exact (hcopies j _ hget).2.2 (hok j _ hget (Or.inl hr))
    rw [← hcollected] at hsent
    have hrecords := hsent.flatMap logRecords
    rw [List.flatMap_map] at hrecords
    simp only [logRecords_sent, ← List.map_flatMap] at hrecords
    have himages : (images env.clock 0 (s.records.drop 0)).map lrSent =
        s.records.mapIdx (fun i rec => lrSent (recordToLogRecord (env.clock i) rec)) :=
      List.ext_getElem (by simp [images]) fun i hi hi' => by simp [images]
    rwa [hall.2, himages] at hrecords

end Copies

def bitsText (bits : UInt64) : Number := .ofNat bits.toNat

def textBits (n : Number) : Option UInt64 := (parseUnsigned 10 (2 ^ 64) n.text).map UInt64.ofNat

theorem exact_bits (bs : List UInt64) : Exact bitsText textBits bs := by
  intro b _ _
  rw [textBits, bitsText, Number.ofNat, parseUnsigned_decimal b.toNat_lt, Option.map_some,
    UInt64.ofNat_toNat]

/-- Every answer to a first request is lost on the way back. -/
def lossy : Env :=
  { clock := fun _ => some 7
    toVec := fun p => .ok (toVec bitsText p)
    sendBytes := fun _ k => if k = 0 then .error "timed out".toList else .ok ()
    grpc := none }

def twoRecords : Slice := ⟨[⟨['a'], []⟩, ⟨['b'], []⟩], by decide⟩

theorem export_at_least_once_lossy :
    ∃ copies : Nat → Nat, (∀ j, copies j ≤ 4) ∧
      ∀ lr ∈ (collected textBits (fun _ _ => true) .default lossy twoRecords).flatMap logRecords,
        ∃ (i : Nat) (rec : Record), twoRecords.records[i]? = some rec ∧
          lr = lrSent (recordToLogRecord (some 7) rec) := by
  have hhttp : ExporterConfig.default.transport = .http := rfl
  have hbase : ExporterConfig.default.baseBackoffMs.toNat < 2 ^ 63 := by decide
  have hjson : ∀ p, lossy.toVec p = .ok (toVec bitsText p) := fun _ => rfl
  have hanswer : ∀ j k, lossy.sendBytes j k = .ok () → (fun (_ _ : Nat) => true) j k = true :=
    fun _ _ _ => rfl
  obtain ⟨-, -, copies, -, -, hle, -, hmem, -⟩ := export_at_least_once (s := twoRecords) hhttp hbase
    hjson (fun p _ => exact_bits (payloadDoubles p)) hanswer
  exact ⟨copies, hle, hmem⟩

end TptTelemetry.Otlp.Delivery
