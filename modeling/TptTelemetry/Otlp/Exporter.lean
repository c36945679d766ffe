import TptTelemetry.Otlp.Grpc

namespace TptTelemetry.Otlp.Exporter

open TptTelemetry.Lib.Text TptTelemetry.Lib.Utf8 TptTelemetry.Lib.Numeral
open TptTelemetry.Compiler.Typed TptTelemetry.Otlp.Model TptTelemetry.Otlp.Grpc

inductive Transport
  | grpc
  | http
  deriving DecidableEq, Repr

/-- The headers are in the order in which the map gives them. -/
structure ExporterConfig where
  transport : Transport
  endpoint : Str
  headers : List (Str × Str)
  batchSize : UInt64
  timeoutMs : UInt64
  maxRetries : UInt64
  baseBackoffMs : UInt64
  scopeName : Str
  requireTls : Bool
  deriving DecidableEq, Repr

def ExporterConfig.default : ExporterConfig :=
  { transport := .http
    endpoint := "http://localhost:4318".toList
    headers := []
    batchSize := 1024
    timeoutMs := 10000
    maxRetries := 3
    baseBackoffMs := 100
    scopeName := "tpt-telemetry".toList
    requireTls := false }

/-- What stops the exporter for good: an arithmetic operation that overflows, or
a range outside the slice. -/
inductive Fault
  | overflow
  | slice
  deriving DecidableEq, Repr

/-- What the exporter meets: the clock for each record, the serializer, the
answer to each request for a payload, and the gRPC client if it is compiled in. -/
structure Env where
  clock : Nat → Option Nat
  toVec : LogsPayload → Except Str Bytes
  sendBytes : Nat → Nat → Except Str Unit
  grpc : Option (Nat → LogsPayload → Except OtlpError Unit)

structure Request where
  url : Str
  headers : List (Str × Str)
  timeoutMs : UInt64
  body : Bytes
  deriving DecidableEq, Repr

inductive Event
  | request (req : Request)
  | sleep (ms : UInt64)
  deriving DecidableEq, Repr

def postRequest (cfg : ExporterConfig) (body : Bytes) : Request :=
  { url := (cfg.endpoint.reverse.dropWhile (· = '/')).reverse ++ "/v1/logs".toList
    headers := ("Content-Type".toList, "application/json".toList) :: cfg.headers
    timeoutMs := cfg.timeoutMs
    body }

def httpLoop (cfg : ExporterConfig) (send : Nat → Except Str Unit) (req : Request)
    (attempt : Nat) (backoff : UInt64) : Except Fault (Except OtlpError Unit) × List Event :=
  match send attempt with
  | .ok () => (.ok (.ok ()), [.request req])
  | .error e =>
    if cfg.maxRetries.toNat ≤ attempt then
      (.ok (.error (.retriesExhausted cfg.maxRetries.toNat e)), [.request req])
    else
      match _hnext : checkedAdd (2 ^ 64) attempt 1 with
      | none => (.error .overflow, [.request req])
      | some next =>
        match checkedMul (2 ^ 64) backoff.toNat 2 with
        | none => (.error .overflow, [.request req, .sleep backoff])
        | some doubled =>
          let run := httpLoop cfg send req next (UInt64.ofNat (min doubled 30000))
          (run.1, .request req :: .sleep backoff :: run.2)
termination_by cfg.maxRetries.toNat - attempt
decreasing_by
  obtain ⟨-, rfl⟩ := checkedAdd_eq_some.mp _hnext
  omega

def exportHttp (cfg : ExporterConfig) (env : Env) (index : Nat) (payload : LogsPayload) :
    Except Fault (Except OtlpError Unit) × List Event :=
  match env.toVec payload with
  | .error e => (.ok (.error (.serialize e)), [])
  | .ok body => httpLoop cfg (env.sendBytes index) (postRequest cfg body) 0 cfg.baseBackoffMs

def exportGrpc (env : Env) (index : Nat) (payload : LogsPayload) : Except OtlpError Unit :=
  match env.grpc with
  | some client => client index payload
  | none => .error .grpcFeatureDisabled

def insecureMessage (cfg : ExporterConfig) : Str :=
  decimal cfg.headers.length ++ " secret header(s) configured but endpoint is not https".toList

def exportPayload (cfg : ExporterConfig) (env : Env) (index : Nat) (payload : LogsPayload) :
    Except Fault (Except OtlpError Unit) × List Event :=
  if cfg.requireTls ∧ ¬ "https://".toList <+: cfg.endpoint ∧ cfg.headers ≠ [] then
    (.ok (.error (.insecureTransport (insecureMessage cfg))), [])
  else
    match cfg.transport with
    | .http => exportHttp cfg env index payload
    | .grpc => (.ok (exportGrpc env index payload), [])

/-- A slice of records: it is smaller than half of the address space. -/
structure Slice where
  records : List Record
  bounded : records.length < 2 ^ 63

def Slice.range (s : Slice) (start stop : Nat) : Except Fault (List Record) :=
  if start ≤ stop ∧ stop ≤ s.records.length then .ok (s.records.extract start stop)
  else .error .slice

def batchLoop (batchSize : Nat) (hb : 0 < batchSize) (scopeName : Str) (clock : Nat → Option Nat)
    (attempt : Nat → LogsPayload → Except Fault (Except OtlpError Unit)) (s : Slice)
    (start index : Nat) : Except Fault (Except OtlpError Unit) × List LogsPayload :=
  if start < s.records.length then
    match _hsum : checkedAdd (2 ^ 64) start batchSize with
    | none => (.error .overflow, [])
    | some sum =>
      let stop := min sum s.records.length
      match s.range start stop with
      | .error fault => (.error fault, [])
      | .ok slice =>
        let payload := recordsToPayload (fun i => clock (start + i)) slice scopeName
        match attempt index payload with
        | .ok (.ok ()) =>
          let run := batchLoop batchSize hb scopeName clock attempt s stop (index + 1)
          (run.1, payload :: run.2)
        | failed => (failed, [payload])
  else (.ok (.ok ()), [])
termination_by s.records.length - start
decreasing_by
  obtain ⟨-, rfl⟩ := checkedAdd_eq_some.mp _hsum
  omega

/-- `Exporter::export`, over what becomes of each payload. -/
def exportWith (cfg : ExporterConfig) (clock : Nat → Option Nat)
    (attempt : Nat → LogsPayload → Except Fault (Except OtlpError Unit)) (s : Slice) :
    Except Fault (Except OtlpError Unit) × List LogsPayload :=
  if s.records = [] then (.ok (.ok ()), [])
  else
    batchLoop (max cfg.batchSize.toNat 1) (by omega) cfg.scopeName clock attempt s 0 0

def exportRecords (cfg : ExporterConfig) (env : Env) (s : Slice) :
    Except Fault (Except OtlpError Unit) × List LogsPayload :=
  exportWith cfg env.clock (fun index payload => (exportPayload cfg env index payload).1) s

section Batches

def logRecords (p : LogsPayload) : List LogRecord :=
  p.resourceLogs.flatMap (fun rl => rl.scopeLogs.flatMap ScopeLogs.logRecords)

def images (clock : Nat → Option Nat) (start : Nat) (records : List Record) : List LogRecord :=
  records.mapIdx (fun i rec => recordToLogRecord (clock (start + i)) rec)

theorem length_images (clock : Nat → Option Nat) (start : Nat) (records : List Record) :
    (images clock start records).length = records.length := List.length_mapIdx

theorem images_append (clock : Nat → Option Nat) (start : Nat) (a b : List Record) :
    images clock start (a ++ b) = images clock start a ++ images clock (start + a.length) b := by
  simp only [images, List.mapIdx_append]
  congr 2
  funext i rec
  rw [show start + (i + a.length) = start + a.length + i by omega]

theorem logRecords_payload (clock : Nat → Option Nat) (start : Nat) (records : List Record)
    (scopeName : Str) :
    logRecords (recordsToPayload (fun i => clock (start + i)) records scopeName) =
      images clock start records := by
  rw [recordsToPayload]
  cases records with
  | nil => rfl
  | cons rec records => simp [logRecords, images]

/-- The payloads tried from a position on: a run of records, none lost and none
twice, in parts of the batch size, and no more of them after a failure. -/
structure Partitioned (batchSize : Nat) (clock : Nat → Option Nat)
    (outcome : Nat → LogsPayload → Except OtlpError Unit) (records : List Record) (start index : Nat)
    (result : Except Fault (Except OtlpError Unit)) (payloads : List LogsPayload) : Prop where
  part : ∃ n, payloads.flatMap logRecords = images clock start ((records.drop start).take n)
  sizes : ∀ p ∈ payloads, 0 < (logRecords p).length ∧ (logRecords p).length ≤ batchSize
  success : (∀ j p, payloads[j]? = some p → outcome (index + j) p = .ok ()) →
    result = .ok (.ok ()) ∧ payloads.flatMap logRecords = images clock start (records.drop start)
  failure : ∀ j p e, payloads[j]? = some p → outcome (index + j) p = .error e →
    result = .ok (.error e) ∧ j + 1 = payloads.length

section Loop

variable {batchSize : Nat} {hb : 0 < batchSize} {scopeName : Str} {clock : Nat → Option Nat}
  {outcome : Nat → LogsPayload → Except OtlpError Unit} {s : Slice} {start index : Nat}

def batchStop (batchSize : Nat) (s : Slice) (start : Nat) : Nat :=
  min (start + batchSize) s.records.length

def batchPayload (batchSize : Nat) (scopeName : Str) (clock : Nat → Option Nat) (s : Slice)
    (start : Nat) : LogsPayload :=
  recordsToPayload (fun i => clock (start + i)) (s.records.extract start (batchStop batchSize s start))
    scopeName

theorem batchLoop_done (h : ¬ start < s.records.length) :
    batchLoop batchSize hb scopeName clock (fun j p => .ok (outcome j p)) s start index =
      (.ok (.ok ()), []) := by
  rw [batchLoop, if_neg h]

theorem batchLoop_turn (h : start < s.records.length) (hsum : start + batchSize < 2 ^ 64) :
    batchLoop batchSize hb scopeName clock (fun j p => .ok (outcome j p)) s start index =
      match outcome index (batchPayload batchSize scopeName clock s start) with
      | .ok () =>
        ((batchLoop batchSize hb scopeName clock (fun j p => .ok (outcome j p)) s
            (batchStop batchSize s start) (index + 1)).1,
          batchPayload batchSize scopeName clock s start ::
            (batchLoop batchSize hb scopeName clock (fun j p => .ok (outcome j p)) s
              (batchStop batchSize s start) (index + 1)).2)
      | .error e => (.ok (.error e), [batchPayload batchSize scopeName clock s start]) := by
  have hadd : checkedAdd (2 ^ 64) start batchSize = some (start + batchSize) :=
    checkedAdd_eq_some.mpr ⟨hsum, rfl⟩
  have hrange : s.range start (batchStop batchSize s start) =
      .ok (s.records.extract start (batchStop batchSize s start)) := by
    refine if_pos ⟨?_, Nat.min_le_right _ _⟩
    rw [batchStop]
    omega
  rw [batchLoop, if_pos h]
  split
  · next hnone => cases hnone.symm.trans hadd
  · next sum hsome =>
    cases hsome.symm.trans hadd
    dsimp only
    rw [show min (start + batchSize) s.records.length = batchStop batchSize s start from rfl, hrange]
    dsimp only
    rw [show recordsToPayload (fun i => clock (start + i))
      (s.records.extract start (batchStop batchSize s start)) scopeName =
        batchPayload batchSize scopeName clock s start from rfl]
    cases outcome index (batchPayload batchSize scopeName clock s start) with
    | ok u => rfl
    | error e => rfl

theorem logRecords_batch : logRecords (batchPayload batchSize scopeName clock s start) =
    images clock start ((s.records.drop start).take (batchStop batchSize s start - start)) :=
  logRecords_payload clock start _ scopeName

theorem length_batch (h : start < s.records.length) :
    ((s.records.drop start).take (batchStop batchSize s start - start)).length =
      batchStop batchSize s start - start := by
  rw [List.length_take, List.length_drop, batchStop]
  omega

theorem sizes_batch (hb : 0 < batchSize) (h : start < s.records.length) :
    0 < (logRecords (batchPayload batchSize scopeName clock s start)).length ∧
      (logRecords (batchPayload batchSize scopeName clock s start)).length ≤ batchSize := by
  rw [logRecords_batch, length_images, length_batch h, batchStop]
  omega

theorem images_batch (h : start < s.records.length) (n : Nat) :
    logRecords (batchPayload batchSize scopeName clock s start) ++
        images clock (batchStop batchSize s start)
          ((s.records.drop (batchStop batchSize s start)).take n) =
      images clock start
        ((s.records.drop start).take (batchStop batchSize s start - start + n)) := by
  have hle : start ≤ batchStop batchSize s start := by
    rw [batchStop]
    omega
  rw [List.take_add, images_append, logRecords_batch, length_batch h, List.drop_drop,
    Nat.add_sub_cancel' hle]

theorem images_whole (h : start < s.records.length) :
    logRecords (batchPayload batchSize scopeName clock s start) ++
        images clock (batchStop batchSize s start) (s.records.drop (batchStop batchSize s start)) =
      images clock start (s.records.drop start) := by
  have hrest : (s.records.drop (batchStop batchSize s start)).take s.records.length =
      s.records.drop (batchStop batchSize s start) := List.take_of_length_le (by simp)
  have hall : (s.records.drop start).take (batchStop batchSize s start - start + s.records.length) =
      s.records.drop start := List.take_of_length_le (by simp; omega)
  calc
    _ = logRecords (batchPayload batchSize scopeName clock s start) ++
        images clock (batchStop batchSize s start)
          ((s.records.drop (batchStop batchSize s start)).take s.records.length) := by rw [hrest]
    _ = _ := by rw [images_batch h, hall]

theorem Partitioned.done (h : s.records.length ≤ start) :
    Partitioned batchSize clock outcome s.records start index (.ok (.ok ())) [] := by
  have hdrop : s.records.drop start = [] := List.drop_eq_nil_of_le h
  constructor
  · exact ⟨0, rfl⟩
  · simp
  · rw [hdrop]
    exact fun _ => ⟨rfl, rfl⟩
  · simp

theorem Partitioned.failed (hb : 0 < batchSize) (h : start < s.records.length) {e : OtlpError}
    (he : outcome index (batchPayload batchSize scopeName clock s start) = .error e) :
    Partitioned batchSize clock outcome s.records start index (.ok (.error e))
      [batchPayload batchSize scopeName clock s start] := by
  constructor
  · exact ⟨batchStop batchSize s start - start, by rw [List.flatMap_singleton, logRecords_batch]⟩
  · intro p hp
    rw [List.mem_singleton] at hp
    rw [hp]
    exact sizes_batch hb h
  · intro hall
    cases he.symm.trans (hall 0 _ rfl)
  · intro j p e' hj he'
    cases j with
    | zero =>
      cases hj
      cases he.symm.trans he'
      exact ⟨rfl, rfl⟩
    | succ j => cases hj

theorem Partitioned.next (hb : 0 < batchSize) (h : start < s.records.length)
    (hok : outcome index (batchPayload batchSize scopeName clock s start) = .ok ())
    {result : Except Fault (Except OtlpError Unit)} {payloads : List LogsPayload}
    (hrest : Partitioned batchSize clock outcome s.records (batchStop batchSize s start) (index + 1)
      result payloads) :
    Partitioned batchSize clock outcome s.records start index result
      (batchPayload batchSize scopeName clock s start :: payloads) := by
  have hshift : ∀ j, index + 1 + j = index + (j + 1) := by omega
  constructor
  · obtain ⟨n, hn⟩ := hrest.part
    refine ⟨batchStop batchSize s start - start + n, ?_⟩
    rw [List.flatMap_cons, hn, images_batch h]
  · exact List.forall_mem_cons.mpr ⟨sizes_batch hb h, hrest.sizes⟩
  · intro hall
    obtain ⟨hresult, hwhole⟩ := hrest.success fun j p hj => by
      rw [hshift]
      exact hall (j + 1) p hj
    refine ⟨hresult, ?_⟩
    rw [List.flatMap_cons, hwhole, images_whole h]
  · intro j p e hj he
    cases j with
    | zero =>
      cases hj
      cases hok.symm.trans he
    | succ j =>
      rw [← hshift] at he
      obtain ⟨hresult, hlast⟩ := hrest.failure j p e hj he
      exact ⟨hresult, congrArg (· + 1) hlast⟩

theorem batchLoop_partitions (hb : 0 < batchSize) (hlt : batchSize < 2 ^ 64)
    (hstart : start < s.records.length → start = 0 ∨ batchSize ≤ start) :
    Partitioned batchSize clock outcome s.records start index
      (batchLoop batchSize hb scopeName clock (fun j p => .ok (outcome j p)) s start index).1
      (batchLoop batchSize hb scopeName clock (fun j p => .ok (outcome j p)) s start index).2 := by
  -- the induction is on the records that are left
  induction hleft : s.records.length - start using Nat.strong_induction_on generalizing start index with
  | _ left ih =>
    by_cases h : start < s.records.length
    · have hbounded := s.bounded
      have hsum : start + batchSize < 2 ^ 64 := by
        obtain hs | hs := hstart h
        · omega
        · omega
      rw [batchLoop_turn h hsum]
      cases ho : outcome index (batchPayload batchSize scopeName clock s start) with
      | error e => exact Partitioned.failed hb h ho
      | ok u =>
        refine Partitioned.next hb h ho (ih _ ?_ ?_ rfl)
        · rw [batchStop]
          omega
        · rw [batchStop]
          omega
    · rw [batchLoop_done h]
      exact Partitioned.done (Nat.le_of_not_lt h)

end Loop

theorem exportWith_partitions (cfg : ExporterConfig) (clock : Nat → Option Nat)
    (outcome : Nat → LogsPayload → Except OtlpError Unit) (s : Slice) :
    Partitioned (max cfg.batchSize.toNat 1) clock outcome s.records 0 0
      (exportWith cfg clock (fun j p => .ok (outcome j p)) s).1
      (exportWith cfg clock (fun j p => .ok (outcome j p)) s).2 := by
  rw [exportWith]
  split
  · next h => exact Partitioned.done (by rw [h]; exact Nat.le_refl 0)
  · have hlt := cfg.batchSize.toNat_lt
    exact batchLoop_partitions (by omega) (by omega) (fun _ => Or.inl rfl)

theorem Partitioned.completes {batchSize : Nat} {clock : Nat → Option Nat}
    {outcome : Nat → LogsPayload → Except OtlpError Unit} {records : List Record}
    {start index : Nat} {result : Except Fault (Except OtlpError Unit)} {payloads : List LogsPayload}
    (h : Partitioned batchSize clock outcome records start index result payloads) :
    ∃ r, result = .ok r := by
  by_cases hall : ∀ j p, payloads[j]? = some p → outcome (index + j) p = .ok ()
  · exact ⟨_, (h.success hall).1⟩
  · simp only [not_forall] at hall
    obtain ⟨j, p, hj, hne⟩ := hall
    cases ho : outcome (index + j) p with
    | ok u => exact absurd ho hne
    | error e => exact ⟨_, (h.failure j p e hj ho).1⟩

/-- Whatever becomes of each payload, an export tries payloads that partition
the records, or those up to the end of the first payload that fails. -/
theorem export_partitions (cfg : ExporterConfig) (clock : Nat → Option Nat)
    (outcome : Nat → LogsPayload → Except OtlpError Unit) (s : Slice) :
    ∃ result payloads,
      exportWith cfg clock (fun j p => .ok (outcome j p)) s = (.ok result, payloads) ∧
      (∃ n, payloads.flatMap logRecords =
        (s.records.take n).mapIdx (fun i rec => recordToLogRecord (clock i) rec)) ∧
      (∀ p ∈ payloads, 0 < (logRecords p).length ∧
        (logRecords p).length ≤ max cfg.batchSize.toNat 1) ∧
      ((∀ j p, payloads[j]? = some p → outcome j p = .ok ()) → result = .ok () ∧
        payloads.flatMap logRecords =
          s.records.mapIdx (fun i rec => recordToLogRecord (clock i) rec)) ∧
      ∀ j p e, payloads[j]? = some p → outcome j p = .error e →
        result = .error e ∧ j + 1 = payloads.length := by
  have h := exportWith_partitions cfg clock outcome s
  obtain ⟨result, hresult⟩ := h.completes
  obtain ⟨hpart, hsizes, hsuccess, hfailure⟩ := h
  simp only [hresult, images, Nat.zero_add, List.drop_zero, Except.ok.injEq] at hpart hsuccess hfailure
  exact ⟨result, _, Prod.ext hresult rfl, hpart, hsizes, hsuccess, hfailure⟩

end Batches

section Retries

def requests (events : List Event) : List Request :=
  events.filterMap (fun e => if let .request req := e then some req else none)

def sleeps (events : List Event) : List UInt64 :=
  events.filterMap (fun e => if let .sleep ms := e then some ms else none)

def FirstSuccess (send : Nat → Except Str Unit) (k : Nat) : Prop :=
  send k = .ok () ∧ ∀ j < k, send j ≠ .ok ()

/-- A run sends until the first success, as long as retries are left, does not
overflow, and doubles its delay up to thirty seconds. -/
structure BacksOff (cfg : ExporterConfig) (send : Nat → Except Str Unit)
    (run : Except Fault (Except OtlpError Unit) × List Event) : Prop where
  completes : ∃ result, run.1 = .ok result
  first : ∀ k, FirstSuccess send k →
    (requests run.2).length = min (k + 1) (cfg.maxRetries.toNat + 1)
  never : (∀ k, send k ≠ .ok ()) → (requests run.2).length = cfg.maxRetries.toNat + 1
  delays : ∀ k ms, (sleeps run.2)[k]? = some ms →
    ms.toNat = min (cfg.baseBackoffMs.toNat * 2 ^ k) 30000
  capped : ∀ ms ∈ sleeps run.2, ms ≤ 30000
  increasing : (sleeps run.2).Pairwise (· ≤ ·)

def delay (base k : Nat) : UInt64 := UInt64.ofNat (min (base * 2 ^ k) 30000)

theorem toNat_delay (base k : Nat) : (delay base k).toNat = min (base * 2 ^ k) 30000 :=
  UInt64.toNat_ofNat_of_lt' (Nat.lt_of_le_of_lt (Nat.min_le_right _ _) (by decide))

theorem delay_succ (base k : Nat) :
    UInt64.ofNat (min ((delay base k).toNat * 2) 30000) = delay base (k + 1) := by
  have h : min ((delay base k).toNat * 2) 30000 = min (base * 2 ^ (k + 1)) 30000 := by
    rw [toNat_delay, Nat.pow_succ, ← Nat.mul_assoc]
    omega
  rw [h, delay]

theorem delay_mono (base : Nat) {j k : Nat} (h : j ≤ k) : delay base j ≤ delay base k := by
  have hpow : base * 2 ^ j ≤ base * 2 ^ k :=
    Nat.mul_le_mul_left base (Nat.pow_le_pow_right (by decide) h)
  rw [UInt64.le_iff_toNat_le, toNat_delay, toNat_delay]
  omega

theorem httpLoop_ok {cfg : ExporterConfig} {send : Nat → Except Str Unit} {attempt : Nat}
    (h : send attempt = .ok ()) (req : Request) (backoff : UInt64) :
    httpLoop cfg send req attempt backoff = (.ok (.ok ()), [.request req]) := by
  rw [httpLoop, h]

theorem httpLoop_last {cfg : ExporterConfig} {send : Nat → Except Str Unit} {attempt : Nat} {e : Str}
    (h : send attempt = .error e) (hlast : cfg.maxRetries.toNat ≤ attempt) (req : Request)
    (backoff : UInt64) : httpLoop cfg send req attempt backoff =
      (.ok (.error (.retriesExhausted cfg.maxRetries.toNat e)), [.request req]) := by
  rw [httpLoop, h]
  exact if_pos hlast

theorem checkedAdd_one {cfg : ExporterConfig} {attempt : Nat}
    (hleft : attempt < cfg.maxRetries.toNat) :
    checkedAdd (2 ^ 64) attempt 1 = some (attempt + 1) :=
  checkedAdd_eq_some.mpr ⟨by have := cfg.maxRetries.toNat_lt; omega, rfl⟩

theorem httpLoop_failed {cfg : ExporterConfig} {send : Nat → Except Str Unit} {attempt : Nat} {e : Str}
    (h : send attempt = .error e) (hleft : attempt < cfg.maxRetries.toNat) (req : Request)
    (backoff : UInt64) : httpLoop cfg send req attempt backoff =
      (checkedMul (2 ^ 64) backoff.toNat 2).elim
        (.error .overflow, [.request req, .sleep backoff]) (fun doubled =>
          ((httpLoop cfg send req (attempt + 1) (UInt64.ofNat (min doubled 30000))).1,
            .request req :: .sleep backoff ::
              (httpLoop cfg send req (attempt + 1) (UInt64.ofNat (min doubled 30000))).2)) := by
  rw [httpLoop, h]
  dsimp only
  rw [if_neg (Nat.not_le.mpr hleft)]
  split
  · next hnone => cases hnone.symm.trans (checkedAdd_one hleft)
  · next next' hsome =>
    cases hsome.symm.trans (checkedAdd_one hleft)
    cases checkedMul (2 ^ 64) backoff.toNat 2 with
    | none => rfl
    | some doubled => rfl

theorem httpLoop_retry {cfg : ExporterConfig} {send : Nat → Except Str Unit} {attempt : Nat} {e : Str}
    (h : send attempt = .error e) (hleft : attempt < cfg.maxRetries.toNat) (req : Request)
    {backoff : UInt64} (hdouble : backoff.toNat * 2 < 2 ^ 64) :
    httpLoop cfg send req attempt backoff =
      ((httpLoop cfg send req (attempt + 1) (UInt64.ofNat (min (backoff.toNat * 2) 30000))).1,
        .request req :: .sleep backoff ::
          (httpLoop cfg send req (attempt + 1) (UInt64.ofNat (min (backoff.toNat * 2) 30000))).2) := by
  rw [httpLoop_failed h hleft, checkedMul_eq_some.mpr ⟨hdouble, rfl⟩]
  rfl

theorem httpLoop_overflow {cfg : ExporterConfig} {send : Nat → Except Str Unit} {attempt : Nat}
    {e : Str} (h : send attempt = .error e) (hleft : attempt < cfg.maxRetries.toNat) (req : Request)
    {backoff : UInt64} (hdouble : ¬ backoff.toNat * 2 < 2 ^ 64) :
    httpLoop cfg send req attempt backoff = (.error .overflow, [.request req, .sleep backoff]) := by
  have hmul : checkedMul (2 ^ 64) backoff.toNat 2 = none := if_neg hdouble
  rw [httpLoop_failed h hleft, hmul]
  rfl

/-- From a delay below the cap, the loop sends until a success or the last
retry, which comes `n` requests later. -/
theorem httpLoop_spec (cfg : ExporterConfig) (send : Nat → Except Str Unit) (req : Request)
    (base attempt : Nat) (h : attempt ≤ cfg.maxRetries.toNat) :
    ∃ n result events, httpLoop cfg send req attempt (delay base attempt) = (.ok result, events) ∧
      attempt + n ≤ cfg.maxRetries.toNat ∧ (∀ j, attempt ≤ j → j < attempt + n → send j ≠ .ok ()) ∧
      (send (attempt + n) ≠ .ok () → attempt + n = cfg.maxRetries.toNat) ∧
      requests events = List.replicate (n + 1) req ∧
      sleeps events = (List.range n).map (fun k => delay base (attempt + k)) := by
  -- the induction is on the retries that are left
  obtain ⟨left, hleft⟩ := Nat.exists_eq_add_of_le h
  induction left generalizing attempt with
  | zero =>
    cases hs : send attempt with
    | ok u =>
      exact ⟨0, _, _, httpLoop_ok hs req _, h, by omega, fun hne => absurd hs hne, rfl, rfl⟩
    | error e =>
      exact ⟨0, _, _, httpLoop_last hs (by omega) req _, h, by omega, fun _ => by omega, rfl, rfl⟩
  | succ left ih =>
    cases hs : send attempt with
    | ok u =>
      exact ⟨0, _, _, httpLoop_ok hs req _, h, by omega, fun hne => absurd hs hne, rfl, rfl⟩
    | error e =>
      obtain ⟨n, result, events, hrun, hle, hfail, hlast, hreq, hsleep⟩ :=
        ih (attempt + 1) (by omega) (by omega)
      have hdouble : (delay base attempt).toNat * 2 < 2 ^ 64 := by
        rw [toNat_delay]
        omega
      refine ⟨n + 1, result, .request req :: .sleep (delay base attempt) :: events, ?_, by omega,
        ?_, ?_, ?_, ?_⟩
      · rw [httpLoop_retry hs (by omega) req hdouble, delay_succ, hrun]
      · intro j hj hlt
        obtain rfl | hj := Nat.eq_or_lt_of_le hj
        · simp [hs]
        · exact hfail j hj (by omega)
      · rw [show attempt + (n + 1) = attempt + 1 + n by omega]
        exact hlast
      · rw [List.replicate_succ, ← hreq]
        rfl
      · rw [List.range_succ_eq_map, List.map_cons, List.map_map]
        refine congrArg (delay base attempt :: ·) (hsleep.trans ?_)
        refine List.map_congr_left fun k _ => ?_
        simp only [Function.comp_apply, Nat.succ_eq_add_one]
        rw [show attempt + 1 + k = attempt + (k + 1) by omega]

theorem backsOff_of_run {cfg : ExporterConfig} {send : Nat → Except Str Unit} {req : Request} {n : Nat}
    {run : Except Fault (Except OtlpError Unit) × List Event} (hrun : ∃ result, run.1 = .ok result)
    (hle : n ≤ cfg.maxRetries.toNat) (hfail : ∀ j < n, send j ≠ .ok ())
    (hlast : send n ≠ .ok () → n = cfg.maxRetries.toNat)
    (hreq : requests run.2 = List.replicate (n + 1) req)
    (hsleep : sleeps run.2 = (List.range n).map (delay cfg.baseBackoffMs.toNat)) :
    BacksOff cfg send run := by
  have hcount : (requests run.2).length = n + 1 := by rw [hreq, List.length_replicate]
  constructor
  · exact hrun
  · rintro k ⟨hk, hbefore⟩
    rw [hcount]
    obtain hlt | rfl | hgt := Nat.lt_trichotomy n k
    · have := hlast (hbefore n hlt)
      omega
    · omega
    · exact absurd hk (hfail k hgt)
  · intro hnever
    rw [hcount, hlast (hnever n)]
  · intro k ms hk
    rw [hsleep, List.getElem?_map, Option.map_eq_some_iff] at hk
    obtain ⟨j, hj, rfl⟩ := hk
    obtain ⟨hlt, hkj⟩ := List.getElem?_eq_some_iff.mp hj
    rw [List.getElem_range] at hkj
    rw [toNat_delay, hkj]
  · intro ms hms
    rw [hsleep] at hms
    obtain ⟨k, -, rfl⟩ := List.mem_map.mp hms
    rw [UInt64.le_iff_toNat_le, toNat_delay]
    exact Nat.min_le_right _ _
  · rw [hsleep, List.pairwise_map]
    exact List.pairwise_lt_range.imp fun hlt => delay_mono _ (Nat.le_of_lt hlt)

theorem backsOff_of_once {cfg : ExporterConfig} {send : Nat → Except Str Unit}
    (h : cfg.maxRetries = 0 ∨ send 0 = .ok ()) (req : Request) (backoff : UInt64) :
    BacksOff cfg send (httpLoop cfg send req 0 backoff) := by
  cases hs : send 0 with
  | ok u =>
    rw [httpLoop_ok hs]
    exact backsOff_of_run ⟨_, rfl⟩ (Nat.zero_le _) (by simp) (fun hne => absurd hs hne) rfl rfl
  | error e =>
    have hmax : cfg.maxRetries.toNat = 0 := by
      obtain h | h := h
      · rw [h]
        rfl
      · cases hs.symm.trans h
    rw [httpLoop_last hs (by omega)]
    exact backsOff_of_run ⟨_, rfl⟩ (Nat.zero_le _) (by simp) (fun _ => hmax.symm) rfl rfl

theorem head_sleeps {cfg : ExporterConfig} {send : Nat → Except Str Unit} {e : Str}
    (h : send 0 = .error e) (hmax : cfg.maxRetries ≠ 0) (req : Request) (backoff : UInt64) :
    (sleeps (httpLoop cfg send req 0 backoff).2)[0]? = some backoff := by
  have hleft : 0 < cfg.maxRetries.toNat := Nat.pos_of_ne_zero fun h => hmax (UInt64.toNat_inj.mp h)
  by_cases hdouble : backoff.toNat * 2 < 2 ^ 64
  · rw [httpLoop_retry h hleft req hdouble]
    rfl
  · rw [httpLoop_overflow h hleft req hdouble]
    rfl

theorem httpLoop_completes (cfg : ExporterConfig) (send : Nat → Except Str Unit) (req : Request)
    {attempt : Nat} (h : attempt ≤ cfg.maxRetries.toNat) {backoff : UInt64}
    (hdouble : backoff.toNat * 2 < 2 ^ 64) :
    ∃ result, (httpLoop cfg send req attempt backoff).1 = .ok result := by
  obtain ⟨left, hleft⟩ := Nat.exists_eq_add_of_le h
  induction left generalizing attempt backoff with
  | zero =>
    cases hs : send attempt with
    | ok u => exact ⟨_, by rw [httpLoop_ok hs]⟩
    | error e => exact ⟨_, by rw [httpLoop_last hs (by omega)]⟩
  | succ left ih =>
    cases hs : send attempt with
    | ok u => exact ⟨_, by rw [httpLoop_ok hs]⟩
    | error e =>
      rw [httpLoop_retry hs (by omega) req hdouble]
      refine ih (by omega) ?_ (by omega)
      rw [UInt64.toNat_ofNat_of_lt' (Nat.lt_of_le_of_lt (Nat.min_le_right _ _) (by decide))]
      omega

theorem exportPayload_completes {cfg : ExporterConfig} (hbase : cfg.baseBackoffMs.toNat < 2 ^ 63)
    (env : Env) (index : Nat) (payload : LogsPayload) :
    ∃ result, (exportPayload cfg env index payload).1 = .ok result := by
  rw [exportPayload]
  split
  · exact ⟨_, rfl⟩
  · cases cfg.transport with
    | grpc => exact ⟨_, rfl⟩
    | http =>
      dsimp only
      rw [exportHttp]
      cases env.toVec payload with
      | error e => exact ⟨_, rfl⟩
      | ok body => exact httpLoop_completes cfg _ _ (Nat.zero_le _) (by omega)

theorem exportRecords_partitions {cfg : ExporterConfig} (hbase : cfg.baseBackoffMs.toNat < 2 ^ 63)
    (env : Env) (s : Slice) :
    ∃ outcome, (∀ j p, (exportPayload cfg env j p).1 = .ok (outcome j p)) ∧
      Partitioned (max cfg.batchSize.toNat 1) env.clock outcome s.records 0 0
        (exportRecords cfg env s).1 (exportRecords cfg env s).2 := by
  choose outcome houtcome using exportPayload_completes hbase env
  refine ⟨outcome, houtcome, ?_⟩
  have hattempt : (fun j p => (exportPayload cfg env j p).1) = fun j p => .ok (outcome j p) := by
    funext j p
    exact houtcome j p
  rw [exportRecords, hattempt]
  exact exportWith_partitions cfg env.clock outcome s

/-- The serializer accepts the payload, which has only texts, numbers, lists and
records with named fields. -/
def Serializes (env : Env) (payload : LogsPayload) : Prop := ∃ body, env.toVec payload = .ok body

/-- The retries keep to their schedule exactly if the delay starts below its cap
or is never slept. -/
theorem backsOff_iff (cfg : ExporterConfig) (env : Env) (index : Nat) (payload : LogsPayload)
    (hserde : Serializes env payload) :
    BacksOff cfg (env.sendBytes index) (exportHttp cfg env index payload) ↔
      cfg.baseBackoffMs ≤ 30000 ∨ cfg.maxRetries = 0 ∨ env.sendBytes index 0 = .ok () := by
  obtain ⟨body, hbody⟩ := hserde
  rw [exportHttp, hbody]
  constructor
  · intro h
    by_contra hno
    obtain ⟨hbase, hno⟩ := not_or.mp hno
    obtain ⟨hmax, hfail⟩ := not_or.mp hno
    cases hs : env.sendBytes index 0 with
    | ok u => exact hfail hs
    | error e =>
      have hfirst := h.delays 0 _ (head_sleeps hs hmax _ _)
      rw [UInt64.le_iff_toNat_le] at hbase
      simp at hbase hfirst
      omega
  · rintro (hbase | honce)
    · have hdelay : cfg.baseBackoffMs = delay cfg.baseBackoffMs.toNat 0 := by
        replace hbase : cfg.baseBackoffMs.toNat ≤ 30000 := UInt64.le_iff_toNat_le.mp hbase
        rw [delay, Nat.pow_zero, Nat.mul_one, Nat.min_eq_left hbase, UInt64.ofNat_toNat]
      obtain ⟨n, result, events, hrun, hle, hfail, hlast, hreq, hsleep⟩ :=
        httpLoop_spec cfg (env.sendBytes index) (postRequest cfg body) cfg.baseBackoffMs.toNat 0
          (Nat.zero_le _)
      rw [← hdelay] at hrun
      simp only [Nat.zero_add] at hle hfail hlast hsleep
      dsimp only
      rw [hrun]
      exact backsOff_of_run ⟨result, rfl⟩ hle (fun j => hfail j (Nat.zero_le j)) hlast hreq hsleep
    · exact backsOff_of_once honce _ _

def emptyPayload : LogsPayload := ⟨[]⟩

def emptyBody : Bytes := encode (['{'] ++ "\"resourceLogs\":[]".toList ++ ['}'])

def refusing (failures : Nat) : Env :=
  { clock := fun _ => some 0
    toVec := fun _ => .ok emptyBody
    sendBytes := fun _ k => if k < failures then .error "connection refused".toList else .ok ()
    grpc := none }

theorem backsOff_default :
    Serializes (refusing 2) emptyPayload ∧ BacksOff ExporterConfig.default
      ((refusing 2).sendBytes 0) (exportHttp ExporterConfig.default (refusing 2) 0 emptyPayload) := by
  have hserde : Serializes (refusing 2) emptyPayload := ⟨emptyBody, rfl⟩
  exact ⟨hserde, (backsOff_iff _ _ 0 _ hserde).mpr (Or.inl (by decide))⟩

def slow (base : UInt64) : ExporterConfig := { ExporterConfig.default with baseBackoffMs := base }

/-- A base of a minute is slept as it is, and a base of half the range overflows
when it is doubled. -/
theorem first_delay_uncapped :
    exportHttp (slow 60000) (refusing 1) 0 emptyPayload =
        (.ok (.ok ()), [.request (postRequest (slow 60000) emptyBody), .sleep 60000,
          .request (postRequest (slow 60000) emptyBody)]) ∧
      ¬ BacksOff (slow 60000) ((refusing 1).sendBytes 0)
        (exportHttp (slow 60000) (refusing 1) 0 emptyPayload) ∧
      (exportHttp (slow 9223372036854775808) (refusing 1) 0 emptyPayload).1 = .error .overflow := by
  have hfail : (refusing 1).sendBytes 0 0 = .error "connection refused".toList := rfl
  have hok : (refusing 1).sendBytes 0 (0 + 1) = .ok () := rfl
  have hrun : exportHttp (slow 60000) (refusing 1) 0 emptyPayload =
      (.ok (.ok ()), [.request (postRequest (slow 60000) emptyBody), .sleep 60000,
        .request (postRequest (slow 60000) emptyBody)]) := by
    show httpLoop (slow 60000) ((refusing 1).sendBytes 0) _ 0 60000 = _
    rw [httpLoop_retry hfail (by decide) _ (by decide), httpLoop_ok hok]
  refine ⟨hrun, fun h => ?_, ?_⟩
  · have hcap := h.capped 60000 (by rw [hrun]; decide)
    exact absurd hcap (by decide)
  · show (httpLoop (slow 9223372036854775808) ((refusing 1).sendBytes 0) _ 0
      9223372036854775808).1 = _
    rw [httpLoop_overflow hfail (by decide) _ (by decide)]

end Retries

end TptTelemetry.Otlp.Exporter
