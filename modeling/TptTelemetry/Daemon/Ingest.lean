import TptTelemetry.Daemon.Worker
import TptTelemetry.Framing.Dedicated
import TptTelemetry.Framing.Mixed
import TptTelemetry.Otlp.Exporter
import TptTelemetry.Otlp.Json
import TptTelemetry.Server.Connection

namespace TptTelemetry.Daemon.Ingest

open TptTelemetry.Framing TptTelemetry.Lib TptTelemetry.Lib.Incremental TptTelemetry.Lib.Utf8 TptTelemetry.Lib.Text
open TptTelemetry.Lib.Numeral TptTelemetry.Lib.Concurrency TptTelemetry.Lib.Simulation
open TptTelemetry.Framing.Decoder TptTelemetry.Framing.Steps TptTelemetry.Framing.Wire
open TptTelemetry.Framing.Dedicated TptTelemetry.Server.Connection
open TptTelemetry.Compiler.Scalar TptTelemetry.Compiler.Compile TptTelemetry.Compiler.Typed
open TptTelemetry.Otlp.Model TptTelemetry.Otlp.Grpc TptTelemetry.Otlp.Exporter
open TptTelemetry.Daemon.Pipeline TptTelemetry.Daemon.Worker

section Export

variable (cfg : ExporterConfig)

def fromRef (rec : Record) : Slice := ⟨[rec], Nat.one_lt_two_pow (by decide)⟩

def exportOne (env : Env) (rec : Record) : Except Fault (Except OtlpError Unit) × List LogsPayload :=
  exportRecords cfg env (fromRef rec)

/-- Whatever the batch size, one record makes one payload. -/
theorem exportOne_eq (env : Env) (rec : Record) : exportOne cfg env rec =
    ((exportPayload cfg env 0 (recordsToPayload env.clock [rec] cfg.scopeName)).1,
      [recordsToPayload env.clock [rec] cfg.scopeName]) := by
  have hlt : cfg.batchSize.toNat < 2 ^ 64 := cfg.batchSize.toNat_lt
  have hadd : checkedAdd (2 ^ 64) 0 (max cfg.batchSize.toNat 1) = some (max cfg.batchSize.toNat 1) :=
    checkedAdd_eq_some.mpr ⟨by omega, by omega⟩
  have hstop : min (max cfg.batchSize.toNat 1) 1 = 1 := by omega
  have hlen : (fromRef rec).records.length = 1 := rfl
  rw [exportOne, exportRecords, exportWith, if_neg (by simp [fromRef]), batchLoop, hlen,
    if_pos Nat.zero_lt_one]
  split
  · next hnone => cases hnone.symm.trans hadd
  · next sum hsome =>
    cases hsome.symm.trans hadd
    have hrange : (fromRef rec).range 0 1 = .ok [rec] := rfl
    simp only [hstop, hrange, Nat.zero_add]
    split
    · next hok =>
      rw [batchLoop, hlen, if_neg (Nat.lt_irrefl 1), hok]
    · next hfailed => rfl

/-- The payloads for the records that the worker hands over, when `envs` is
what each export meets. -/
def attempted (envs : Nat → Env) (handed : List Record) : List LogsPayload :=
  (handed.mapIdx (fun k rec => (exportOne cfg (envs k) rec).2)).flatten

end Export

section Senders

/-- What a sender writes for its messages, in the framing that the server is
set to. -/
inductive Sends (maxFrameLen : Nat) : TcpFraming → List Bytes → Bytes → Prop
  | counted {msgs : List Bytes}
    (h : ∀ m ∈ msgs, Countable (TcpDecoder.new .octetCounting maxFrameLen).maxFrameLen m) :
    Sends maxFrameLen .octetCounting msgs (msgs.flatMap counted)
  | lines {ls : List Line}
    (h : ∀ l ∈ ls, l.Plain (TcpDecoder.new .nonTransparent maxFrameLen).maxFrameLen) :
    Sends maxFrameLen .nonTransparent (ls.map Line.payload) (ls.flatMap Line.wire)
  | mixed {xs : List Mixed.Sent}
    (h : ∀ x ∈ xs, x.Plain (TcpDecoder.new .auto maxFrameLen).maxFrameLen) :
    Sends maxFrameLen .auto (xs.map Mixed.Sent.payload) (xs.flatMap Mixed.Sent.wire)

variable {α : Type} {framing : TcpFraming} {maxFrameLen : Nat} {msgs : List Bytes} {stream : Bytes}

end Senders

def parsed (C : Chrono) (cs : CompiledSchema) (line : Str) : Option Record :=
  match Compiler.Typed.parseLine C cs line with
  | .ok found => found
  | .error _ => none

variable {C : Chrono} {cs : CompiledSchema}

def succeeds (cfg : ExporterConfig) (envs : Nat → Env) (k : Nat) (rec : Record) : Bool :=
  decide ((exportOne cfg (envs k) rec).1 = .ok (.ok ()))

def willing : Env :=
  { clock := fun _ => some 7
    toVec := fun p => .ok (Otlp.Json.toVec (fun _ => Otlp.Json.half) p)
    sendBytes := fun _ _ => .ok ()
    grpc := none }

theorem succeeds_willing : succeeds .default (fun _ => willing) = fun _ _ => true := by
  funext k rec
  rw [succeeds, exportOne_eq, exportPayload, if_neg (by decide)]
  exact decide_eq_true (congrArg Prod.fst (httpLoop_ok rfl _ _))

end TptTelemetry.Daemon.Ingest
