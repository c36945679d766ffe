import TptTelemetry.Framing.Chunking

namespace TptTelemetry.Server.Connection

open TptTelemetry.Lib TptTelemetry.Lib.Utf8
open TptTelemetry.Framing.Decoder TptTelemetry.Framing.Steps TptTelemetry.Framing.Chunking

inductive Transport
  | udp
  | tcp
  deriving DecidableEq, Repr

inductive Framing
  | datagram
  | rfc3164Lf
  | rfc5424OctetCounting
  deriving DecidableEq, Repr

/-- A received message, from an address of the given type. -/
structure Message (α : Type) where
  transport : Transport
  remote : α
  framing : Framing
  payload : Bytes
  deriving DecidableEq, Repr

/-- What an iteration of the connection loop finds: the stop flag, or else what
the read returns. A read of no bytes is the end of the stream. -/
inductive Poll
  | stopped
  | ok (data : Bytes)
  | wouldBlock
  | timedOut
  | failed
  deriving DecidableEq, Repr

/-- The variables of `tcp_conn_loop`, and the messages passed to `deliver`. -/
structure Conn (α : Type) where
  decoder : TcpDecoder
  frames : List Bytes
  delivered : List (Message α)

variable {α : Type} (addr : α) (framing : TcpFraming)

def message (f : Bytes) : Message α :=
  ⟨.tcp, addr, if framing = .octetCounting then .rfc5424OctetCounting else .rfc3164Lf, f⟩

def deliverFrames (c : Conn α) : Conn α :=
  { c with frames := [], delivered := c.delivered ++ c.frames.map (message addr framing) }

/-- One iteration, and whether the loop goes on. The frames of a push that fails
stay in hand. -/
def connStep (c : Conn α) : Poll → Conn α × Bool
  | .stopped => (c, false)
  | .ok data =>
    if data = [] then (c, false)
    else
      let r := push c.decoder data
      let c := { c with decoder := r.state, frames := c.frames ++ r.out }
      match r.error with
      | none => (deliverFrames addr framing c, true)
      | some (.frameTooLarge _ _) => (c, false)
  | .wouldBlock | .timedOut => (c, true)
  | .failed => (c, false)

def close (c : Conn α) : Conn α :=
  let (rest, decoder) := flush c.decoder
  deliverFrames addr framing { c with decoder := decoder, frames := c.frames ++ rest }

/-- The connection loop along what its iterations find, and whether it has
returned. -/
def connLoop (c : Conn α) : List Poll → Conn α × Bool
  | [] => (c, false)
  | p :: polls =>
    match connStep addr framing c p with
    | (c, true) => connLoop c polls
    | (c, false) => (close addr framing c, true)

def tcpConnLoop (maxFrameLen : Nat) (polls : List Poll) : Conn α × Bool :=
  connLoop addr framing ⟨.new framing maxFrameLen, [], []⟩ polls

def received : List Poll → List Bytes
  | [] => []
  | .ok data :: polls => if data = [] then [] else data :: received polls
  | .wouldBlock :: polls | .timedOut :: polls => received polls
  | .stopped :: _ | .failed :: _ => []

def Ends (polls : List Poll) : Prop := Poll.stopped ∈ polls ∨ .ok [] ∈ polls ∨ .failed ∈ polls

def payloads (c : Conn α) : List Bytes := c.delivered.map Message.payload

theorem flush_length (d : TcpDecoder) : (flush d).1.length ≤ 1 := by
  rw [flush]
  split <;> simp

theorem close_delivered (c : Conn α) : (close addr framing c).delivered =
    c.delivered ++ (c.frames ++ (flush c.decoder).1).map (message addr framing) := rfl

/-- What the loop passes on from the state `c`: the frames of the pushes to
come and, once it has returned, what is flushed behind them. -/
def Passes (c : Conn α) (chunks : List Bytes) (r : Conn α × Bool) : Prop :=
  ∃ rest, r.1.delivered =
      c.delivered ++ ((pushAll c.decoder chunks).out ++ rest).map (message addr framing) ∧
    (r.2 = true → rest = (flush (pushAll c.decoder chunks).state).1) ∧
    (r.2 = false → rest = [] ∧ (pushAll c.decoder chunks).error = none)

theorem passes_close {c : Conn α} (hf : c.frames = []) :
    Passes addr framing c [] (close addr framing c, true) := by
  refine ⟨(flush c.decoder).1, ?_, fun _ => rfl, nofun⟩
  rw [close_delivered, hf]
  rfl

theorem passes_connLoop (polls : List Poll) {c : Conn α} (hf : c.frames = []) :
    Passes addr framing c (received polls) (connLoop addr framing c polls) := by
  induction polls generalizing c with
  | nil =>
    refine ⟨[], by simp [connLoop, received, pushAll, Incremental.run], fun h => ?_,
      fun _ => ⟨rfl, rfl⟩⟩
    cases h
  | cons p polls ih =>
    cases p with
    | stopped | failed => exact passes_close addr framing hf
    | wouldBlock | timedOut => exact ih hf
    | ok data =>
      by_cases hd : data = []
      · simp only [connLoop, connStep, received, hd, if_true]
        exact passes_close addr framing hf
      cases he : (push c.decoder data).error with
      | none =>
        simp only [connLoop, connStep, received, hd, if_false, he]
        obtain ⟨rest, hout, hret, hrun⟩ := ih (c := deliverFrames addr framing
          { c with decoder := (push c.decoder data).state,
                   frames := c.frames ++ (push c.decoder data).out }) rfl
        rw [Passes, pushAll_cons_ok _ he]
        refine ⟨rest, ?_, hret, hrun⟩
        rw [hout]
        simp [deliverFrames, hf, Incremental.Outcome.prepend]
      | some e =>
        simp only [connLoop, connStep, received, hd, if_false, he]
        rw [Passes, pushAll_cons_error _ he]
        refine ⟨(flush (push c.decoder data).state).1, ?_, fun _ => rfl, fun h => ?_⟩
        · rw [close_delivered, hf]
          rfl
        · cases h

theorem ends_cons {p : Poll} {polls : List Poll} (hp : ¬ Ends [p]) : Ends (p :: polls) ↔ Ends polls := by
  simp only [Ends, List.mem_cons, List.not_mem_nil, or_false] at hp ⊢
  tauto

theorem connLoop_returned (polls : List Poll) (c : Conn α) : (connLoop addr framing c polls).2 = true ↔
    Ends polls ∨ (pushAll c.decoder (received polls)).error ≠ none := by
  induction polls generalizing c with
  | nil => simp [connLoop, Ends, received, pushAll, Incremental.run]
  | cons p polls ih =>
    cases p with
    | stopped | failed => exact iff_of_true rfl (Or.inl (by simp [Ends]))
    | wouldBlock | timedOut =>
      rw [ends_cons (by simp [Ends])]
      exact ih c
    | ok data =>
      by_cases hd : data = []
      · simp [connLoop, connStep, Ends, hd]
      rw [ends_cons (by simpa [Ends, eq_comm] using hd)]
      cases he : (push c.decoder data).error with
      | none =>
        simp only [connLoop, connStep, received, hd, if_false, he, pushAll_cons_ok _ he]
        exact ih _
      | some e =>
        simp only [connLoop, connStep, received, hd, if_false, he, pushAll_cons_error _ he]
        simp

/-- A connection passes on each decoded frame once: the frames of all pushes,
those of a push that fails included, and behind them at most the flushed rest.
When a push fails nothing is flushed: all that has been passed on stood in front
of the frame that is rejected. -/
theorem delivers_once (maxFrameLen : Nat) (polls : List Poll) :
    (∃ rest, payloads (tcpConnLoop addr framing maxFrameLen polls).1 =
        (pushAll (.new framing maxFrameLen) (received polls)).out ++ rest ∧ rest.length ≤ 1 ∧
      ((tcpConnLoop addr framing maxFrameLen polls).2 = true →
        rest = (flush (pushAll (.new framing maxFrameLen) (received polls)).state).1) ∧
      ((tcpConnLoop addr framing maxFrameLen polls).2 = false → rest = [])) ∧
    ∀ e, (pushAll (.new framing maxFrameLen) (received polls)).error = some e →
      (tcpConnLoop addr framing maxFrameLen polls).2 = true ∧
      ∃ past c later t, received polls = past ++ c :: later ∧
        (pushAll (.new framing maxFrameLen) past).error = none ∧ Rejects t e ∧
        Accounts (past ++ [c]).flatten (payloads (tcpConnLoop addr framing maxFrameLen polls).1)
          t.buf := by
  obtain ⟨rest, hout, hret, hrun⟩ :=
    passes_connLoop addr framing polls (c := ⟨.new framing maxFrameLen, [], []⟩) rfl
  have hpay : payloads (tcpConnLoop addr framing maxFrameLen polls).1 =
      (pushAll (.new framing maxFrameLen) (received polls)).out ++ rest := by
    rw [payloads, tcpConnLoop, hout, List.nil_append, List.map_map]
    exact List.map_id _
  refine ⟨⟨rest, hpay, ?_, hret, fun h => (hrun h).1⟩, fun e he => ?_⟩
  · cases hr : (connLoop addr framing ⟨.new framing maxFrameLen, [], []⟩ polls).2 with
    | true =>
      rw [hret hr]
      exact flush_length _
    | false => simp [(hrun hr).1]
  · obtain ⟨hbuf, past, c, later, t, hc, hp, hrej, hacc⟩ := pushAll_rejects he
    have hended : (tcpConnLoop addr framing maxFrameLen polls).2 = true := by
      by_contra hr
      have hnone := (hrun (Bool.eq_false_of_not_eq_true hr)).2
      rw [he] at hnone
      cases hnone
    have hrest : rest = [] := by
      rw [hret hended, flush, if_pos hbuf]
    refine ⟨hended, past, c, later, t, hc, hp, hrej, ?_⟩
    rw [hpay, hrest, List.append_nil]
    exact hacc

example : payloads (tcpConnLoop () .octetCounting 4
    [.ok (encode "2 ab9 x".toList), .ok (encode "1 c".toList)]).1 = [encode "ab".toList] := by
  decide +kernel

end TptTelemetry.Server.Connection
