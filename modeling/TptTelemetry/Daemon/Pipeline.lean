import Mathlib.Data.Multiset.AddSub
import Mathlib.Data.Multiset.Count
import TptTelemetry.Compiler.Boundaries
import TptTelemetry.Lib.Concurrency

namespace TptTelemetry.Daemon.Pipeline

open TptTelemetry.Lib.Concurrency TptTelemetry.Lib.Utf8 TptTelemetry.Lib.Text
open TptTelemetry.Compiler.Scalar TptTelemetry.Compiler.Compile TptTelemetry.Compiler.Typed

structure Message where
  payload : Bytes
  deriving DecidableEq, Repr

inductive Worker
  | loop
  | polling
  | got (msg : Message)
  | counted (msg : Message)
  | exporting (msg : Message) (rec : Record)
  | exportDone (msg : Message) (ok : Bool)
  | finished
  | panicked (msg : Message)
  deriving DecidableEq

/-- The ring buffer, the producers that are between their `try_send` and their
counter, the counters, the worker, and what has happened so far. -/
structure State where
  ring : Channel Message
  senders : Bool
  pending : Multiset SendResult
  delivered : Nat
  droppedFull : Nat
  droppedDisconnected : Nat
  stop : Bool
  worker : Worker
  received : Nat
  exported : Nat
  errors : Nat
  calls : Nat
  enqueued : List Message
  processed : List Message
  discarded : List Message
  deriving DecidableEq

def State.init (ringCapacity : Nat) : State :=
  ⟨syncChannel (max ringCapacity 1), true, 0, 0, 0, 0, false, .loop, 0, 0, 0, 0, [], [], []⟩

/-- The atomic steps of the producers, of the worker, and of the owners of the
two ends of the channel. -/
inductive Event
  | trySend (msg : Message)
  | countSend (result : SendResult)
  | dropSenders
  | requestStop
  | loadStop
  | recv
  | timeout
  | disconnected
  | countReceived
  | parseLine
  | exportDone (ok : Bool)
  | countExport
  | dropServer
  deriving DecidableEq

def bump (s : State) : SendResult → State
  | .ok => { s with delivered := s.delivered + 1 }
  | .full => { s with droppedFull := s.droppedFull + 1 }
  | .disconnected => { s with droppedDisconnected := s.droppedDisconnected + 1 }

def parseText (C : Chrono) (cs : CompiledSchema) (msg : Message) : Except Panic (Option Record) :=
  Compiler.Typed.parseLine C cs (fromUtf8Lossy msg.payload)

def unmatched (C : Chrono) (cs : CompiledSchema) (msg : Message) : Bool :=
  decide (parseText C cs msg = .ok none)

def step (C : Chrono) (cs : CompiledSchema) (s : State) : Event → Option State
  | .trySend msg =>
    if s.senders then
      let (result, ring) := s.ring.trySend msg
      some { s with
        ring := ring
        pending := result ::ₘ s.pending
        calls := s.calls + 1
        enqueued := if result = .ok then s.enqueued ++ [msg] else s.enqueued }
    else none
  | .countSend result =>
    if result ∈ s.pending then some (bump { s with pending := s.pending.erase result } result)
    else none
  -- the senders are owned by the receiver threads, which end outside `deliver`
  | .dropSenders => if s.pending = 0 then some { s with senders := false } else none
  | .requestStop => some { s with stop := true }
  | .loadStop =>
    match s.worker with
    | .loop => some { s with worker := if s.stop then .finished else .polling }
    | _ => none
  | .recv =>
    match s.worker, s.ring.recv with
    | .polling, some (msg, ring) => some { s with worker := .got msg, ring := ring }
    | _, _ => none
  | .timeout =>
    match s.worker with
    | .polling => some { s with worker := .loop }
    | _ => none
  | .disconnected =>
    match s.worker with
    | .polling =>
      if s.senders = false ∧ s.ring.queue = [] then some { s with worker := .finished } else none
    | _ => none
  | .countReceived =>
    match s.worker with
    | .got msg => some { s with worker := .counted msg, received := s.received + 1 }
    | _ => none
  | .parseLine =>
    match s.worker with
    | .counted msg =>
      match parseText C cs msg with
      | .error _ => some { s with worker := .panicked msg }
      | .ok none => some { s with worker := .loop, processed := s.processed ++ [msg] }
      | .ok (some rec) => some { s with worker := .exporting msg rec }
    | _ => none
  | .exportDone ok =>
    match s.worker with
    | .exporting msg _ => some { s with worker := .exportDone msg ok }
    | _ => none
  | .countExport =>
    match s.worker with
    | .exportDone msg true =>
      some { s with
        worker := .loop, exported := s.exported + 1, processed := s.processed ++ [msg] }
    | .exportDone msg false =>
      some { s with worker := .loop, errors := s.errors + 1, processed := s.processed ++ [msg] }
    | _ => none
  -- the worker holds the server, and the server the receiving end
  | .dropServer =>
    match s.worker with
    | .finished | .panicked _ =>
      some { s with ring := s.ring.dropReceiver, discarded := s.ring.queue ++ s.discarded }
    | _ => none

def inHand : Worker → List Message
  | .got msg | .counted msg | .exporting msg _ | .exportDone msg _ | .panicked msg => [msg]
  | .loop | .polling | .finished => []

def inHandCounted : Worker → Nat
  | .counted _ | .exporting _ _ | .exportDone _ _ | .panicked _ => 1
  | .got _ | .loop | .polling | .finished => 0

/-- A message is exported only if a format matched it. -/
def Matched (C : Chrono) (cs : CompiledSchema) : Worker → Prop
  | .exporting msg _ | .exportDone msg _ => unmatched C cs msg = false
  | _ => True

/-- The worker has left its loop, and no longer holds the server. -/
def ended : Worker → Bool
  | .finished | .panicked _ => true
  | _ => false

structure Inv (C : Chrono) (cs : CompiledSchema) (ringCapacity : Nat) (s : State) : Prop where
  calls : s.calls = s.delivered + s.droppedFull + s.droppedDisconnected + s.pending.card
  sent : s.enqueued.length = s.delivered + s.pending.count .ok
  order : s.enqueued = s.processed ++ inHand s.worker ++ s.ring.queue ++ s.discarded
  received : s.received = s.processed.length + inHandCounted s.worker
  outcomes : s.processed.length = s.exported + s.errors + s.processed.countP (unmatched C cs)
  matched : Matched C cs s.worker
  capacity : s.ring.capacity = max ringCapacity 1
  alive : ended s.worker = false → s.ring.connected = true
  kept : s.ring.connected = true → s.discarded = []

variable {C : Chrono} {cs : CompiledSchema} {ringCapacity : Nat} {s s' : State}

theorem inv_init : Inv C cs ringCapacity (State.init ringCapacity) :=
  ⟨rfl, rfl, rfl, rfl, rfl, trivial, rfl, fun _ => rfl, fun _ => rfl⟩

theorem inv_trySend {msg : Message} (hi : Inv C cs ringCapacity s)
    (h : step C cs s (.trySend msg) = some s') : Inv C cs ringCapacity s' := by
  obtain ⟨hcalls, hsent, horder, hrec, hout, hmat, hcap, halive, hkept⟩ := hi
  simp only [step] at h
  split at h <;> cases h
  have hcalls' : ∀ r : SendResult, s.calls + 1 =
      s.delivered + s.droppedFull + s.droppedDisconnected + (r ::ₘ s.pending).card := by
    intro r
    rw [Multiset.card_cons, hcalls, Nat.add_assoc]
  obtain ⟨-, ht⟩ | ⟨hc, ring, ht, hq, hc', hcap'⟩ | ⟨-, -, ht⟩ := s.ring.trySend_cases msg <;> rw [ht]
  · refine ⟨hcalls' _, ?_, horder, hrec, hout, hmat, hcap, halive, hkept⟩
    simpa using hsent
  · refine ⟨hcalls' _, ?_, ?_, hrec, hout, hmat, hcap'.trans hcap, fun _ => hc', fun _ => hkept hc⟩
    · simp [hsent, Nat.add_assoc]
    · simp [horder, hq, hkept hc]
  · refine ⟨hcalls' _, ?_, horder, hrec, hout, hmat, hcap, halive, hkept⟩
    simpa using hsent

theorem inv_countSend {result : SendResult} (hi : Inv C cs ringCapacity s)
    (h : step C cs s (.countSend result) = some s') : Inv C cs ringCapacity s' := by
  obtain ⟨hcalls, hsent, horder, hrec, hout, hmat, hcap, halive, hkept⟩ := hi
  simp only [step] at h
  split at h <;> cases h
  next hmem =>
  have hcard := Multiset.card_erase_add_one hmem
  cases result with
  | ok =>
    have hpos : 0 < s.pending.count .ok := Multiset.count_pos.mpr hmem
    refine ⟨?_, ?_, horder, hrec, hout, hmat, hcap, halive, hkept⟩
    · simp only [bump]
      omega
    · simp only [bump, Multiset.count_erase_self]
      omega
  | full =>
    refine ⟨?_, ?_, horder, hrec, hout, hmat, hcap, halive, hkept⟩
    · simp only [bump]
      omega
    · simpa [bump] using hsent
  | disconnected =>
    refine ⟨?_, ?_, horder, hrec, hout, hmat, hcap, halive, hkept⟩
    · simp only [bump]
      omega
    · simpa [bump] using hsent

theorem inv_recv (hi : Inv C cs ringCapacity s) (h : step C cs s .recv = some s') :
    Inv C cs ringCapacity s' := by
  obtain ⟨hcalls, hsent, horder, hrec, hout, hmat, hcap, halive, hkept⟩ := hi
  simp only [step] at h
  split at h <;> cases h
  next msg ring hw hr =>
  obtain ⟨hq, hc, hcap'⟩ := Channel.recv_some hr
  rw [hw] at horder hrec halive
  refine ⟨hcalls, hsent, ?_, hrec, hout, trivial, hcap'.trans hcap, ?_, ?_⟩
  · simp [horder, hq, inHand]
  · exact fun h => hc.trans (halive h)
  · exact fun h => hkept (hc.symm.trans h)

theorem inv_move {v w : Worker} (hi : Inv C cs ringCapacity s) (hv : s.worker = v)
    (hh : inHand v = inHand w) (hc : inHandCounted v = inHandCounted w) (hm : Matched C cs w)
    (he : ended v = false) : Inv C cs ringCapacity { s with worker := w } := by
  obtain ⟨hcalls, hsent, horder, hrec, hout, -, hcap, halive, hkept⟩ := hi
  rw [hv] at horder hrec halive
  rw [hh] at horder
  rw [hc] at hrec
  exact ⟨hcalls, hsent, horder, hrec, hout, hm, hcap, fun _ => halive he, hkept⟩

theorem inv_done {v : Worker} {msg : Message} {exported errors : Nat}
    (hi : Inv C cs ringCapacity s) (hv : s.worker = v) (hh : inHand v = [msg])
    (hc : inHandCounted v = 1) (he : ended v = false)
    (hx : exported + errors + (if unmatched C cs msg then 1 else 0) = s.exported + s.errors + 1) :
    Inv C cs ringCapacity { s with
      worker := .loop, exported := exported, errors := errors, processed := s.processed ++ [msg] } := by
  obtain ⟨hcalls, hsent, horder, hrec, hout, -, hcap, halive, hkept⟩ := hi
  rw [hv] at horder hrec halive
  rw [hh] at horder
  rw [hc] at hrec
  refine ⟨hcalls, hsent, ?_, ?_, ?_, trivial, hcap, fun _ => halive he, hkept⟩
  · simp [horder, inHand]
  · simp [hrec, inHandCounted]
  · rw [List.length_append, List.countP_append, List.countP_singleton, List.length_singleton]
    dsimp only
    omega

theorem inv_parseLine (hi : Inv C cs ringCapacity s) (h : step C cs s .parseLine = some s') :
    Inv C cs ringCapacity s' := by
  simp only [step] at h
  split at h
  · next msg hw =>
    split at h <;> cases h
    · exact inv_move hi hw rfl rfl trivial rfl
    · next hp =>
      have hu : unmatched C cs msg = true := decide_eq_true hp
      exact inv_done hi hw rfl rfl rfl (by rw [if_pos hu])
    · next rec hp =>
      have hu : unmatched C cs msg = false := by
        rw [unmatched, hp]
        rfl
      exact inv_move hi hw rfl rfl hu rfl
  · cases h

theorem inv_countExport (hi : Inv C cs ringCapacity s) (h : step C cs s .countExport = some s') :
    Inv C cs ringCapacity s' := by
  have hm := hi.matched
  simp only [step] at h
  split at h <;> cases h
  all_goals
    next msg hw =>
    rw [hw] at hm
    refine inv_done hi hw rfl rfl rfl ?_
    rw [show unmatched C cs msg = false from hm]
    simp only [Bool.false_eq_true, if_false]
    omega

theorem inv_dropServer (hi : Inv C cs ringCapacity s) (h : step C cs s .dropServer = some s') :
    Inv C cs ringCapacity s' := by
  obtain ⟨hcalls, hsent, horder, hrec, hout, hmat, hcap, halive, hkept⟩ := hi
  have hended : ended s.worker = true ∧ s' =
      { s with ring := s.ring.dropReceiver, discarded := s.ring.queue ++ s.discarded } := by
    simp only [step] at h
    split at h <;> cases h
    all_goals
      next hw =>
      rw [hw]
      exact ⟨rfl, rfl⟩
  obtain ⟨hended, rfl⟩ := hended
  refine ⟨hcalls, hsent, ?_, hrec, hout, hmat, hcap, ?_, ?_⟩
  · simp [horder, Channel.dropReceiver]
  · rw [hended]
    intro h
    cases h
  · intro h
    cases h

theorem inv_step {e : Event} (hi : Inv C cs ringCapacity s) (h : step C cs s e = some s') :
    Inv C cs ringCapacity s' := by
  cases e with
  | trySend msg => exact inv_trySend hi h
  | countSend result => exact inv_countSend hi h
  | dropSenders =>
    simp only [step] at h
    split at h <;> cases h
    exact ⟨hi.1, hi.2, hi.3, hi.4, hi.5, hi.6, hi.7, hi.8, hi.9⟩
  | requestStop =>
    cases h
    exact ⟨hi.1, hi.2, hi.3, hi.4, hi.5, hi.6, hi.7, hi.8, hi.9⟩
  | loadStop =>
    simp only [step] at h
    split at h <;> cases h
    next hw =>
    split
    · exact inv_move hi hw rfl rfl trivial rfl
    · exact inv_move hi hw rfl rfl trivial rfl
  | recv => exact inv_recv hi h
  | timeout =>
    simp only [step] at h
    split at h <;> cases h
    next hw => exact inv_move hi hw rfl rfl trivial rfl
  | disconnected =>
    simp only [step] at h
    split at h
    · next hw =>
      split at h <;> cases h
      exact inv_move hi hw rfl rfl trivial rfl
    · cases h
  | countReceived =>
    simp only [step] at h
    split at h <;> cases h
    next msg hw =>
    obtain ⟨hcalls, hsent, horder, hrec, hout, hmat, hcap, halive, hkept⟩ := hi
    rw [hw] at horder hrec halive
    exact ⟨hcalls, hsent, horder, by simp [hrec, inHandCounted], hout, trivial, hcap, halive, hkept⟩
  | parseLine => exact inv_parseLine hi h
  | exportDone ok =>
    have hm := hi.matched
    simp only [step] at h
    split at h <;> cases h
    next msg rec hw =>
    rw [hw] at hm
    exact inv_move hi hw rfl rfl hm rfl
  | countExport => exact inv_countExport hi h
  | dropServer => exact inv_dropServer hi h

/-- The worker has no message in hand. -/
def Between (s : State) : Prop :=
  s.worker = .loop ∨ s.worker = .polling ∨ s.worker = .finished

/-- Every call of `deliver` is in one counter, every delivered message is
received, queued or has gone with the ring, every received message has one
outcome, and the messages are processed in the order of the ring. -/
structure Accounted (C : Chrono) (cs : CompiledSchema) (ringCapacity : Nat) (s : State) : Prop where
  calls : s.calls = s.delivered + s.droppedFull + s.droppedDisconnected
  delivered : s.delivered = s.received + s.ring.queue.length + s.discarded.length
  kept : s.ring.connected = true → s.discarded = []
  bounded : s.ring.queue.length ≤ max ringCapacity 1
  received : s.received = s.exported + s.errors + s.processed.countP (unmatched C cs)
  order : s.enqueued = s.processed ++ s.ring.queue ++ s.discarded

theorem inHand_of_between (hw : Between s) :
    inHand s.worker = [] ∧ inHandCounted s.worker = 0 := by
  obtain hw | hw | hw := hw <;> rw [hw] <;> exact ⟨rfl, rfl⟩

/-- Between messages, all that got into the ring is processed, queued or has
gone with the ring. -/
theorem order_of_between (hi : Inv C cs ringCapacity s) (hw : Between s) :
    s.enqueued = s.processed ++ s.ring.queue ++ s.discarded := by
  have horder := hi.order
  rwa [(inHand_of_between hw).1, List.append_nil] at horder

/-- In every interleaving, whenever no producer is about to count and the worker
is between messages, nothing is counted twice, and nothing is lost but what was
queued when the ring was dropped. -/
theorem pipeline_accounts {events : List Event}
    (h : run (step C cs) (State.init ringCapacity) events = some s) (hp : s.pending = 0)
    (hw : Between s) : Accounted C cs ringCapacity s := by
  have hi : Inv C cs ringCapacity s := run_invariant inv_step inv_init h
  have hcalls := hi.calls
  have hsent := hi.sent
  have hrec := hi.received
  have horder := order_of_between hi hw
  rw [hp, Multiset.card_zero, Nat.add_zero] at hcalls
  rw [hp, Multiset.count_zero, Nat.add_zero] at hsent
  rw [(inHand_of_between hw).2, Nat.add_zero] at hrec
  refine ⟨hcalls, ?_, hi.kept, ?_, hrec.trans hi.outcomes, horder⟩
  · rw [← hsent, horder, List.length_append, List.length_append, hrec]
  · rw [← hi.capacity]
    exact s.ring.bounded

/-- Two datagrams for a ring of one place: the second is dropped, and the first
is received, parsed and exported. -/
def burst : List Event :=
  [.trySend ⟨[53]⟩, .trySend ⟨[54]⟩, .countSend .full, .loadStop, .recv, .countReceived,
    .countSend .ok, .parseLine, .exportDone true, .countExport]

def countOnly : CompiledSchema := ⟨[⟨"Count".toList, [.capture "n".toList .int], [], []⟩]⟩

def afterBurst : State :=
  ⟨syncChannel 1, true, 0, 1, 1, 0, false, .loop, 1, 1, 0, 2, [⟨[53]⟩], [⟨[53]⟩], []⟩

theorem pipeline_accounts_burst :
    run (step noTimestamps countOnly) (State.init 0) burst = some afterBurst ∧
      Accounted noTimestamps countOnly 0 afterBurst := by
  have h : run (step noTimestamps countOnly) (State.init 0) burst = some afterBurst := by
    decide +kernel
  exact ⟨h, pipeline_accounts h rfl (Or.inl rfl)⟩

/-- A message gets into the ring, the worker sees the stop flag before it has
polled again, and the ring goes with the server. -/
def stopped : List Event :=
  [.trySend ⟨[53]⟩, .countSend .ok, .requestStop, .loadStop, .dropServer]

def afterStopped : State :=
  ⟨(syncChannel 1).dropReceiver, true, 0, 1, 0, 0, true, .finished, 0, 0, 0, 1, [⟨[53]⟩], [],
    [⟨[53]⟩]⟩

/-- The message is delivered, and neither received nor queued. -/
theorem delivered_unreceived :
    run (step noTimestamps countOnly) (State.init 0) stopped = some afterStopped ∧
      afterStopped.pending = 0 ∧ Between afterStopped ∧
      afterStopped.delivered ≠ afterStopped.received + afterStopped.ring.queue.length :=
  ⟨by decide +kernel, rfl, Or.inr (Or.inr rfl), by decide⟩

end TptTelemetry.Daemon.Pipeline
