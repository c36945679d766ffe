import TptTelemetry.Daemon.Worker

namespace TptTelemetry.Daemon.Shutdown

open TptTelemetry.Lib.Concurrency TptTelemetry.Lib.Simulation TptTelemetry.Lib.Text
open TptTelemetry.Compiler.Scalar TptTelemetry.Compiler.Compile
open TptTelemetry.Daemon.Pipeline TptTelemetry.Daemon.Worker

variable {C : Chrono} {cs : CompiledSchema} {s t : State} {events : List Event}

section Stop

/-- How many turns of its loop the worker is from the end once the flag is set. -/
def rank : Worker → Nat
  | .finished | .panicked _ => 0
  | .loop => 1
  | .exportDone _ _ => 2
  | .exporting _ _ => 3
  | .counted _ => 4
  | .got _ => 5
  | .polling => 6

/-- How many messages the worker may still be done with once the flag is set. -/
def budget : Worker → Nat
  | .finished | .panicked _ | .loop => 0
  | .polling | .got _ | .counted _ | .exporting _ _ | .exportDone _ _ => 1

theorem rank_turn {v w : Worker} {e : Event} {done : List Message} (h : Turn C cs true v e w done) :
    rank w < rank v ∧ done.length + budget w ≤ budget v := by
  cases h <;> simp_all [rank, budget]

/-- What is left of a run that ends once the flag is set. -/
structure Ending (s t : State) (events : List Event) : Prop where
  stop : t.stop = true
  turns : (events.filter ofWorker).length + rank t.worker ≤ rank s.worker
  handled : t.processed.length + budget t.worker ≤ s.processed.length + budget s.worker

theorem ending_of_run (hs : s.stop = true) (h : run (step C cs) s events = some t) :
    Ending s t events := by
  induction events generalizing s with
  | nil =>
    cases h
    exact ⟨hs, by simp, Nat.le_refl _⟩
  | cons e events ih =>
    obtain ⟨u, hu, hrun⟩ := run_cons.mp h
    obtain ⟨hq, hw, hp, -, -, -, hstop⟩ | ⟨done, hturn, hp, hstop⟩ := step_worker hu
    · obtain ⟨h₁, h₂, h₃⟩ := ih (hstop hs) hrun
      rw [hw] at h₂ h₃
      rw [hp] at h₃
      exact ⟨h₁, by rwa [List.filter_cons_of_neg (by simp [hq])], h₃⟩
    · obtain ⟨h₁, h₂, h₃⟩ := ih (hstop.trans hs) hrun
      have hev := ofWorker_turn hturn
      rw [hs] at hturn
      obtain ⟨hrank, hbudget⟩ := rank_turn hturn
      rw [hp, List.length_append] at h₃
      refine ⟨h₁, ?_, by omega⟩
      rw [List.filter_cons_of_pos hev, List.length_cons]
      omega

theorem exists_turn (s : State) (h : ended s.worker = false) :
    ∃ e u, ofWorker e = true ∧ step C cs s e = some u := by
  cases hw : s.worker with
  | loop => exact ⟨.loadStop, _, rfl, by rw [step, hw]⟩
  | polling => exact ⟨.timeout, _, rfl, by rw [step, hw]⟩
  | got msg => exact ⟨.countReceived, _, rfl, by rw [step, hw]⟩
  | counted msg =>
    cases hp : parseText C cs msg with
    | error p => exact ⟨.parseLine, _, rfl, by simp only [step, hw, hp]; rfl⟩
    | ok found =>
      cases found with
      | none => exact ⟨.parseLine, _, rfl, by simp only [step, hw, hp]; rfl⟩
      | some rec => exact ⟨.parseLine, _, rfl, by simp only [step, hw, hp]; rfl⟩
  | exporting msg rec => exact ⟨.exportDone true, _, rfl, by rw [step, hw]⟩
  | exportDone msg ok => cases ok <;> exact ⟨.countExport, _, rfl, by rw [step, hw]⟩
  | finished | panicked msg =>
    rw [hw] at h
    cases h

theorem rank_le (w : Worker) : rank w ≤ 6 ∧ budget w ≤ 1 := by
  cases w <;> simp [rank, budget]

/-- Once the stop flag is set the worker is done with at most one more message
and takes at most six more turns, of which it is never kept until it has ended.
Whatever has got into the ring, before the end or after it, is then processed,
still queued, or has gone with the ring. -/
theorem stop_ends {ringCapacity : Nat} {before : List Event}
    (hreach : run (step C cs) (State.init ringCapacity) before = some s) (hs : s.stop = true)
    (h : run (step C cs) s events = some t) :
    t.processed.length ≤ s.processed.length + 1 ∧
      (events.filter ofWorker).length ≤ 6 ∧
      (ended t.worker = false → ∃ e u, ofWorker e = true ∧ step C cs t e = some u) ∧
      (t.worker = .finished → t.enqueued = t.processed ++ t.ring.queue ++ t.discarded) := by
  have hend := ending_of_run hs h
  have hle := rank_le s.worker
  have hturns := hend.turns
  have hhandled := hend.handled
  refine ⟨by omega, by omega, exists_turn t, fun hw => ?_⟩
  have hi : Inv C cs ringCapacity t :=
    run_invariant inv_step inv_init (run_append.mpr ⟨s, hreach, h⟩)
  exact order_of_between hi (Or.inr (Or.inr hw))

def halfway : List Event := [.trySend ⟨[53]⟩, .countSend .ok, .loadStop, .recv, .requestStop]

def atHalfway : State :=
  ⟨syncChannel 1, true, 0, 1, 0, 0, true, .got ⟨[53]⟩, 0, 0, 0, 1, [⟨[53]⟩], [], []⟩

def lastTurns : List Event := [.countReceived, .parseLine, .exportDone true, .countExport, .loadStop]

def atEnd : State :=
  ⟨syncChannel 1, true, 0, 1, 0, 0, true, .finished, 1, 1, 0, 1, [⟨[53]⟩], [⟨[53]⟩], []⟩

theorem run_halfway : run (step noTimestamps countOnly) (State.init 1) halfway = some atHalfway := by
  decide +kernel

theorem run_lastTurns : run (step noTimestamps countOnly) atHalfway lastTurns = some atEnd := by
  decide +kernel

theorem stop_ends_halfway :
    atEnd.processed.length ≤ atHalfway.processed.length + 1 ∧
      (lastTurns.filter ofWorker).length ≤ 6 ∧
      (ended atEnd.worker = false →
        ∃ e u, ofWorker e = true ∧ step noTimestamps countOnly atEnd e = some u) ∧
      (atEnd.worker = .finished →
        atEnd.enqueued = atEnd.processed ++ atEnd.ring.queue ++ atEnd.discarded) :=
  stop_ends run_halfway rfl run_lastTurns

end Stop

section Ended

/-- The ring and what was dropped with it hold no more than the ring can. -/
structure Room (ringCapacity : Nat) (s : State) : Prop where
  room : s.ring.queue.length + s.discarded.length ≤ max ringCapacity 1
  closed : s.ring.connected = false → s.ring.queue = []

def AsLeft (s t : State) : Prop :=
  t.worker = s.worker ∧ t.processed = s.processed ∧ t.received = s.received ∧
    t.exported = s.exported ∧ t.errors = s.errors

theorem asLeft_step {e : Event} (he : ended s.worker = true) (h : step C cs s e = some t) :
    AsLeft s t := by
  obtain ⟨-, hw, hp, hr, hx, herr, -⟩ | ⟨done, hturn, -, -⟩ := step_worker h
  · exact ⟨hw, hp, hr, hx, herr⟩
  · generalize s.worker = v, t.worker = w at hturn he
    cases hturn <;> cases he

theorem AsLeft.trans {u : State} (h : AsLeft s t) (h' : AsLeft t u) : AsLeft s u := by
  obtain ⟨hw, hp, hr, hx, herr⟩ := h
  obtain ⟨hw', hp', hr', hx', herr'⟩ := h'
  exact ⟨hw'.trans hw, hp'.trans hp, hr'.trans hr, hx'.trans hx, herr'.trans herr⟩

theorem asLeft_of_run (he : ended s.worker = true) (h : run (step C cs) s events = some t) :
    AsLeft s t := by
  induction events generalizing s with
  | nil =>
    cases h
    exact ⟨rfl, rfl, rfl, rfl, rfl⟩
  | cons e events ih =>
    obtain ⟨u, hu, hrun⟩ := run_cons.mp h
    have hleft := asLeft_step he hu
    exact hleft.trans (ih (by rw [hleft.1, he]) hrun)

theorem room_same {ringCapacity : Nat} (hr : Room ringCapacity s) (hq : t.ring = s.ring)
    (hd : t.discarded = s.discarded) : Room ringCapacity t := by
  obtain ⟨hroom, hclosed⟩ := hr
  exact ⟨by rw [hq, hd]; exact hroom, by rw [hq]; exact hclosed⟩

theorem room_step {ringCapacity : Nat} {e : Event} (hi : Inv C cs ringCapacity s)
    (hr : Room ringCapacity s) (h : step C cs s e = some t) : Room ringCapacity t := by
  cases e with
  | trySend msg =>
    simp only [step] at h
    split at h <;> cases h
    obtain ⟨-, ht⟩ | ⟨hc, ring, ht, -, hc', hcap⟩ | ⟨-, -, ht⟩ := s.ring.trySend_cases msg <;>
      rw [ht]
    · exact room_same hr rfl rfl
    · refine ⟨?_, fun h => ?_⟩
      · have hb := ring.bounded
        rw [hcap, hi.capacity] at hb
        simpa [hi.kept hc] using hb
      · rw [hc'] at h
        cases h
    · exact room_same hr rfl rfl
  | recv =>
    simp only [step] at h
    split at h <;> cases h
    next msg ring hw hring =>
    obtain ⟨hq, hc, -⟩ := Channel.recv_some hring
    obtain ⟨hroom, hclosed⟩ := hr
    rw [hq, List.length_cons] at hroom
    refine ⟨by simp only; omega, fun h => ?_⟩
    rw [hclosed (hc.symm.trans h)] at hq
    cases hq
  | dropServer =>
    obtain ⟨hroom, hclosed⟩ := hr
    simp only [step] at h
    split at h <;> cases h
    all_goals
      refine ⟨?_, fun _ => rfl⟩
      simpa [Channel.dropReceiver] using hroom
  | countSend result =>
    simp only [step] at h
    split at h <;> cases h
    cases result <;> exact room_same hr rfl rfl
  | requestStop =>
    cases h
    exact room_same hr rfl rfl
  | parseLine =>
    simp only [step] at h
    split at h
    · split at h <;> cases h <;> exact room_same hr rfl rfl
    · cases h
  | disconnected =>
    simp only [step] at h
    split at h
    · split at h <;> cases h
      exact room_same hr rfl rfl
    · cases h
  | dropSenders | loadStop | timeout | countReceived | exportDone ok | countExport =>
    simp only [step] at h
    split at h <;> cases h <;> exact room_same hr rfl rfl

theorem room_of_run {ringCapacity : Nat}
    (h : run (step C cs) (State.init ringCapacity) events = some s) :
    Inv C cs ringCapacity s ∧ Room ringCapacity s := by
  have hstep : ∀ {u e v}, Inv C cs ringCapacity u ∧ Room ringCapacity u →
      step C cs u e = some v → Inv C cs ringCapacity v ∧ Room ringCapacity v :=
    fun hu hv => ⟨inv_step hu.1 hv, room_step hu.1 hu.2 hv⟩
  exact run_invariant hstep ⟨inv_init, Nat.zero_le _, fun _ => rfl⟩ h

/-- A worker that has ended, by the flag or by a panic, never counts a message
again. The ring takes at most what it has room for, and every other message that
is offered is counted as dropped. -/
theorem ended_turns_away {ringCapacity : Nat} {before : List Event}
    (hreach : run (step C cs) (State.init ringCapacity) before = some s)
    (he : ended s.worker = true) (h : run (step C cs) s events = some t) :
    AsLeft s t ∧
      t.enqueued.length ≤ s.enqueued.length + (max ringCapacity 1 - s.ring.queue.length) ∧
      (t.pending = 0 → ((before ++ events).flatMap offered).length =
        t.enqueued.length + t.droppedFull + t.droppedDisconnected) := by
  have hreach' := run_append.mpr ⟨s, hreach, h⟩
  have hleft := asLeft_of_run he h
  have hroom := room_of_run hreach'
  refine ⟨hleft, ?_, offered_balance hreach'⟩
  have hi : Inv C cs ringCapacity s := run_invariant inv_step inv_init hreach
  have hs := congrArg List.length hi.order
  have ht := congrArg List.length hroom.1.order
  have hlen := hroom.2.room
  rw [hleft.1, hleft.2.1] at ht
  simp only [List.length_append] at hs ht
  omega

/-- Two messages for a worker that has gone: the ring has room for one. -/
def unread : List Event := [.trySend ⟨[54]⟩, .countSend .ok, .trySend ⟨[55]⟩, .countSend .full]

def afterUnread : State :=
  { atEnd with
    ring := ⟨1, [⟨[54]⟩], true, Nat.le_refl 1⟩
    delivered := 2
    droppedFull := 1
    calls := 3
    enqueued := [⟨[53]⟩, ⟨[54]⟩] }

theorem ended_turns_away_unread :
    AsLeft atEnd afterUnread ∧
      afterUnread.enqueued.length ≤ atEnd.enqueued.length + (max 1 1 - atEnd.ring.queue.length) ∧
      (afterUnread.pending = 0 → (((halfway ++ lastTurns) ++ unread).flatMap offered).length =
        afterUnread.enqueued.length + afterUnread.droppedFull + afterUnread.droppedDisconnected) :=
  ended_turns_away (run_append.mpr ⟨atHalfway, run_halfway, run_lastTurns⟩) rfl
    (by decide +kernel : run (step noTimestamps countOnly) atEnd unread = some afterUnread)

end Ended

end TptTelemetry.Daemon.Shutdown
