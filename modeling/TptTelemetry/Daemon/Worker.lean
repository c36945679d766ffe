import TptTelemetry.Daemon.Pipeline
import TptTelemetry.Lib.Simulation

namespace TptTelemetry.Daemon.Worker

open TptTelemetry.Lib.Concurrency TptTelemetry.Lib.Simulation TptTelemetry.Lib.Text
open TptTelemetry.Compiler.Scalar TptTelemetry.Compiler.Compile TptTelemetry.Compiler.Typed
open TptTelemetry.Daemon.Pipeline

/-- What the daemon has done: its counters, and the records that it has handed
to the exporter. -/
structure Tally where
  received : Nat
  exported : Nat
  errors : Nat
  handed : List Record
  deriving DecidableEq

def Tally.zero : Tally := ⟨0, 0, 0, []⟩

section Sequential

variable (C : Chrono) (cs : CompiledSchema) (outcome : Nat → Record → Bool)

/-- One turn of `run_worker` as a single step, when `outcome` tells which
exports succeed. -/
def handle (t : Tally) (msg : Message) : Except Panic Tally :=
  (parseText C cs msg).map fun found =>
    match found with
    | none => { t with received := t.received + 1 }
    | some rec =>
      if outcome (t.exported + t.errors) rec then
        ⟨t.received + 1, t.exported + 1, t.errors, t.handed ++ [rec]⟩
      else ⟨t.received + 1, t.exported, t.errors + 1, t.handed ++ [rec]⟩

def recordOf (msg : Message) : Option Record :=
  match parseText C cs msg with
  | .ok found => found
  | .error _ => none

/-- The daemon as a queue that is filled and emptied in single steps. It may
turn a message away, and it may lose those that wait when it ends. -/
structure Queue where
  waiting : List Message
  handled : List Message
  tally : Tally
  deriving DecidableEq

def Queue.empty : Queue := ⟨[], [], Tally.zero⟩

inductive Act
  | accept (msg : Message)
  | refuse (msg : Message)
  | handle
  | crash
  | discard
  deriving DecidableEq

def queueStep (q : Queue) : Act → Option Queue
  | .accept msg => some { q with waiting := q.waiting ++ [msg] }
  | .refuse _ => some q
  | .handle =>
    match q.waiting with
    | [] => none
    | msg :: rest =>
      match handle C cs outcome q.tally msg with
      | .ok tally => some ⟨rest, q.handled ++ [msg], tally⟩
      | .error _ => none
  | .crash =>
    match q.waiting with
    | [] => none
    | _ :: rest => some { q with waiting := rest }
  | .discard => some { q with waiting := [] }

/-- The daemon along the interleavings in which `outcome` tells what becomes of
each export. -/
def daemonStep (s : State) (e : Event) : Option State :=
  match e, s.worker with
  | .exportDone ok, .exporting _ rec =>
    if ok = outcome (s.exported + s.errors) rec then step C cs s e else none
  | _, _ => step C cs s e

/-- The step of the queue that a step of the daemon completes. A message is
handled when its outcome is counted. -/
def act (s : State) : Event → List Act
  | .trySend msg => [if (s.ring.trySend msg).1 = .ok then .accept msg else .refuse msg]
  | .parseLine =>
    match s.worker with
    | .counted msg =>
      match parseText C cs msg with
      | .error _ => [.crash]
      | .ok none => [.handle]
      | .ok (some _) => []
    | _ => []
  | .countExport => [.handle]
  | .dropServer => [.discard]
  | _ => []

def calls (s : State) : Event → List Record
  | .parseLine =>
    match s.worker with
    | .counted msg => (recordOf C cs msg).toList
    | _ => []
  | _ => []

def offered : Event → List Message
  | .trySend msg => [msg]
  | _ => []

def unhandled : Worker → List Message
  | .got msg | .counted msg | .exporting msg _ | .exportDone msg _ => [msg]
  | .loop | .polling | .finished | .panicked _ => []

/-- What the worker knows of the record in its hand. -/
def Knows (s : State) : Worker → Prop
  | .exporting msg rec => parseText C cs msg = .ok (some rec)
  | .exportDone msg ok =>
    ∃ rec, parseText C cs msg = .ok (some rec) ∧ ok = outcome (s.exported + s.errors) rec
  | _ => True

structure Refines (s : State) (q : Queue) : Prop where
  waiting : q.waiting = unhandled s.worker ++ s.ring.queue
  handled : q.handled = s.processed
  received : s.received = q.tally.received + inHandCounted s.worker
  exported : s.exported = q.tally.exported
  errors : s.errors = q.tally.errors
  knows : Knows C cs outcome s s.worker

end Sequential

variable {C : Chrono} {cs : CompiledSchema} {outcome : Nat → Record → Bool} {s t : State}

theorem step_of_daemonStep {e : Event} (h : daemonStep C cs outcome s e = some t) :
    step C cs s e = some t := by
  unfold daemonStep at h
  split at h
  · split at h
    · exact h
    · cases h
  · exact h

theorem daemonStep_exportDone {ok : Bool} (h : daemonStep C cs outcome s (.exportDone ok) = some t) :
    ∃ msg rec, s.worker = .exporting msg rec ∧ ok = outcome (s.exported + s.errors) rec ∧
      t = { s with worker := .exportDone msg ok } := by
  have hs := step_of_daemonStep h
  simp only [step] at hs
  split at hs
  · next msg rec hw =>
    simp only [daemonStep, hw] at h
    split at h
    · next hok =>
      cases hs
      exact ⟨msg, rec, hw, hok, rfl⟩
    · cases h
  · cases hs

section Turns

def ofWorker : Event → Bool
  | .loadStop | .recv | .timeout | .disconnected | .countReceived | .parseLine | .exportDone _
  | .countExport => true
  | .trySend _ | .countSend _ | .dropSenders | .requestStop | .dropServer => false

/-- The turns of the worker's loop, with the message that a turn is done with. -/
inductive Turn (C : Chrono) (cs : CompiledSchema) (stop : Bool) :
    Worker → Event → Worker → List Message → Prop
  | leave (h : stop = true) : Turn C cs stop .loop .loadStop .finished []
  | poll (h : stop = false) : Turn C cs stop .loop .loadStop .polling []
  | take (msg : Message) : Turn C cs stop .polling .recv (.got msg) []
  | timeout : Turn C cs stop .polling .timeout .loop []
  | disconnected : Turn C cs stop .polling .disconnected .finished []
  | count (msg : Message) : Turn C cs stop (.got msg) .countReceived (.counted msg) []
  | crash {msg : Message} {p : Panic} (h : parseText C cs msg = .error p) :
    Turn C cs stop (.counted msg) .parseLine (.panicked msg) []
  | skip {msg : Message} (h : parseText C cs msg = .ok none) :
    Turn C cs stop (.counted msg) .parseLine .loop [msg]
  | found {msg : Message} {rec : Record} (h : parseText C cs msg = .ok (some rec)) :
    Turn C cs stop (.counted msg) .parseLine (.exporting msg rec) []
  | tried (msg : Message) (rec : Record) (ok : Bool) :
    Turn C cs stop (.exporting msg rec) (.exportDone ok) (.exportDone msg ok) []
  | done (msg : Message) (ok : Bool) : Turn C cs stop (.exportDone msg ok) .countExport .loop [msg]

theorem step_worker {e : Event} (h : step C cs s e = some t) :
    (ofWorker e = false ∧ t.worker = s.worker ∧ t.processed = s.processed ∧
      t.received = s.received ∧ t.exported = s.exported ∧ t.errors = s.errors ∧
      (s.stop = true → t.stop = true)) ∨
    ∃ done, Turn C cs s.stop s.worker e t.worker done ∧ t.processed = s.processed ++ done ∧
      t.stop = s.stop := by
  cases e with
  | trySend msg | dropSenders =>
    simp only [step] at h
    split at h <;> cases h
    exact Or.inl ⟨rfl, rfl, rfl, rfl, rfl, rfl, id⟩
  | requestStop =>
    cases h
    exact Or.inl ⟨rfl, rfl, rfl, rfl, rfl, rfl, fun _ => rfl⟩
  | countSend result =>
    simp only [step] at h
    split at h <;> cases h
    cases result <;> exact Or.inl ⟨rfl, rfl, rfl, rfl, rfl, rfl, id⟩
  | dropServer =>
    simp only [step] at h
    split at h <;> cases h
    all_goals exact Or.inl ⟨rfl, rfl, rfl, rfl, rfl, rfl, id⟩
  | loadStop =>
    simp only [step] at h
    split at h <;> cases h
    next hw =>
    rw [hw]
    refine Or.inr ⟨[], ?_, (List.append_nil _).symm, rfl⟩
    cases hs : s.stop
    · exact .poll rfl
    · exact .leave rfl
  | recv =>
    simp only [step] at h
    split at h <;> cases h
    next msg ring hw _ =>
    rw [hw]
    exact Or.inr ⟨[], .take msg, (List.append_nil _).symm, rfl⟩
  | timeout =>
    simp only [step] at h
    split at h <;> cases h
    next hw =>
    rw [hw]
    exact Or.inr ⟨[], .timeout, (List.append_nil _).symm, rfl⟩
  | disconnected =>
    simp only [step] at h
    split at h
    · next hw =>
      split at h <;> cases h
      rw [hw]
      exact Or.inr ⟨[], .disconnected, (List.append_nil _).symm, rfl⟩
    · cases h
  | countReceived =>
    simp only [step] at h
    split at h <;> cases h
    next msg hw =>
    rw [hw]
    exact Or.inr ⟨[], .count msg, (List.append_nil _).symm, rfl⟩
  | parseLine =>
    simp only [step] at h
    split at h
    · next msg hw =>
      rw [hw]
      split at h <;> cases h
      · next hp => exact Or.inr ⟨[], .crash hp, (List.append_nil _).symm, rfl⟩
      · next hp => exact Or.inr ⟨[msg], .skip hp, rfl, rfl⟩
      · next hp => exact Or.inr ⟨[], .found hp, (List.append_nil _).symm, rfl⟩
    · cases h
  | exportDone ok =>
    simp only [step] at h
    split at h <;> cases h
    next msg rec hw =>
    rw [hw]
    exact Or.inr ⟨[], .tried msg rec ok, (List.append_nil _).symm, rfl⟩
  | countExport =>
    simp only [step] at h
    split at h <;> cases h
    all_goals
      next msg hw =>
      rw [hw]
      exact Or.inr ⟨[msg], .done msg _, rfl, rfl⟩

theorem ofWorker_turn {stop : Bool} {v w : Worker} {e : Event} {done : List Message}
    (h : Turn C cs stop v e w done) : ofWorker e = true := by
  cases h <;> rfl

theorem calls_quiet {e : Event} (he : ofWorker e = false) : calls C cs s e = [] := by
  cases e <;> first | rfl | cases he

end Turns

theorem handle_unmatched {msg : Message} {tally : Tally} (h : parseText C cs msg = .ok none) :
    handle C cs outcome tally msg = .ok { tally with received := tally.received + 1 } := by
  rw [handle, h]
  rfl

theorem handle_matched {msg : Message} {rec : Record} {tally : Tally}
    (h : parseText C cs msg = .ok (some rec)) : handle C cs outcome tally msg = .ok
      (if outcome (tally.exported + tally.errors) rec then
        ⟨tally.received + 1, tally.exported + 1, tally.errors, tally.handed ++ [rec]⟩
      else ⟨tally.received + 1, tally.exported, tally.errors + 1, tally.handed ++ [rec]⟩) := by
  rw [handle, h]
  rfl

section Steps

variable {q : Queue}

theorem queueStep_handle {msg : Message} {rest : List Message} {tally : Tally}
    (hq : q.waiting = msg :: rest) (h : handle C cs outcome q.tally msg = .ok tally) :
    queueStep C cs outcome q .handle = some ⟨rest, q.handled ++ [msg], tally⟩ := by
  simp only [queueStep, hq, h]

theorem run_single {σ ε : Type} {f : σ → ε → Option σ} {a b : σ} {e : ε} (h : f a e = some b) :
    run f a [e] = some b := run_cons.mpr ⟨b, h, rfl⟩

theorem refines_move {v w : Worker} (hr : Refines C cs outcome s q) (hv : s.worker = v)
    (hu : unhandled v = unhandled w) (hc : inHandCounted v = inHandCounted w)
    (hk : Knows C cs outcome s w) : Refines C cs outcome { s with worker := w } q := by
  obtain ⟨hwait, hhand, hrec, hexp, herr, -⟩ := hr
  rw [hv] at hwait hrec
  exact ⟨hwait.trans (by rw [hu]), hhand, hrec.trans (by rw [hc]), hexp, herr, by
    cases w <;> exact hk⟩

theorem Knows.congr {u : State} {w : Worker} (h : Knows C cs outcome s w)
    (hx : u.exported = s.exported) (he : u.errors = s.errors) : Knows C cs outcome u w := by
  cases w with
  | exportDone msg ok =>
    obtain ⟨rec, hp, hok⟩ := h
    exact ⟨rec, hp, by rw [hx, he]; exact hok⟩
  | exporting msg rec => exact h
  | _ => trivial

theorem refines_trySend {msg : Message} (hr : Refines C cs outcome s q)
    (h : step C cs s (.trySend msg) = some t) :
    ∃ q', run (queueStep C cs outcome) q (act C cs s (.trySend msg)) = some q' ∧
      Refines C cs outcome t q' := by
  obtain ⟨hwait, hhand, hrec, hexp, herr, hk⟩ := hr
  simp only [step] at h
  split at h <;> cases h
  have hk' : ∀ u : State, u.worker = s.worker → u.exported = s.exported → u.errors = s.errors →
      Knows C cs outcome u u.worker := by
    intro u hw hx he
    rw [hw]
    exact hk.congr hx he
  obtain ⟨-, ht⟩ | ⟨-, ring, ht, hq, -, -⟩ | ⟨-, -, ht⟩ := s.ring.trySend_cases msg
  · rw [act, ht, if_neg (by simp)]
    exact ⟨q, rfl, hwait, hhand, hrec, hexp, herr, hk' _ rfl rfl rfl⟩
  · rw [act, ht, if_pos rfl]
    refine ⟨_, run_single rfl, ?_, hhand, hrec, hexp, herr, hk' _ rfl rfl rfl⟩
    simp [hwait, hq]
  · rw [act, ht, if_neg (by simp)]
    exact ⟨q, rfl, hwait, hhand, hrec, hexp, herr, hk' _ rfl rfl rfl⟩

theorem refines_recv (hr : Refines C cs outcome s q) (h : step C cs s .recv = some t) :
    Refines C cs outcome t q := by
  obtain ⟨hwait, hhand, hrec, hexp, herr, -⟩ := hr
  simp only [step] at h
  split at h <;> cases h
  next msg ring hw hring =>
  obtain ⟨hq, -, -⟩ := Channel.recv_some hring
  rw [hw] at hwait hrec
  exact ⟨by simp [hwait, hq, unhandled], hhand, hrec, hexp, herr, trivial⟩

theorem refines_parseLine (hr : Refines C cs outcome s q) (h : step C cs s .parseLine = some t) :
    ∃ q', run (queueStep C cs outcome) q (act C cs s .parseLine) = some q' ∧
      Refines C cs outcome t q' := by
  simp only [step] at h
  split at h
  · next msg hw =>
    obtain ⟨hwait, hhand, hrec, hexp, herr, -⟩ := id hr
    rw [hw] at hwait hrec
    cases hp : parseText C cs msg with
    | error p =>
      rw [hp] at h
      cases h
      simp only [act, hw, hp]
      refine ⟨{ q with waiting := s.ring.queue }, run_single ?_, rfl, hhand, hrec, hexp, herr, trivial⟩
      simp only [queueStep, hwait, unhandled, List.singleton_append]
    | ok found =>
      rw [hp] at h
      cases found with
      | none =>
        cases h
        simp only [act, hw, hp]
        refine ⟨_, run_single (queueStep_handle hwait (handle_unmatched hp)), rfl, ?_, ?_, hexp, herr,
          trivial⟩
        · rw [hhand]
        · exact hrec
      | some rec =>
        cases h
        simp only [act, hw, hp]
        exact ⟨q, rfl, refines_move hr hw rfl rfl hp⟩
  · cases h

theorem refines_countExport (hr : Refines C cs outcome s q) (h : step C cs s .countExport = some t) :
    ∃ q', run (queueStep C cs outcome) q (act C cs s .countExport) = some q' ∧
      Refines C cs outcome t q' := by
  obtain ⟨hwait, hhand, hrec, hexp, herr, hk⟩ := hr
  simp only [step] at h
  split at h <;> cases h
  all_goals
    next msg hw =>
    rw [hw] at hwait hrec hk
    obtain ⟨rec, hp, hok⟩ := hk
    have hhandle : handle C cs outcome q.tally msg = _ := handle_matched hp
    rw [← hexp, ← herr, ← hok] at hhandle
    refine ⟨_, run_single (queueStep_handle hwait hhandle), rfl, ?_, ?_, ?_, ?_, trivial⟩
    · rw [hhand]
    · simpa [inHandCounted] using hrec
    · simp
    · simp

theorem refines_step {e : Event} (hr : Refines C cs outcome s q)
    (h : daemonStep C cs outcome s e = some t) :
    ∃ q', run (queueStep C cs outcome) q (act C cs s e) = some q' ∧ Refines C cs outcome t q' := by
  have hs := step_of_daemonStep h
  cases e with
  | trySend msg => exact refines_trySend hr hs
  | countSend result =>
    simp only [step] at hs
    split at hs <;> cases hs
    cases result <;> exact ⟨q, rfl, hr.1, hr.2, hr.3, hr.4, hr.5, hr.6⟩
  | dropSenders =>
    simp only [step] at hs
    split at hs <;> cases hs
    exact ⟨q, rfl, hr.1, hr.2, hr.3, hr.4, hr.5, hr.6⟩
  | requestStop =>
    cases hs
    exact ⟨q, rfl, hr.1, hr.2, hr.3, hr.4, hr.5, hr.6⟩
  | loadStop =>
    simp only [step] at hs
    split at hs <;> cases hs
    next hw =>
    refine ⟨q, rfl, ?_⟩
    split <;> exact refines_move hr hw rfl rfl trivial
  | recv => exact ⟨q, rfl, refines_recv hr hs⟩
  | timeout =>
    simp only [step] at hs
    split at hs <;> cases hs
    next hw => exact ⟨q, rfl, refines_move hr hw rfl rfl trivial⟩
  | disconnected =>
    simp only [step] at hs
    split at hs
    · next hw =>
      split at hs <;> cases hs
      exact ⟨q, rfl, refines_move hr hw rfl rfl trivial⟩
    · cases hs
  | countReceived =>
    simp only [step] at hs
    split at hs <;> cases hs
    next msg hw =>
    obtain ⟨hwait, hhand, hrec, hexp, herr, -⟩ := hr
    rw [hw] at hwait hrec
    exact ⟨q, rfl, hwait, hhand, by simp [hrec, inHandCounted], hexp, herr, trivial⟩
  | parseLine => exact refines_parseLine hr hs
  | exportDone ok =>
    obtain ⟨msg, rec, hw, hok, rfl⟩ := daemonStep_exportDone h
    have hp : parseText C cs msg = .ok (some rec) := by simpa [hw, Knows] using hr.knows
    exact ⟨q, rfl, refines_move hr hw rfl rfl ⟨rec, hp, hok⟩⟩
  | countExport => exact refines_countExport hr hs
  | dropServer =>
    obtain ⟨hwait, hhand, hrec, hexp, herr, hk⟩ := hr
    simp only [step] at hs
    split at hs <;> cases hs
    all_goals
      next hw =>
      refine ⟨{ q with waiting := [] }, run_single rfl, ?_, hhand, hrec, hexp, herr, ?_⟩
      · rw [hw]
        rfl
      · rw [hw]
        trivial

theorem refines_init (ringCapacity : Nat) :
    Refines C cs outcome (State.init ringCapacity) Queue.empty :=
  ⟨rfl, rfl, rfl, rfl, rfl, trivial⟩

end Steps

section Tallies

/-- The counters and the exporter's records say what became of each message. -/
theorem foldlM_handle {msgs : List Message} {tally : Tally}
    (h : msgs.foldlM (handle C cs outcome) Tally.zero = .ok tally) :
    tally.received = msgs.length ∧ tally.handed = msgs.filterMap (recordOf C cs) ∧
      tally.exported + tally.errors = tally.handed.length := by
  induction msgs using List.reverseRecOn generalizing tally with
  | nil =>
    cases h
    exact ⟨rfl, rfl, rfl⟩
  | append_singleton msgs msg ih =>
    rw [List.foldlM_append, bind_eq_ok] at h
    obtain ⟨before, hb, h⟩ := h
    rw [List.foldlM_cons, bind_eq_ok] at h
    obtain ⟨after, ha, h⟩ := h
    cases h
    obtain ⟨hrec, hhanded, hsum⟩ := ih hb
    rw [List.length_append, List.filterMap_append]
    cases hp : parseText C cs msg with
    | error p =>
      rw [handle, hp] at ha
      cases ha
    | ok found =>
      have hf : recordOf C cs msg = found := by rw [recordOf, hp]
      cases found with
      | none =>
        rw [handle_unmatched hp] at ha
        cases ha
        simp [hrec, hhanded, hsum, hf]
      | some rec =>
        rw [handle_matched hp] at ha
        cases ha
        split <;> simp [hrec, hhanded, hf] <;> rw [← hhanded, ← hsum] <;> omega

theorem tallied_step {q q' : Queue} {a : Act}
    (hq : q.handled.foldlM (handle C cs outcome) Tally.zero = .ok q.tally)
    (h : queueStep C cs outcome q a = some q') :
    q'.handled.foldlM (handle C cs outcome) Tally.zero = .ok q'.tally := by
  cases a with
  | accept msg | refuse msg | discard =>
    cases h
    exact hq
  | crash =>
    simp only [queueStep] at h
    split at h <;> cases h
    exact hq
  | handle =>
    simp only [queueStep] at h
    split at h
    · cases h
    · next msg rest hw =>
      split at h <;> cases h
      next tally ht =>
      rw [List.foldlM_append, hq]
      simp only [bind, Except.bind, List.foldlM_cons, List.foldlM_nil, ht]
      rfl

/-- The message whose record has been handed to the exporter, and whose outcome
is not counted yet. -/
def started : Worker → List Message
  | .exporting msg _ | .exportDone msg _ => [msg]
  | _ => []

theorem calls_step {e : Event} {shown : List Record}
    (hs : shown = (s.processed ++ started s.worker).filterMap (recordOf C cs))
    (h : daemonStep C cs outcome s e = some t) :
    shown ++ calls C cs s e = (t.processed ++ started t.worker).filterMap (recordOf C cs) := by
  subst hs
  obtain ⟨hq, hw, hp, -⟩ | ⟨done, hm, hp, -⟩ := step_worker (step_of_daemonStep h)
  · rw [hw, hp, calls_quiet hq, List.append_nil]
  · rw [hp]
    generalize hv : s.worker = v, t.worker = w at hm ⊢
    cases hm <;> simp [calls, started, recordOf, *]

theorem offered_step {e : Event} {shown : List Message}
    (hs : s.enqueued.Sublist shown ∧ s.calls = shown.length)
    (h : step C cs s e = some t) :
    t.enqueued.Sublist (shown ++ offered e) ∧ t.calls = (shown ++ offered e).length := by
  obtain ⟨hsub, hcalls⟩ := hs
  have hquiet : t.enqueued = s.enqueued → t.calls = s.calls → offered e = [] →
      t.enqueued.Sublist (shown ++ offered e) ∧ t.calls = (shown ++ offered e).length := by
    rintro he hc ho
    rw [ho, List.append_nil, he, hc]
    exact ⟨hsub, hcalls⟩
  cases e with
  | trySend msg =>
    simp only [step] at h
    split at h <;> cases h
    refine ⟨?_, by simp [offered, hcalls]⟩
    split
    · exact hsub.append (List.Sublist.refl _)
    · exact hsub.trans (List.sublist_append_left _ _)
  | countSend result =>
    simp only [step] at h
    split at h <;> cases h
    cases result <;> exact hquiet rfl rfl rfl
  | requestStop =>
    cases h
    exact hquiet rfl rfl rfl
  | parseLine =>
    simp only [step] at h
    split at h
    · split at h <;> cases h <;> exact hquiet rfl rfl rfl
    · cases h
  | disconnected =>
    simp only [step] at h
    split at h
    · split at h <;> cases h
      exact hquiet rfl rfl rfl
    · cases h
  | dropSenders | loadStop | recv | timeout | countReceived | exportDone ok | countExport
  | dropServer =>
    simp only [step] at h
    split at h <;> cases h <;> exact hquiet rfl rfl rfl

theorem offered_of_run {ringCapacity : Nat} {events : List Event}
    (h : run (step C cs) (State.init ringCapacity) events = some s) :
    s.enqueued.Sublist (events.flatMap offered) ∧ s.calls = (events.flatMap offered).length := by
  have hoffered := trace_invariant
    (fun u shown => u.enqueued.Sublist shown ∧ u.calls = shown.length) offered_step
    ⟨List.Sublist.refl _, rfl⟩ h
  rwa [trace_events h] at hoffered

theorem offered_balance {ringCapacity : Nat} {events : List Event}
    (h : run (step C cs) (State.init ringCapacity) events = some s) (hp : s.pending = 0) :
    (events.flatMap offered).length = s.enqueued.length + s.droppedFull + s.droppedDisconnected := by
  have hi : Inv C cs ringCapacity s := run_invariant inv_step inv_init h
  have hsent := hi.sent
  have hbalance := hi.calls
  rw [hp, Multiset.count_zero, Nat.add_zero] at hsent
  rw [hp, Multiset.card_zero, Nat.add_zero, (offered_of_run h).2, ← hsent] at hbalance
  exact hbalance

end Tallies

def tallyOf (C : Chrono) (cs : CompiledSchema) (outcome : Nat → Record → Bool) (ringCapacity : Nat)
    (events : List Event) (s : State) : Tally :=
  ⟨s.received, s.exported, s.errors,
    trace (daemonStep C cs outcome) (calls C cs) (State.init ringCapacity) events⟩

section Runs

variable {ringCapacity : Nat} {events : List Event}
  (h : run (daemonStep C cs outcome) (State.init ringCapacity) events = some s)

include h

/-- Between messages nothing is in progress, so that the content and the tally
of the queue are those of the daemon. -/
theorem tallied {q : Queue} (hr : Refines C cs outcome s q)
    (htally : q.handled.foldlM (handle C cs outcome) Tally.zero = .ok q.tally) (hw : Between s) :
    q.waiting = s.ring.queue ∧ q.tally = tallyOf C cs outcome ringCapacity events s := by
  have hcalls := trace_invariant
    (fun u shown => shown = (u.processed ++ started u.worker).filterMap (recordOf C cs))
    calls_step rfl h
  obtain ⟨-, hhanded, -⟩ := foldlM_handle htally
  have hstill : unhandled s.worker = [] ∧ inHandCounted s.worker = 0 ∧ started s.worker = [] := by
    obtain hw | hw | hw := hw <;> rw [hw] <;> exact ⟨rfl, rfl, rfl⟩
  obtain ⟨hu, hc, hs⟩ := hstill
  refine ⟨by rw [hr.waiting, hu, List.nil_append], ?_⟩
  rw [hs, List.append_nil, ← hr.handled, ← hhanded] at hcalls
  rw [tallyOf, hcalls, hr.exported, hr.errors, hr.received, hc]
  rfl

/-- The messages taken from the ring are the first that got into it, and the
tally is what they come to one after the other. -/
theorem handled_of_run (hw : Between s) :
    s.enqueued = s.processed ++ s.ring.queue ++ s.discarded ∧
      s.processed.foldlM (handle C cs outcome) Tally.zero =
        .ok (tallyOf C cs outcome ringCapacity events s) := by
  obtain ⟨q, hq, hr⟩ := run_refines refines_step (refines_init ringCapacity) h
  have htally : q.handled.foldlM (handle C cs outcome) Tally.zero = .ok q.tally :=
    run_invariant tallied_step rfl hq
  obtain ⟨-, ht⟩ := tallied h hr htally hw
  rw [ht, hr.handled] at htally
  exact ⟨order_of_between (run_invariant inv_step inv_init (run_of_steps step_of_daemonStep h)) hw,
    htally⟩

/-- In every interleaving the daemon is a queue that is filled and emptied in
single steps: what the threads do is a run of that queue, and between messages
its content and its tally are those of the daemon. -/
theorem daemon_refines_queue :
    ∃ q, run (queueStep C cs outcome) Queue.empty
        (trace (daemonStep C cs outcome) (act C cs) (State.init ringCapacity) events) = some q ∧
      q.handled = s.processed ∧ q.handled.foldlM (handle C cs outcome) Tally.zero = .ok q.tally ∧
      (Between s →
        q.waiting = s.ring.queue ∧ q.tally = tallyOf C cs outcome ringCapacity events s) := by
  obtain ⟨q, hq, hr⟩ := run_refines refines_step (refines_init ringCapacity) h
  have htally : q.handled.foldlM (handle C cs outcome) Tally.zero = .ok q.tally :=
    run_invariant tallied_step rfl hq
  exact ⟨q, hq, hr.handled, htally, tallied h hr htally⟩

end Runs

theorem run_burst : run (daemonStep noTimestamps countOnly (fun _ _ => true)) (State.init 0) burst =
    some afterBurst := by
  decide +kernel

theorem daemon_refines_queue_burst :
    ∃ q, run (queueStep noTimestamps countOnly (fun _ _ => true)) Queue.empty
        (trace (daemonStep noTimestamps countOnly (fun _ _ => true)) (act noTimestamps countOnly)
          (State.init 0) burst) = some q ∧
      q.handled = afterBurst.processed ∧
      q.handled.foldlM (handle noTimestamps countOnly (fun _ _ => true)) Tally.zero = .ok q.tally ∧
      (Between afterBurst → q.waiting = afterBurst.ring.queue ∧
        q.tally = tallyOf noTimestamps countOnly (fun _ _ => true) 0 burst afterBurst) :=
  daemon_refines_queue run_burst

end TptTelemetry.Daemon.Worker
