import TptTelemetry.Daemon.Ingest
import TptTelemetry.Lib.Interleaving
import TptTelemetry.Server.Udp

namespace TptTelemetry.Daemon.Receivers

open TptTelemetry.Lib TptTelemetry.Lib.Text TptTelemetry.Lib.Utf8 TptTelemetry.Lib.Net
open TptTelemetry.Lib.Concurrency TptTelemetry.Lib.Simulation TptTelemetry.Lib.Interleaving
open TptTelemetry.Framing.Decoder TptTelemetry.Server.Connection TptTelemetry.Server.Sockaddr
open TptTelemetry.Server.Udp TptTelemetry.Compiler.Scalar TptTelemetry.Compiler.Compile
open TptTelemetry.Compiler.Typed TptTelemetry.Otlp.Model TptTelemetry.Otlp.Grpc
open TptTelemetry.Otlp.Exporter TptTelemetry.Daemon.Pipeline TptTelemetry.Daemon.Worker
open TptTelemetry.Daemon.Ingest

structure Thread where
  todo : List Pipeline.Message
  sending : Option SendResult
  deriving DecidableEq

/-- The receiver threads, the rest of the daemon, and what has been sent so far
with the thread that sent it. -/
structure Server where
  threads : List Thread
  daemon : State
  sent : List (Nat × Pipeline.Message × SendResult)
  deriving DecidableEq

def Server.init (ringCapacity : Nat) (programs : List (List Pipeline.Message)) : Server :=
  ⟨programs.map (fun program => ⟨program, none⟩), State.init ringCapacity, []⟩

def Server.Quiet (s : Server) : Prop := ∀ th ∈ s.threads, th = ⟨[], none⟩

instance (s : Server) : Decidable s.Quiet := inferInstanceAs (Decidable (∀ th ∈ s.threads, _))

inductive Event
  | send (i : Nat)
  | count (i : Nat)
  | daemon (e : Pipeline.Event)
  deriving DecidableEq

def inDeliver : Pipeline.Event → Bool
  | .trySend _ | .countSend _ => true
  | _ => false

section Machine

variable (C : Chrono) (cs : CompiledSchema) (outcome : Nat → Record → Bool)

/-- A thread counts what became of a message before it sends the next one, and
drops its sender when it has sent the last. -/
def serverStep (s : Server) : Event → Option Server
  | .send i =>
    match s.threads[i]? with
    | some ⟨msg :: todo, none⟩ =>
      (daemonStep C cs outcome s.daemon (.trySend msg)).map fun daemon =>
        ⟨s.threads.set i ⟨todo, some (s.daemon.ring.trySend msg).1⟩, daemon,
          s.sent ++ [(i, msg, (s.daemon.ring.trySend msg).1)]⟩
    | _ => none
  | .count i =>
    match s.threads[i]? with
    | some ⟨todo, some result⟩ =>
      (daemonStep C cs outcome s.daemon (.countSend result)).map fun daemon =>
        { s with threads := s.threads.set i ⟨todo, none⟩, daemon := daemon }
    | _ => none
  | .daemon e =>
    if inDeliver e ∨ (e = .dropSenders ∧ ¬ s.Quiet) then none
    else (daemonStep C cs outcome s.daemon e).map fun daemon => { s with daemon := daemon }

def lower (s : Server) : Event → List Pipeline.Event
  | .send i =>
    match s.threads[i]? with
    | some ⟨msg :: _, none⟩ => [.trySend msg]
    | _ => []
  | .count i =>
    match s.threads[i]? with
    | some ⟨_, some result⟩ => [.countSend result]
    | _ => []
  | .daemon e => [e]

def serverCalls (s : Server) : Event → List Record
  | .daemon e => calls C cs s.daemon e
  | _ => []

end Machine

variable {C : Chrono} {cs : CompiledSchema} {outcome : Nat → Record → Bool} {s t : Server}

theorem serverStep_cases {e : Event} (h : serverStep C cs outcome s e = some t) :
    (∃ i msg todo, e = .send i ∧ s.threads[i]? = some ⟨msg :: todo, none⟩ ∧
      daemonStep C cs outcome s.daemon (.trySend msg) = some t.daemon ∧
      t.threads = s.threads.set i ⟨todo, some (s.daemon.ring.trySend msg).1⟩ ∧
      t.sent = s.sent ++ [(i, msg, (s.daemon.ring.trySend msg).1)]) ∨
    (∃ i todo result, e = .count i ∧ s.threads[i]? = some ⟨todo, some result⟩ ∧
      daemonStep C cs outcome s.daemon (.countSend result) = some t.daemon ∧
      t.threads = s.threads.set i ⟨todo, none⟩ ∧ t.sent = s.sent) ∨
    ∃ d, e = .daemon d ∧ inDeliver d = false ∧ daemonStep C cs outcome s.daemon d = some t.daemon ∧
      t.threads = s.threads ∧ t.sent = s.sent := by
  cases e with
  | send i =>
    simp only [serverStep] at h
    split at h
    · next msg todo hi =>
      obtain ⟨daemon, hd, rfl⟩ := Option.map_eq_some_iff.mp h
      exact Or.inl ⟨i, msg, todo, rfl, hi, hd, rfl, rfl⟩
    · cases h
  | count i =>
    simp only [serverStep] at h
    split at h
    · next todo result hi =>
      obtain ⟨daemon, hd, rfl⟩ := Option.map_eq_some_iff.mp h
      exact Or.inr (Or.inl ⟨i, todo, result, rfl, hi, hd, rfl, rfl⟩)
    · cases h
  | daemon e =>
    simp only [serverStep] at h
    split at h
    · cases h
    · next hno =>
      obtain ⟨daemon, hd, rfl⟩ := Option.map_eq_some_iff.mp h
      rw [not_or, Bool.not_eq_true] at hno
      exact Or.inr (Or.inr ⟨e, rfl, hno.1, hd, rfl, rfl⟩)

/-- The server is the daemon with its producers told apart. -/
theorem lower_step {e : Event} (h : serverStep C cs outcome s e = some t) :
    run (daemonStep C cs outcome) s.daemon (lower s e) = some t.daemon ∧
      trace (daemonStep C cs outcome) (calls C cs) s.daemon (lower s e) = serverCalls C cs s e := by
  obtain ⟨i, msg, todo, rfl, hi, hd, -⟩ | ⟨i, todo, result, rfl, hi, hd, -⟩ | ⟨d, rfl, -, hd, -⟩ :=
    serverStep_cases h
  · simp only [lower, hi]
    exact ⟨run_single hd, trace_cons hd []⟩
  · simp only [lower, hi]
    exact ⟨run_single hd, trace_cons hd []⟩
  · exact ⟨run_single hd, (trace_cons hd []).trans (List.append_nil _)⟩

section Accounting

def got (p : Pipeline.Message × SendResult) : Option Pipeline.Message :=
  if p.2 = .ok then some p.1 else none

def counter (s : State) : SendResult → Nat
  | .ok => s.delivered
  | .full => s.droppedFull
  | .disconnected => s.droppedDisconnected

structure Sent (s t : State) (sent : List (Pipeline.Message × SendResult))
    (counted : List SendResult) : Prop where
  enqueued : t.enqueued = s.enqueued ++ sent.filterMap got
  pending : t.pending + (counted : Multiset SendResult) =
    s.pending + ((sent.map Prod.snd : List SendResult) : Multiset SendResult)
  counter : ∀ r, counter t r = counter s r + counted.count r

theorem sent_trySend {d d' : State} {msg : Pipeline.Message}
    (h : step C cs d (.trySend msg) = some d') : Sent d d' [(msg, (d.ring.trySend msg).1)] [] := by
  simp only [step] at h
  split at h <;> cases h
  refine ⟨?_, ?_, fun r => by cases r <;> rfl⟩
  · simp only [List.filterMap_cons, List.filterMap_nil, got]
    split <;> simp
  · simp [← Multiset.singleton_add, add_comm]

theorem sent_countSend {d d' : State} {result : SendResult}
    (h : step C cs d (.countSend result) = some d') : Sent d d' [] [result] := by
  simp only [step] at h
  split at h <;> cases h
  next hmem =>
  have hpending : d.pending.erase result + ([result] : List SendResult) = d.pending := by
    rw [Multiset.coe_singleton, add_comm, Multiset.singleton_add]
    exact Multiset.cons_erase hmem
  cases result with
  | ok | full | disconnected =>
    refine ⟨(List.append_nil _).symm, hpending.trans (add_zero _).symm, fun r => ?_⟩
    cases r <;> rfl

theorem sent_quiet {d d' : State} {e : Pipeline.Event} (he : inDeliver e = false)
    (h : step C cs d e = some d') : Sent d d' [] [] := by
  have hquiet : d'.enqueued = d.enqueued → d'.pending = d.pending →
      (∀ r, counter d' r = counter d r) → Sent d d' [] [] := by
    intro henq hpend hcount
    exact ⟨henq.trans (List.append_nil _).symm, congrArg (· + _) hpend, hcount⟩
  cases e with
  | trySend msg | countSend result => cases he
  | requestStop =>
    cases h
    exact hquiet rfl rfl fun r => by cases r <;> rfl
  | parseLine =>
    simp only [step] at h
    split at h
    · split at h <;> cases h <;> exact hquiet rfl rfl fun r => by cases r <;> rfl
    · cases h
  | disconnected =>
    simp only [step] at h
    split at h
    · split at h <;> cases h
      exact hquiet rfl rfl fun r => by cases r <;> rfl
    · cases h
  | dropSenders | loadStop | recv | timeout | countReceived | exportDone ok | countExport
  | dropServer =>
    simp only [step] at h
    split at h <;> cases h <;> exact hquiet rfl rfl fun r => by cases r <;> rfl

/-- Each thread has sent the first of its messages, in their order, and all that
was sent has been enqueued or is counted as dropped. -/
structure Ordered (programs : List (List Pipeline.Message)) (s : Server) : Prop where
  length : s.threads.length = programs.length
  order : ∀ (i : Nat) (th : Thread) (program : List Pipeline.Message), s.threads[i]? = some th →
    programs[i]? = some program → (ofParty i s.sent).map Prod.fst ++ th.todo = program
  tags : ∀ p ∈ s.sent, p.1 < programs.length
  enqueued : s.daemon.enqueued = (s.sent.map Prod.snd).filterMap got
  pending : s.daemon.pending = (s.threads.filterMap Thread.sending : List SendResult)
  counted : ∀ r, counter s.daemon r + s.daemon.pending.count r =
    (s.sent.map Prod.snd).countP (fun p => p.2 = r)

variable {programs : List (List Pipeline.Message)}

theorem ordered_init (ringCapacity : Nat) :
    Ordered programs (Server.init ringCapacity programs) := by
  refine ⟨List.length_map .., ?_, by simp [Server.init], rfl, ?_, fun r => by cases r <;> rfl⟩
  · intro i th program hth hprogram
    rw [Server.init, List.getElem?_map, hprogram] at hth
    cases hth
    rfl
  · have hnone : (Server.init ringCapacity programs).threads.filterMap Thread.sending = [] := by
      simp [Server.init]
    rw [hnone]
    rfl

theorem set_split {α : Type} {xs : List α} {i : Nat} {a : α} (h : xs[i]? = some a) :
    ∃ l r, xs = l ++ a :: r ∧ ∀ b, xs.set i b = l ++ b :: r := by
  obtain ⟨hi, rfl⟩ := List.getElem?_eq_some_iff.mp h
  exact ⟨xs.take i, xs.drop (i + 1), by simp,
    fun b => (List.set_eq_take_append_cons_drop ..).trans (if_pos hi)⟩

theorem sending_set {threads : List Thread} {i : Nat} {todo : List Pipeline.Message}
    {before : Option SendResult} (h : threads[i]? = some ⟨todo, before⟩)
    (todo' : List Pipeline.Message) (after : Option SendResult) :
    (((threads.set i ⟨todo', after⟩).filterMap Thread.sending : List SendResult) : Multiset SendResult) +
        (before.toList : List SendResult) =
      (threads.filterMap Thread.sending : List SendResult) + (after.toList : List SendResult) := by
  obtain ⟨l, r, hthreads, hset⟩ := set_split h
  have hsplit : ∀ th : Thread,
      (((l ++ th :: r).filterMap Thread.sending : List SendResult) : Multiset SendResult) =
        (l.filterMap Thread.sending : List SendResult) + (th.sending.toList : List SendResult) +
          (r.filterMap Thread.sending : List SendResult) := by
    intro th
    rw [List.filterMap_append, List.filterMap_cons, Multiset.coe_add, Multiset.coe_add]
    cases th.sending <;> simp
  rw [hset, hthreads, hsplit, hsplit]
  dsimp only
  ac_rfl

theorem ordered_step {e : Event} (ho : Ordered programs s)
    (h : serverStep C cs outcome s e = some t) : Ordered programs t := by
  obtain ⟨hlen, horder, htags, henq, hpend, hcount⟩ := ho
  obtain ⟨i, msg, todo, rfl, hi, hd, hthreads, hsent⟩ | ⟨i, todo, result, rfl, hi, hd, hthreads, hsent⟩ |
    ⟨d, rfl, hquiet, hd, hthreads, hsent⟩ := serverStep_cases h
  · obtain ⟨henq', hpend', hcount'⟩ := sent_trySend (step_of_daemonStep hd)
    generalize (s.daemon.ring.trySend msg).1 = result at *
    have hset := sending_set hi todo (some result)
    simp only [List.map_cons, List.map_nil, Multiset.coe_nil, add_zero, List.count_nil,
      Option.toList_none, Option.toList_some] at hpend' hcount' hset
    refine ⟨by rw [hthreads, List.length_set, hlen], ?_, ?_, ?_, ?_, ?_⟩
    · intro j th program hj hprogram
      rw [hsent, ofParty_append]
      rw [hthreads] at hj
      by_cases hij : i = j
      · subst hij
        obtain ⟨hlt, -⟩ := List.getElem?_eq_some_iff.mp hi
        rw [List.getElem?_set_self hlt] at hj
        cases hj
        rw [← horder i _ program hi hprogram]
        simp [ofParty]
      · rw [List.getElem?_set_ne hij] at hj
        rw [← horder j th program hj hprogram]
        simp [ofParty, hij]
    · rw [hsent]
      obtain ⟨hlt, -⟩ := List.getElem?_eq_some_iff.mp hi
      exact List.forall_mem_append.mpr ⟨htags, by simpa [← hlen] using hlt⟩
    · rw [henq', hsent, henq, List.map_append, List.filterMap_append]
      rfl
    · rw [hpend', hthreads, hset, hpend]
    · intro r
      rw [hcount', hpend', hsent, List.map_append, List.countP_append, ← hcount, Multiset.count_add,
        Nat.add_assoc]
      by_cases hr : result = r
      · simp [hr]
      · simp [hr, Ne.symm hr]
  · obtain ⟨henq', hpend', hcount'⟩ := sent_countSend (step_of_daemonStep hd)
    have hset := sending_set hi todo none
    simp only [List.map_nil, Multiset.coe_nil, add_zero, List.filterMap_nil, List.append_nil,
      Option.toList_none, Option.toList_some] at hpend' henq' hset
    refine ⟨by rw [hthreads, List.length_set, hlen], ?_, hsent ▸ htags, ?_, ?_, ?_⟩
    · intro j th program hj hprogram
      rw [hthreads] at hj
      rw [hsent]
      by_cases hij : i = j
      · subst hij
        obtain ⟨hlt, -⟩ := List.getElem?_eq_some_iff.mp hi
        rw [List.getElem?_set_self hlt] at hj
        cases hj
        exact horder i ⟨todo, some result⟩ program hi hprogram
      · rw [List.getElem?_set_ne hij] at hj
        exact horder j th program hj hprogram
    · rw [henq', hsent, henq]
    · rw [hthreads]
      rw [hpend, ← hset] at hpend'
      exact add_right_cancel hpend'
    · intro r
      rw [hcount', hsent, ← hcount, ← hpend', Multiset.count_add, Multiset.coe_count]
      omega
  · obtain ⟨henq', hpend', hcount'⟩ := sent_quiet hquiet (step_of_daemonStep hd)
    rw [List.filterMap_nil, List.append_nil] at henq'
    simp only [List.map_nil, Multiset.coe_nil, add_zero, List.count_nil] at hpend' hcount'
    refine ⟨hthreads ▸ hlen, ?_, ?_, ?_, ?_, ?_⟩
    · rw [hthreads, hsent]
      exact horder
    · rw [hsent]
      exact htags
    · rw [henq', hsent, henq]
    · rw [hpend', hthreads, hpend]
    · intro r
      rw [hcount', hpend', hsent, hcount]

end Accounting

section Threads

variable {programs : List (List Pipeline.Message)} {ringCapacity : Nat} {events : List Event}

/-- The messages of each thread that got into the ring. -/
def accepted (programs : List (List Pipeline.Message)) (s : Server) : List (List Pipeline.Message) :=
  (List.range programs.length).map (fun i => (ofParty i s.sent).filterMap got)

theorem sublist_of_got (l : List (Pipeline.Message × SendResult)) :
    (l.filterMap got).Sublist (l.map Prod.fst) := by
  induction l with
  | nil => exact List.Sublist.refl _
  | cons p l ih =>
    by_cases hp : p.2 = .ok
    · have hg : got p = some p.1 := if_pos hp
      rw [List.filterMap_cons_some hg]
      exact ih.cons_cons p.1
    · have hg : got p = none := if_neg hp
      rw [List.filterMap_cons_none hg]
      exact ih.cons p.1

theorem got_of_ok {l : List (Pipeline.Message × SendResult)} (h : ∀ p ∈ l, p.2 = .ok) :
    l.filterMap got = l.map Prod.fst := by
  rw [← List.filterMap_eq_map]
  exact List.filterMap_congr fun p hp => if_pos (h p hp)

theorem sent_programs (ho : Ordered programs s) (hquiet : s.Quiet) :
    (List.range programs.length).map (fun i => (ofParty i s.sent).map Prod.fst) = programs := by
  refine List.ext_getElem (by simp) fun i hi hi' => ?_
  have hth := List.getElem?_eq_getElem (ho.length.symm ▸ hi' : i < s.threads.length)
  have horder := ho.order i _ _ hth (List.getElem?_eq_getElem hi')
  rw [hquiet _ (List.getElem_mem _), List.append_nil] at horder
  rw [List.getElem_map, List.getElem_range, horder]

theorem pending_quiet (ho : Ordered programs s) (hquiet : s.Quiet) : s.daemon.pending = 0 := by
  have hnone : s.threads.filterMap Thread.sending = [] :=
    List.filterMap_eq_nil_iff.mpr fun th hth => congrArg Thread.sending (hquiet th hth)
  rw [ho.pending, hnone]
  rfl

theorem counted_quiet (ho : Ordered programs s) (hquiet : s.Quiet) (r : SendResult) :
    counter s.daemon r = (s.sent.map Prod.snd).countP (fun p => p.2 = r) := by
  rw [← ho.counted, pending_quiet ho hquiet, Multiset.count_zero, Nat.add_zero]

theorem length_by_result (l : List (Pipeline.Message × SendResult)) :
    l.length = l.countP (fun p => p.2 = .ok) + l.countP (fun p => p.2 = .full) +
      l.countP (fun p => p.2 = .disconnected) := by
  induction l with
  | nil => rfl
  | cons p l ih =>
    rw [List.length_cons, ih, List.countP_cons, List.countP_cons, List.countP_cons]
    cases p.2 <;> simp <;> omega

theorem counters_sum (ho : Ordered programs s) (hquiet : s.Quiet) :
    (programs.map List.length).sum = s.daemon.delivered + s.daemon.droppedFull +
      s.daemon.droppedDisconnected := by
  have hlen : (List.range programs.length).map (List.length ∘ fun i => (ofParty i s.sent).map Prod.fst) =
      ((List.range programs.length).map (fun i => ofParty i s.sent)).map List.length := by
    rw [List.map_map]
    exact List.map_congr_left fun i _ => List.length_map ..
  have hok : s.daemon.delivered = _ := counted_quiet ho hquiet .ok
  have hfull : s.daemon.droppedFull = _ := counted_quiet ho hquiet .full
  have hgone : s.daemon.droppedDisconnected = _ := counted_quiet ho hquiet .disconnected
  conv => lhs; rw [← sent_programs ho hquiet]
  rw [List.map_map, hlen, ← (interleaves_tagged ho.tags).length, length_by_result, hok, hfull, hgone]

theorem accepted_sublist (ho : Ordered programs s) (hquiet : s.Quiet) :
    List.Forall₂ List.Sublist (accepted programs s) programs := by
  conv => arg 3; rw [← sent_programs ho hquiet]
  rw [accepted, List.forall₂_map_left_iff, List.forall₂_map_right_iff]
  exact List.forall₂_same.mpr fun i _ => sublist_of_got _

theorem accepted_eq (ho : Ordered programs s) (hquiet : s.Quiet) (hfull : s.daemon.droppedFull = 0)
    (hgone : s.daemon.droppedDisconnected = 0) : accepted programs s = programs := by
  have hok : ∀ p ∈ s.sent.map Prod.snd, p.2 = .ok := by
    intro p hp
    have hdrop : ∀ r, counter s.daemon r = 0 → p.2 ≠ r := by
      intro r hr
      rw [counted_quiet ho hquiet, List.countP_eq_zero] at hr
      simpa using hr p hp
    cases hr : p.2 with
    | ok => rfl
    | full => exact absurd hr (hdrop .full hfull)
    | disconnected => exact absurd hr (hdrop .disconnected hgone)
  conv => rhs; rw [← sent_programs ho hquiet]
  refine List.map_congr_left fun i _ => got_of_ok fun p hp => hok p ?_
  exact (ofParty_sublist i s.sent).subset hp

/-- What a receiver has passed to `deliver` is handled, still queued, gone with
the ring or counted as dropped, and those that are handled are the first of those
that got into the ring. -/
structure Handled (programs : List (List Pipeline.Message)) (d : State)
    (parts handled : List (List Pipeline.Message)) : Prop where
  accepted : List.Forall₂ List.Sublist parts programs
  enqueued : Interleaves parts d.enqueued
  first : List.Forall₂ (· <+: ·) handled parts
  processed : Interleaves handled d.processed
  balance : (programs.map List.length).sum = d.processed.length + d.ring.queue.length +
    d.discarded.length + d.droppedFull + d.droppedDisconnected
  undropped : d.droppedFull = 0 → d.droppedDisconnected = 0 → parts = programs
  emptied : d.ring.queue = [] → d.discarded = [] → handled = parts

theorem handled_of_programs
    (h : run (serverStep C cs outcome) (Server.init ringCapacity programs) events = some s)
    (hquiet : s.Quiet) (hw : Between s.daemon) :
    ∃ parts handled, Handled programs s.daemon parts handled := by
  have ho : Ordered programs s := run_invariant ordered_step (ordered_init ringCapacity) h
  obtain ⟨hrun, -⟩ := trace_lower lower_step h
  have hi : Inv C cs ringCapacity s.daemon :=
    run_invariant inv_step inv_init (run_of_steps step_of_daemonStep hrun)
  have hin := order_of_between hi hw
  have hparts : Interleaves (accepted programs s) s.daemon.enqueued := by
    have hmap := (interleaves_tagged ho.tags).filterMap got
    rwa [List.map_map, ← ho.enqueued] at hmap
  have hsplit : Interleaves (accepted programs s)
      (s.daemon.processed ++ (s.daemon.ring.queue ++ s.daemon.discarded)) := by
    rwa [← List.append_assoc, ← hin]
  obtain ⟨handled, hfirst, hprocessed, hall⟩ := hsplit.firsts
  refine ⟨accepted programs s, handled, accepted_sublist ho hquiet, hparts, hfirst, hprocessed, ?_,
    accepted_eq ho hquiet, fun hq hd => hall (by rw [hq, hd, List.append_nil])⟩
  have hsent := hi.sent
  rw [pending_quiet ho hquiet, Multiset.count_zero, Nat.add_zero, hin, List.length_append,
    List.length_append] at hsent
  rw [counters_sum ho hquiet, hsent]

theorem calls_of_programs
    (h : run (serverStep C cs outcome) (Server.init ringCapacity programs) events = some s)
    (hw : Between s.daemon) :
    trace (serverStep C cs outcome) (serverCalls C cs) (Server.init ringCapacity programs) events =
      s.daemon.processed.filterMap (recordOf C cs) := by
  obtain ⟨hrun, htrace⟩ := trace_lower lower_step h
  obtain ⟨-, htally⟩ := handled_of_run hrun hw
  obtain ⟨-, hhanded, -⟩ := foldlM_handle htally
  exact htrace.symm.trans hhanded

/-- In every interleaving of the receiver threads with each other and with the
worker, the messages are handled in an order that keeps that of each thread, and
those that are missing are queued, have gone with the ring or are counted as
dropped. -/
theorem receivers_interleave
    (h : run (serverStep C cs outcome) (Server.init ringCapacity programs) events = some s)
    (hquiet : s.Quiet) (hw : Between s.daemon) :
    ∃ parts handled, Handled programs s.daemon parts handled ∧
      Interleaves (handled.map (List.filterMap (recordOf C cs)))
        (trace (serverStep C cs outcome) (serverCalls C cs) (Server.init ringCapacity programs)
          events) := by
  obtain ⟨parts, handled, hh⟩ := handled_of_programs h hquiet hw
  refine ⟨parts, handled, hh, ?_⟩
  rw [calls_of_programs h hw]
  exact hh.processed.filterMap (recordOf C cs)

def full : List Event :=
  [.send 0, .send 1, .count 1, .count 0, .daemon .loadStop, .daemon .recv, .daemon .countReceived,
    .daemon .parseLine, .daemon (.exportDone true), .daemon .countExport]

def afterFull : Server :=
  ⟨[⟨[], none⟩, ⟨[], none⟩], afterBurst, [(0, ⟨[53]⟩, .ok), (1, ⟨[54]⟩, .full)]⟩

theorem receivers_interleave_full :
    ∃ parts handled, Handled [[⟨[53]⟩], [⟨[54]⟩]] afterBurst parts handled ∧
      Interleaves (handled.map (List.filterMap (recordOf noTimestamps countOnly)))
        (trace (serverStep noTimestamps countOnly (fun _ _ => true)) (serverCalls noTimestamps countOnly)
          (Server.init 0 [[⟨[53]⟩], [⟨[54]⟩]]) full) := by
  have hrun : run (serverStep noTimestamps countOnly (fun _ _ => true))
      (Server.init 0 [[⟨[53]⟩], [⟨[54]⟩]]) full = some afterFull := by
    decide +kernel
  exact receivers_interleave hrun (by decide) (Or.inl rfl)

end Threads

section Wire

/-- A receiver thread, with what its iterations find. -/
inductive Receiver
  | udp (polls : List Recvmsg)
  | tcp (addr : SocketAddr) (polls : List Poll)

def program (endian : Endian) (framing : TcpFraming) (maxFrameLen : Nat) :
    Receiver → List Pipeline.Message
  | .udp polls =>
    match udpRecvLoopLinux endian ⟨0, []⟩ polls with
    | .ok (r, _) => r.delivered.map (fun m => ⟨m.payload⟩)
    | .error _ => []
  | .tcp addr polls => (payloads (tcpConnLoop addr framing maxFrameLen polls).1).map Pipeline.Message.mk

/-- What a sender's lines are on the wire: a datagram each, or a stream in the
framing that the server is set to, however the network cuts it. -/
inductive Carries (framing : TcpFraming) (maxFrameLen : Nat) : Receiver → List Str → Prop
  | udp {polls : List Recvmsg} {lines : List Str}
    (h : (heard polls).filterMap arrived = lines.map encode) :
    Carries framing maxFrameLen (.udp polls) lines
  | tcp {addr : SocketAddr} {polls : List Poll} {lines : List Str} {stream : Bytes}
    (hs : Sends maxFrameLen framing (lines.map encode) stream)
    (hread : (received polls).flatten = stream) :
    Carries framing maxFrameLen (.tcp addr polls) lines

variable {endian : Endian} {framing : TcpFraming} {maxFrameLen ringCapacity : Nat}
  {receiver : Receiver} {receivers : List Receiver} {events : List Event}

end Wire

end TptTelemetry.Daemon.Receivers
