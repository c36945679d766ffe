import TptTelemetry.Daemon.MetricsHttp
import TptTelemetry.Daemon.Worker

namespace TptTelemetry.Daemon.Scrape

open TptTelemetry.Lib TptTelemetry.Lib.Text TptTelemetry.Lib.Utf8 TptTelemetry.Lib.Concurrency
open TptTelemetry.Lib.Simulation
open TptTelemetry.Compiler.Scalar TptTelemetry.Compiler.Compile TptTelemetry.Compiler.Typed
open TptTelemetry.Daemon.MetricsHttp
open TptTelemetry.Daemon.Pipeline (State)
open TptTelemetry.Daemon.Worker (Turn step_worker ofWorker_turn)

section Model

structure Totals where
  received : Nat
  exported : Nat
  errors : Nat
  delivered : Nat
  droppedFull : Nat
  droppedDisconnected : Nat
  kernelOverflow : UInt64
  rejectedConnections : Nat
  deriving DecidableEq

/-- Where `run_metrics` stands. It holds the server from the lock on, and loads
one counter after the other. What the counters were at the lock is kept for the
proofs. -/
inductive Metrics
  | idle
  | scraping (loads : Nat) (before shown : Totals)
  deriving DecidableEq

/-- The daemon with its metrics thread. -/
structure Process where
  pipe : State
  kernelOverflow : UInt64
  rejectedConnections : Nat
  metrics : Metrics
  deriving DecidableEq

def Process.init (ringCapacity : Nat) : Process := ⟨State.init ringCapacity, 0, 0, .idle⟩

def Process.totals (d : Process) : Totals :=
  { received := d.pipe.received
    exported := d.pipe.exported
    errors := d.pipe.errors
    delivered := d.pipe.delivered
    droppedFull := d.pipe.droppedFull
    droppedDisconnected := d.pipe.droppedDisconnected
    kernelOverflow := d.kernelOverflow
    rejectedConnections := d.rejectedConnections }

/-- The snapshot of the server is taken before the counters of the daemon. -/
def load (now shown : Totals) : Nat → Totals
  | 0 => { shown with delivered := now.delivered }
  | 1 => { shown with droppedFull := now.droppedFull }
  | 2 => { shown with droppedDisconnected := now.droppedDisconnected }
  | 3 => { shown with kernelOverflow := now.kernelOverflow }
  | 4 => { shown with rejectedConnections := now.rejectedConnections }
  | 5 => { shown with received := now.received }
  | 6 => { shown with exported := now.exported }
  | _ => { shown with errors := now.errors }

inductive Event
  | pipe (e : Pipeline.Event)
  | reportOverflow (total : UInt32)
  | reject
  | lock
  | load
  | unlock
  deriving DecidableEq

/-- The steps of the worker under the lock of the server, and the end of the
server. -/
def needsServer : Pipeline.Event → Bool
  | .recv | .timeout | .disconnected | .dropServer => true
  | _ => false

def step (C : Chrono) (cs : CompiledSchema) (d : Process) : Event → Option Process
  | .pipe e =>
    if needsServer e = true ∧ d.metrics ≠ .idle then none
    else (Pipeline.step C cs d.pipe e).map (fun pipe => { d with pipe })
  | .reportOverflow total => some { d with kernelOverflow := total.toUInt64 }
  | .reject => some { d with rejectedConnections := d.rejectedConnections + 1 }
  | .lock =>
    match d.metrics with
    | .idle => some { d with metrics := .scraping 0 d.totals d.totals }
    | .scraping _ _ _ => none
  | .load =>
    match d.metrics with
    | .scraping n before shown =>
      if n < 8 then some { d with metrics := .scraping (n + 1) before (load d.totals shown n) }
      else none
    | .idle => none
  | .unlock =>
    match d.metrics with
    | .scraping 8 _ _ => some { d with metrics := .idle }
    | _ => none

def scraped (d : Process) : Event → List Totals
  | .unlock =>
    match d.metrics with
    | .scraping 8 _ shown => [shown]
    | _ => []
  | _ => []

/-- The total that the kernel reports for the UDP socket. -/
def reported : Event → Option UInt64
  | .reportOverflow total => some total.toUInt64
  | _ => none

/-- The totals that the kernel reports do not go down, as its thirty-two bits do
when they are full. -/
def Cumulative (events : List Event) : Prop := (events.filterMap reported).Pairwise (· ≤ ·)

/-- No counter is less, nor that of the kernel if its reports are `rising`. -/
structure Totals.Le (rising : Prop) (a b : Totals) : Prop where
  received : a.received ≤ b.received
  exported : a.exported ≤ b.exported
  errors : a.errors ≤ b.errors
  delivered : a.delivered ≤ b.delivered
  droppedFull : a.droppedFull ≤ b.droppedFull
  droppedDisconnected : a.droppedDisconnected ≤ b.droppedDisconnected
  rejectedConnections : a.rejectedConnections ≤ b.rejectedConnections
  kernelOverflow : rising → a.kernelOverflow ≤ b.kernelOverflow

def taken (s : State) : Nat := s.processed.length + (Pipeline.inHand s.worker).length

end Model

variable {C : Chrono} {cs : CompiledSchema} {ringCapacity : Nat} {rising : Prop}

section Order

variable {a b c : Totals}

theorem Totals.Le.refl (a : Totals) : a.Le rising a :=
  ⟨le_rfl, le_rfl, le_rfl, le_rfl, le_rfl, le_rfl, le_rfl, fun _ => UInt64.le_refl _⟩

theorem Totals.Le.trans (h : a.Le rising b) (h' : b.Le rising c) : a.Le rising c :=
  ⟨h.1.trans h'.1, h.2.trans h'.2, h.3.trans h'.3, h.4.trans h'.4, h.5.trans h'.5, h.6.trans h'.6,
    h.7.trans h'.7, fun hr => UInt64.le_trans (h.8 hr) (h'.8 hr)⟩

theorem load_le (hle : a.Le rising b) (hnow : b.Le rising c) (n : Nat) :
    a.Le rising (load c b n) ∧ (load c b n).Le rising c := by
  have hac := hle.trans hnow
  have hrefl : c.Le rising c := .refl c
  obtain ⟨l1, l2, l3, l4, l5, l6, l7, l8⟩ := hle
  obtain ⟨n1, n2, n3, n4, n5, n6, n7, n8⟩ := hnow
  obtain ⟨c1, c2, c3, c4, c5, c6, c7, c8⟩ := hac
  obtain ⟨r1, r2, r3, r4, r5, r6, r7, r8⟩ := hrefl
  unfold load
  split <;> constructor <;> constructor <;> assumption

end Order

section Steps

variable {s t : State} {d d' : Process}

theorem counters_mono {e : Pipeline.Event} (h : Pipeline.step C cs s e = some t) :
    s.received ≤ t.received ∧ s.exported ≤ t.exported ∧ s.errors ≤ t.errors ∧
      s.delivered ≤ t.delivered ∧ s.droppedFull ≤ t.droppedFull ∧
      s.droppedDisconnected ≤ t.droppedDisconnected := by
  cases e with
  | countSend result =>
    simp only [Pipeline.step] at h
    split at h <;> cases h
    cases result <;> simp [Pipeline.bump]
  | parseLine | disconnected =>
    simp only [Pipeline.step] at h
    split at h
    · split at h <;> cases h <;> simp
    · cases h
  | requestStop =>
    cases h
    simp
  | _ =>
    simp only [Pipeline.step] at h
    split at h <;> cases h <;> simp

/-- While the worker cannot receive, it can finish the message in its hand, and
no other. -/
theorem taken_step {e : Pipeline.Event} (he : needsServer e = false)
    (h : Pipeline.step C cs s e = some t) : taken t = taken s := by
  obtain ⟨-, hw, hp, -⟩ | ⟨done, hturn, hp, -⟩ := step_worker h
  · rw [taken, taken, hw, hp]
  · rw [taken, taken, hp, List.length_append]
    generalize s.worker = v, t.worker = w at hturn ⊢
    cases hturn with
    | take msg | timeout | disconnected => cases he
    | _ => simp [Pipeline.inHand]

theorem pipe_step {e : Pipeline.Event} (h : step C cs d (.pipe e) = some d') :
    ∃ pipe, Pipeline.step C cs d.pipe e = some pipe ∧ d' = { d with pipe } ∧
      (d.metrics ≠ .idle → needsServer e = false) := by
  rw [step] at h
  split at h
  · cases h
  · next hfree =>
    obtain ⟨pipe, hp, rfl⟩ := Option.map_eq_some_iff.mp h
    exact ⟨pipe, hp, rfl, fun hm => by simpa [hm] using hfree⟩

theorem step_cases {e : Event} (h : step C cs d e = some d') :
    (∃ p, e = .pipe p ∧ scraped d e = []) ∨
      (∃ total, e = .reportOverflow total ∧ d' = { d with kernelOverflow := total.toUInt64 }) ∨
      (scraped d e = [] ∧ d' = { d with rejectedConnections := d.rejectedConnections + 1 }) ∨
      (scraped d e = [] ∧ d' = { d with metrics := .scraping 0 d.totals d.totals }) ∨
      (∃ n before shown, scraped d e = [] ∧ d.metrics = .scraping n before shown ∧
        d' = { d with metrics := .scraping (n + 1) before (load d.totals shown n) }) ∨
      ∃ before shown, scraped d e = [shown] ∧ d.metrics = .scraping 8 before shown ∧
        d' = { d with metrics := .idle } := by
  cases e with
  | pipe p => exact Or.inl ⟨p, rfl, rfl⟩
  | reportOverflow total =>
    cases h
    exact Or.inr (Or.inl ⟨total, rfl, rfl⟩)
  | reject =>
    cases h
    exact Or.inr (Or.inr (Or.inl ⟨rfl, rfl⟩))
  | lock =>
    rw [step] at h
    split at h <;> cases h
    exact Or.inr (Or.inr (Or.inr (Or.inl ⟨rfl, rfl⟩)))
  | load =>
    rw [step] at h
    split at h
    · next n before shown hm =>
      split at h <;> cases h
      exact Or.inr (Or.inr (Or.inr (Or.inr (Or.inl ⟨n, before, shown, rfl, hm, rfl⟩))))
    · cases h
  | unlock =>
    rw [step] at h
    split at h <;> cases h
    next before shown hm =>
    refine Or.inr (Or.inr (Or.inr (Or.inr (Or.inr ⟨before, shown, ?_, hm, rfl⟩))))
    simp only [scraped, hm]

theorem totals_mono {e : Event} (h : step C cs d e = some d')
    (hrise : rising → ∀ total, reported e = some total → d.kernelOverflow ≤ total) :
    d.totals.Le rising d'.totals := by
  obtain ⟨p, rfl, -⟩ | ⟨total, rfl, rfl⟩ | ⟨-, rfl⟩ | ⟨-, rfl⟩ | ⟨n, before, shown, -, -, rfl⟩ |
    ⟨before, shown, -, -, rfl⟩ := step_cases h
  · obtain ⟨pipe, hstep, rfl, -⟩ := pipe_step h
    obtain ⟨h1, h2, h3, h4, h5, h6⟩ := counters_mono hstep
    exact ⟨h1, h2, h3, h4, h5, h6, le_rfl, fun _ => UInt64.le_refl _⟩
  · exact ⟨le_rfl, le_rfl, le_rfl, le_rfl, le_rfl, le_rfl, le_rfl, fun hr => hrise hr _ rfl⟩
  · exact ⟨le_rfl, le_rfl, le_rfl, le_rfl, le_rfl, le_rfl, Nat.le_succ _, fun _ => UInt64.le_refl _⟩
  · exact Totals.Le.refl _
  · exact Totals.Le.refl _
  · exact Totals.Le.refl _

theorem kernelOverflow_step {e : Event} (h : step C cs d e = some d') :
    d'.kernelOverflow = (reported e).getD d.kernelOverflow := by
  cases e with
  | pipe p =>
    obtain ⟨pipe, -, rfl, -⟩ := pipe_step h
    rfl
  | reportOverflow total | reject =>
    cases h
    rfl
  | lock | unlock =>
    rw [step] at h
    split at h <;> cases h
    rfl
  | load =>
    rw [step] at h
    split at h
    · split at h <;> cases h
      rfl
    · cases h

end Steps

section Runs

/-- A scrape in progress: what it shows is between what the counters were at the
lock and what they are, all earlier scrapes were over, and the worker has taken
at most one message that was not counted yet. -/
def Bracketed (rising : Prop) (d : Process) (past : List Totals) : Metrics → Prop
  | .idle => True
  | .scraping _ before shown => before.Le rising shown ∧ shown.Le rising d.totals ∧
    (∀ t ∈ past, t.Le rising before) ∧ taken d.pipe ≤ before.received + 1

/-- No more outcomes are shown than messages, but for the one in hand. -/
def Credible (t : Totals) : Prop := t.exported + t.errors ≤ t.received + 1

structure Inv (C : Chrono) (cs : CompiledSchema) (ringCapacity : Nat) (rising : Prop) (d : Process)
    (past : List Totals) : Prop where
  pipe : Pipeline.Inv C cs ringCapacity d.pipe
  earlier : ∀ t ∈ past, t.Le rising d.totals
  ordered : past.Pairwise (Totals.Le rising)
  credible : ∀ t ∈ past, Credible t
  now : Bracketed rising d past d.metrics

variable {d d' : Process} {past : List Totals}

theorem inv_init : Inv C cs ringCapacity rising (Process.init ringCapacity) [] :=
  ⟨Pipeline.inv_init, by simp, .nil, by simp, trivial⟩

theorem Bracketed.mono {m : Metrics} (h : Bracketed rising d past m)
    (hle : d.totals.Le rising d'.totals) (htaken : m ≠ .idle → taken d'.pipe = taken d.pipe) :
    Bracketed rising d' past m := by
  cases m with
  | idle => trivial
  | scraping n before shown =>
    obtain ⟨hb, hs, hpast, ht⟩ := h
    exact ⟨hb, hs.trans hle, hpast, (htaken nofun).trans_le ht⟩

theorem inHand_le (w : Pipeline.Worker) :
    (Pipeline.inHand w).length ≤ Pipeline.inHandCounted w + 1 := by
  cases w <;> simp [Pipeline.inHand, Pipeline.inHandCounted]

theorem taken_le (hi : Pipeline.Inv C cs ringCapacity d.pipe) :
    taken d.pipe ≤ d.totals.received + 1 := by
  have hhand := inHand_le d.pipe.worker
  have hrec := hi.received
  simp only [Process.totals, taken]
  omega

theorem outcomes_le_taken (hi : Pipeline.Inv C cs ringCapacity d.pipe) :
    d.totals.exported + d.totals.errors ≤ taken d.pipe := by
  have hout := hi.outcomes
  simp only [Process.totals, taken]
  omega

theorem inv_step {e : Event} (hi : Inv C cs ringCapacity rising d past)
    (h : step C cs d e = some d')
    (hrise : rising → ∀ total, reported e = some total → d.kernelOverflow ≤ total) :
    Inv C cs ringCapacity rising d' (past ++ scraped d e) := by
  have hmono := totals_mono h hrise
  have hpast : ∀ t ∈ past, t.Le rising d'.totals := fun t ht => (hi.earlier t ht).trans hmono
  have hnow := hi.now
  obtain ⟨p, rfl, hnone⟩ | ⟨total, rfl, rfl⟩ | ⟨hnone, rfl⟩ | ⟨hnone, rfl⟩ |
    ⟨n, before, shown, hnone, hm, rfl⟩ | ⟨before, shown, hshown, hm, rfl⟩ := step_cases h
  · obtain ⟨pipe, hstep, rfl, hfree⟩ := pipe_step h
    rw [hnone, List.append_nil]
    refine ⟨Pipeline.inv_step hi.pipe hstep, hpast, hi.ordered, hi.credible, ?_⟩
    exact hnow.mono hmono fun hidle => taken_step (hfree hidle) hstep
  · have hnone : scraped d (.reportOverflow total) = [] := rfl
    rw [hnone, List.append_nil]
    exact ⟨hi.pipe, hpast, hi.ordered, hi.credible, hnow.mono hmono fun _ => rfl⟩
  · rw [hnone, List.append_nil]
    exact ⟨hi.pipe, hpast, hi.ordered, hi.credible, hnow.mono hmono fun _ => rfl⟩
  · rw [hnone, List.append_nil]
    exact ⟨hi.pipe, hpast, hi.ordered, hi.credible, Totals.Le.refl _, Totals.Le.refl _, hi.earlier,
      taken_le hi.pipe⟩
  · rw [hnone, List.append_nil]
    rw [hm] at hnow
    obtain ⟨hb, hs, hbefore, ht⟩ := hnow
    obtain ⟨hlow, hhigh⟩ := load_le hb hs n
    exact ⟨hi.pipe, hpast, hi.ordered, hi.credible, hlow, hhigh, hbefore, ht⟩
  · rw [hshown]
    rw [hm] at hnow
    obtain ⟨hb, hs, hbefore, ht⟩ := hnow
    have hcredible : Credible shown := by
      have hout := outcomes_le_taken hi.pipe
      have hreceived := hb.received
      have hexported := hs.exported
      have herrors := hs.errors
      rw [Credible]
      omega
    refine ⟨hi.pipe, ?_, ?_, ?_, trivial⟩
    · simpa [or_imp, forall_and] using ⟨hpast, hs⟩
    · exact List.pairwise_append.mpr ⟨hi.ordered, List.pairwise_singleton _ _, fun t ht u hu => by
        rw [List.mem_singleton.mp hu]
        exact (hbefore t ht).trans hb⟩
    · simpa [or_imp, forall_and] using ⟨hi.credible, hcredible⟩

theorem inv_run {events : List Event} (hi : Inv C cs ringCapacity rising d past)
    (hrise : rising → (d.kernelOverflow :: events.filterMap reported).Pairwise (· ≤ ·))
    (h : run (step C cs) d events = some d') :
    Inv C cs ringCapacity rising d' (past ++ trace (step C cs) scraped d events) := by
  induction events generalizing d past with
  | nil =>
    cases h
    rw [trace, List.append_nil]
    exact hi
  | cons e events ih =>
    obtain ⟨u, hu, hrun⟩ := run_cons.mp h
    have hnext := kernelOverflow_step hu
    rw [trace_cons hu, ← List.append_assoc]
    cases hr : reported e with
    | none =>
      rw [hr, Option.getD_none] at hnext
      rw [List.filterMap_cons_none hr] at hrise
      exact ih (inv_step hi hu fun _ total ht => by cases hr.symm.trans ht) (hnext ▸ hrise) hrun
    | some total =>
      rw [hr, Option.getD_some] at hnext
      rw [List.filterMap_cons_some hr] at hrise
      refine ih (inv_step hi hu fun hrising total' ht => ?_) (fun hrising => ?_) hrun
      · cases hr.symm.trans ht
        exact (List.pairwise_cons.mp (hrise hrising)).1 _ List.mem_cons_self
      · rw [hnext]
        exact (List.pairwise_cons.mp (hrise hrising)).2

end Runs

section Responses

def Totals.counters (t : Totals) : Counters :=
  { received := UInt64.ofNat t.received
    exported := UInt64.ofNat t.exported
    errors := UInt64.ofNat t.errors
    delivered := UInt64.ofNat t.delivered
    droppedFull := UInt64.ofNat t.droppedFull
    droppedDisconnected := UInt64.ofNat t.droppedDisconnected
    kernelOverflow := t.kernelOverflow
    rejectedConnections := UInt64.ofNat t.rejectedConnections }

def ofCounters (c : Counters) : Totals :=
  { received := c.received.toNat
    exported := c.exported.toNat
    errors := c.errors.toNat
    delivered := c.delivered.toNat
    droppedFull := c.droppedFull.toNat
    droppedDisconnected := c.droppedDisconnected.toNat
    kernelOverflow := c.kernelOverflow
    rejectedConnections := c.rejectedConnections.toNat }

def responses (d : Process) (e : Event) : List Bytes :=
  (scraped d e).map (fun t => respond (answer (some "/metrics".toList) t.counters).1
    (answer (some "/metrics".toList) t.counters).2)

def scrape (s : Bytes) : Option Totals := do
  let (_, text) ← fetch s
  let c ← readCounters text
  some (ofCounters c)

theorem scrape_respond (c : Counters) : scrape (respond (answer (some "/metrics".toList) c).1
    (answer (some "/metrics".toList) c).2) = some (ofCounters c) := by
  have hfetch := fetch_answer (some "/metrics".toList) c []
  have hanswer : answer (some "/metrics".toList) c = ("200 OK".toList, renderMetrics c) := rfl
  rw [List.append_nil] at hfetch
  rw [scrape, hfetch, Option.bind_eq_bind, Option.bind_some, hanswer]
  simp only [readCounters_renderMetrics, Option.bind_eq_bind, Option.bind_some]

/-- Every counter that is counted up fits its sixty-four bits. -/
def Small (t : Totals) : Prop :=
  t.received < 2 ^ 64 ∧ t.exported < 2 ^ 64 ∧ t.errors < 2 ^ 64 ∧ t.delivered < 2 ^ 64 ∧
    t.droppedFull < 2 ^ 64 ∧ t.droppedDisconnected < 2 ^ 64 ∧ t.rejectedConnections < 2 ^ 64

variable {t u : Totals}

theorem Small.of_le (hu : Small u) (h : t.Le rising u) : Small t := by
  obtain ⟨h1, h2, h3, h4, h5, h6, h7, -⟩ := h
  obtain ⟨u1, u2, u3, u4, u5, u6, u7⟩ := hu
  exact ⟨h1.trans_lt u1, h2.trans_lt u2, h3.trans_lt u3, h4.trans_lt u4, h5.trans_lt u5,
    h6.trans_lt u6, h7.trans_lt u7⟩

theorem ofCounters_counters (ht : Small t) : ofCounters t.counters = t := by
  obtain ⟨h1, h2, h3, h4, h5, h6, h7⟩ := ht
  simp only [ofCounters, Totals.counters, UInt64.toNat_ofNat_of_lt' h1, UInt64.toNat_ofNat_of_lt' h2,
    UInt64.toNat_ofNat_of_lt' h3, UInt64.toNat_ofNat_of_lt' h4, UInt64.toNat_ofNat_of_lt' h5,
    UInt64.toNat_ofNat_of_lt' h6, UInt64.toNat_ofNat_of_lt' h7]

theorem small_totals {d : Process} (hi : Pipeline.Inv C cs ringCapacity d.pipe)
    (hcalls : d.pipe.calls < 2 ^ 64) (hrejected : d.rejectedConnections < 2 ^ 64) :
    Small d.totals := by
  have hsum := hi.calls
  have hsent := hi.sent
  have hrec := hi.received
  have hout := hi.outcomes
  have horder := congrArg List.length hi.order
  have hcount : d.pipe.pending.count .ok ≤ d.pipe.pending.card := Multiset.count_le_card _ _
  have hhand : Pipeline.inHandCounted d.pipe.worker ≤ (Pipeline.inHand d.pipe.worker).length := by
    cases d.pipe.worker <;> simp [Pipeline.inHand, Pipeline.inHandCounted]
  simp only [List.length_append] at horder
  exact ⟨by simp only [Process.totals]; omega, by simp only [Process.totals]; omega,
    by simp only [Process.totals]; omega, by simp only [Process.totals]; omega,
    by simp only [Process.totals]; omega, by simp only [Process.totals]; omega, hrejected⟩

/-- In every interleaving of the receivers, the worker and the metrics thread, what
a scraper reads are counters: each response is read back, no counter goes down from
one response to the next or is above what it is in the end, and no response shows
more outcomes than messages, but for the one that the worker had in its hand. The
kernel's counter is the kernel's, and does not go down if its reports do not. -/
theorem scrapes_consistent {events : List Event} {d : Process}
    (h : run (step C cs) (Process.init ringCapacity) events = some d)
    (hcalls : d.pipe.calls < 2 ^ 64) (hrejected : d.rejectedConnections < 2 ^ 64) :
    ∃ seen : List Totals, trace (step C cs) scraped (Process.init ringCapacity) events = seen ∧
      (trace (step C cs) responses (Process.init ringCapacity) events).map scrape =
        seen.map some ∧
      seen.Pairwise (Totals.Le (Cumulative events)) ∧
      ∀ t ∈ seen, t.Le (Cumulative events) d.totals ∧ t.exported + t.errors ≤ t.received + 1 := by
  have hrise : Cumulative events →
      ((Process.init ringCapacity).kernelOverflow :: events.filterMap reported).Pairwise (· ≤ ·) :=
    fun hc => List.pairwise_cons.mpr ⟨fun _ _ => UInt64.zero_le, hc⟩
  have hi : Inv C cs ringCapacity (Cumulative events) d
      ([] ++ trace (step C cs) scraped (Process.init ringCapacity) events) := inv_run inv_init hrise h
  rw [List.nil_append] at hi
  have hsmall := small_totals hi.pipe hcalls hrejected
  refine ⟨_, rfl, ?_, hi.ordered, fun t ht => ⟨hi.earlier t ht, hi.credible t ht⟩⟩
  unfold responses
  rw [trace_map, List.map_map]
  refine List.map_congr_left fun t ht => (scrape_respond t.counters).trans ?_
  rw [ofCounters_counters (hsmall.of_le (hi.earlier t ht))]

end Responses

/-- The worker finishes a message between two loads, and its outcome is shown
without it. The kernel has lost seven datagrams by then. -/
def late : List Event :=
  [.reportOverflow 7, .pipe (.trySend ⟨[53]⟩), .pipe (.countSend .ok), .pipe .loadStop, .pipe .recv,
    .lock, .load, .load, .load, .load, .load, .load, .pipe .countReceived, .pipe .parseLine,
    .pipe (.exportDone true), .pipe .countExport, .load, .load, .unlock]

def afterLate : Process :=
  ⟨⟨syncChannel 1, true, 0, 1, 0, 0, false, .loop, 1, 1, 0, 1, [⟨[53]⟩], [⟨[53]⟩], []⟩, 7, 0, .idle⟩

theorem scrapes_consistent_late :
    ∃ seen : List Totals,
      trace (step noTimestamps Pipeline.countOnly) scraped (Process.init 0) late = seen ∧
      (trace (step noTimestamps Pipeline.countOnly) responses (Process.init 0) late).map scrape =
        seen.map some ∧
      seen.Pairwise (Totals.Le (Cumulative late)) ∧
      ∀ t ∈ seen, t.Le (Cumulative late) afterLate.totals ∧ t.exported + t.errors ≤ t.received + 1 := by
  have hrun : run (step noTimestamps Pipeline.countOnly) (Process.init 0) late = some afterLate := by
    decide +kernel
  exact scrapes_consistent hrun (by decide) (by decide)

example : trace (step noTimestamps Pipeline.countOnly) scraped (Process.init 0) late =
    [⟨0, 1, 0, 1, 0, 0, 7, 0⟩] := by
  decide +kernel

end TptTelemetry.Daemon.Scrape
