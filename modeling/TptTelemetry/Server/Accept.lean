import TptTelemetry.Lib.Concurrency

namespace TptTelemetry.Server.Accept

open TptTelemetry.Lib.Concurrency

/-- Where `tcp_accept_loop` stands. The number is that of the connections that
were counted when the one in hand was accepted. -/
inductive Acceptor
  | idle
  | accepted (counted : Nat)
  | added (counted : Nat) (cur : Int)
  | rejecting (counted : Nat)
  | subtracted (counted : Nat)
  | admitting (counted : Nat)
  | stopped
  deriving DecidableEq, Repr

structure State where
  acceptor : Acceptor
  live : Int
  running : Nat
  finishing : Nat
  rejectedConnections : Nat
  accepted : Nat
  spawned : Nat
  decremented : Nat
  deriving DecidableEq, Repr

def State.init : State := ⟨.idle, 0, 0, 0, 0, 0, 0, 0⟩

inductive Event
  | wait
  | accept
  | fetchAdd
  | compare
  | fetchSub
  | countRejected
  | spawn
  | leave
  | exit
  | decrement
  deriving DecidableEq, Repr

def step (maxConnections : Nat) (s : State) : Event → Option State
  | .wait => if s.acceptor = .idle then some s else none
  | .accept =>
    match s.acceptor with
    | .idle =>
      some { s with acceptor := .accepted (s.running + s.finishing), accepted := s.accepted + 1 }
    | _ => none
  | .fetchAdd =>
    match s.acceptor with
    | .accepted n => some { s with acceptor := .added n s.live, live := s.live + 1 }
    | _ => none
  | .compare =>
    match s.acceptor with
    | .added n cur =>
      if cur ≥ maxConnections then some { s with acceptor := .rejecting n }
      else some { s with acceptor := .admitting n }
    | _ => none
  | .fetchSub =>
    match s.acceptor with
    | .rejecting n => some { s with acceptor := .subtracted n, live := s.live - 1 }
    | _ => none
  | .countRejected =>
    match s.acceptor with
    | .subtracted _ =>
      some { s with acceptor := .idle, rejectedConnections := s.rejectedConnections + 1 }
    | _ => none
  | .spawn =>
    match s.acceptor with
    | .admitting _ =>
      some { s with acceptor := .idle, running := s.running + 1, spawned := s.spawned + 1 }
    | _ => none
  | .leave => if s.acceptor = .idle then some { s with acceptor := .stopped } else none
  | .exit =>
    match s.running with
    | 0 => none
    | n + 1 => some { s with running := n, finishing := s.finishing + 1 }
  | .decrement =>
    match s.finishing with
    | 0 => none
    | n + 1 =>
      some { s with finishing := n, live := s.live - 1, decremented := s.decremented + 1 }

/-- One while the acceptor has counted the connection in hand without having
spawned it or taken it off again. -/
def window : Acceptor → Nat
  | .added _ _ | .rejecting _ | .admitting _ => 1
  | _ => 0

/-- One from the accept of a connection until it is spawned or counted as
rejected. -/
def inHand : Acceptor → Nat
  | .accepted _ | .added _ _ | .rejecting _ | .subtracted _ | .admitting _ => 1
  | _ => 0

/-- What the acceptor knows of the `k` connections that are counted: they only
become fewer while it holds a new one. -/
def Knows (maxConnections k : Nat) : Acceptor → Prop
  | .accepted n => k ≤ n ∧ n ≤ maxConnections
  | .added n cur => (k : Int) ≤ cur ∧ cur ≤ n ∧ n ≤ maxConnections
  | .rejecting n | .subtracted n => n = maxConnections
  | .admitting _ => k < maxConnections
  | .idle | .stopped => True

structure Inv (maxConnections : Nat) (s : State) : Prop where
  live : s.live = (s.running + s.finishing + window s.acceptor : Nat)
  cap : s.running + s.finishing ≤ maxConnections
  spawned : s.spawned = s.running + s.finishing + s.decremented
  balance : s.accepted = s.spawned + s.rejectedConnections + inHand s.acceptor
  knows : Knows maxConnections (s.running + s.finishing) s.acceptor

theorem inv_init (maxConnections : Nat) : Inv maxConnections State.init :=
  ⟨rfl, Nat.zero_le _, rfl, rfl, trivial⟩

theorem Knows.mono {maxConnections k k' : Nat} {a : Acceptor} (h : Knows maxConnections k a)
    (hk : k' ≤ k) : Knows maxConnections k' a := by
  cases a with
  | accepted n => exact ⟨Nat.le_trans hk h.1, h.2⟩
  | added n cur => exact ⟨Int.le_trans (Int.ofNat_le.mpr hk) h.1, h.2⟩
  | admitting n => exact Nat.lt_of_le_of_lt hk h
  | rejecting n => exact h
  | subtracted n => exact h
  | idle => trivial
  | stopped => trivial

section Steps

variable {maxConnections n : Nat} {s : State}

theorem inv_fetchAdd (hi : Inv maxConnections s) (ha : s.acceptor = .accepted n) :
    Inv maxConnections { s with acceptor := .added n s.live, live := s.live + 1 } := by
  obtain ⟨hl, hc, hs, hb, hk⟩ := hi
  rw [ha] at hl hb hk
  obtain ⟨hkn, hnm⟩ := hk
  simp only [window] at hl
  refine ⟨?_, hc, hs, hb, ?_, ?_, hnm⟩
  · simp only [window]
    omega
  · simp only
    omega
  · omega

theorem inv_compare {cur : Int} (hi : Inv maxConnections s) (ha : s.acceptor = .added n cur) :
    (cur ≥ maxConnections → Inv maxConnections { s with acceptor := .rejecting n }) ∧
      (¬ cur ≥ maxConnections → Inv maxConnections { s with acceptor := .admitting n }) := by
  obtain ⟨hl, hc, hs, hb, hk⟩ := hi
  rw [ha] at hl hb hk
  obtain ⟨hkc, hcn, hnm⟩ := hk
  constructor
  · intro hfull
    refine ⟨hl, hc, hs, hb, ?_⟩
    simp only [Knows]
    omega
  · intro hfree
    refine ⟨hl, hc, hs, hb, ?_⟩
    simp only [Knows]
    omega

theorem inv_fetchSub (hi : Inv maxConnections s) (ha : s.acceptor = .rejecting n) :
    Inv maxConnections { s with acceptor := .subtracted n, live := s.live - 1 } := by
  obtain ⟨hl, hc, hs, hb, hk⟩ := hi
  rw [ha] at hl hb hk
  simp only [window] at hl
  refine ⟨?_, hc, hs, hb, hk⟩
  simp only [window]
  omega

theorem inv_countRejected (hi : Inv maxConnections s) (ha : s.acceptor = .subtracted n) :
    Inv maxConnections
      { s with acceptor := .idle, rejectedConnections := s.rejectedConnections + 1 } := by
  obtain ⟨hl, hc, hs, hb, hk⟩ := hi
  rw [ha] at hl hb hk
  simp only [inHand] at hb
  refine ⟨hl, hc, hs, ?_, trivial⟩
  simp only [inHand]
  omega

theorem inv_spawn (hi : Inv maxConnections s) (ha : s.acceptor = .admitting n) :
    Inv maxConnections
      { s with acceptor := .idle, running := s.running + 1, spawned := s.spawned + 1 } := by
  obtain ⟨hl, hc, hs, hb, hk⟩ := hi
  rw [ha] at hl hb hk
  simp only [window, inHand, Knows] at hl hb hk
  refine ⟨?_, ?_, ?_, ?_, trivial⟩
  · simp only [window]
    omega
  · simp only
    omega
  · simp only
    omega
  · simp only [inHand]
    omega

theorem inv_exit (hi : Inv maxConnections s) (hr : s.running = n + 1) :
    Inv maxConnections { s with running := n, finishing := s.finishing + 1 } := by
  obtain ⟨hl, hc, hs, hb, hk⟩ := hi
  rw [hr] at hl hc hs hk
  have hn : n + (s.finishing + 1) = n + 1 + s.finishing := by omega
  exact ⟨by rw [hl, hn], hn ▸ hc, hn ▸ hs, hb, hn ▸ hk⟩

theorem inv_decrement (hi : Inv maxConnections s) (hf : s.finishing = n + 1) :
    Inv maxConnections
      { s with finishing := n, live := s.live - 1, decremented := s.decremented + 1 } := by
  obtain ⟨hl, hc, hs, hb, hk⟩ := hi
  rw [hf] at hl hc hs hk
  refine ⟨?_, ?_, ?_, hb, hk.mono (by simp only; omega)⟩
  · simp only
    omega
  · simp only
    omega
  · simp only
    omega

end Steps

theorem inv_step {maxConnections : Nat} {s s' : State} {e : Event} (hi : Inv maxConnections s)
    (h : step maxConnections s e = some s') : Inv maxConnections s' := by
  cases e with
  | wait =>
    simp only [step] at h
    split at h <;> cases h
    exact hi
  | leave =>
    simp only [step] at h
    split at h <;> cases h
    next ha =>
    obtain ⟨hl, hc, hs, hb, -⟩ := hi
    rw [ha] at hl hb
    exact ⟨hl, hc, hs, hb, trivial⟩
  | accept =>
    cases ha : s.acceptor <;> simp only [step, ha] at h <;> cases h
    obtain ⟨hl, hc, hs, hb, -⟩ := hi
    rw [ha] at hl hb
    exact ⟨hl, hc, hs, congrArg (· + 1) hb, Nat.le_refl _, hc⟩
  | fetchAdd =>
    cases ha : s.acceptor <;> simp only [step, ha] at h <;> cases h
    exact inv_fetchAdd hi ha
  | compare =>
    cases ha : s.acceptor <;> simp only [step, ha] at h <;> try cases h
    split at h <;> cases h
    · next hfull => exact (inv_compare hi ha).1 hfull
    · next hfree => exact (inv_compare hi ha).2 hfree
  | fetchSub =>
    cases ha : s.acceptor <;> simp only [step, ha] at h <;> cases h
    exact inv_fetchSub hi ha
  | countRejected =>
    cases ha : s.acceptor <;> simp only [step, ha] at h <;> cases h
    exact inv_countRejected hi ha
  | spawn =>
    cases ha : s.acceptor <;> simp only [step, ha] at h <;> cases h
    exact inv_spawn hi ha
  | exit =>
    cases hr : s.running <;> simp only [step, hr] at h <;> cases h
    exact inv_exit hi hr
  | decrement =>
    cases hf : s.finishing <;> simp only [step, hf] at h <;> cases h
    exact inv_decrement hi hf

/-- What the cap promises: `live` counts the connections that are spawned and
not yet decremented, with the one in the acceptor's window; a connection is
rejected only when all places were counted at its accept; and every connection
but the one in hand was spawned or is counted as rejected. -/
structure Capped (maxConnections : Nat) (s : State) : Prop where
  cap : s.running ≤ maxConnections
  no_underflow : 0 ≤ s.live
  live : s.live = (s.spawned : Int) - s.decremented + window s.acceptor
  full : ∀ n, s.acceptor = .rejecting n ∨ s.acceptor = .subtracted n → n = maxConnections
  balance : s.accepted = s.spawned + s.rejectedConnections + inHand s.acceptor

theorem connection_cap {maxConnections : Nat} {events : List Event} {s : State}
    (h : run (step maxConnections) State.init events = some s) : Capped maxConnections s := by
  obtain ⟨hl, hc, hs, hb, hk⟩ := run_invariant inv_step (inv_init maxConnections) h
  refine ⟨by omega, by omega, by omega, ?_, hb⟩
  intro n hn
  obtain ha | ha := hn <;> rw [ha] at hk <;> exact hk

/-- With one place, a second connection is rejected while the first one has
left its loop and is still counted. -/
theorem connection_cap_one :
    run (step 1) State.init [.accept, .fetchAdd, .compare, .spawn, .accept, .exit, .fetchAdd,
        .compare, .decrement, .fetchSub, .countRejected] = some ⟨.idle, 0, 0, 0, 1, 2, 1, 1⟩ ∧
      Capped 1 ⟨.idle, 0, 0, 0, 1, 2, 1, 1⟩ := by
  have h : run (step 1) State.init [.accept, .fetchAdd, .compare, .spawn, .accept, .exit, .fetchAdd,
      .compare, .decrement, .fetchSub, .countRejected] = some ⟨.idle, 0, 0, 0, 1, 2, 1, 1⟩ := by
    decide
  exact ⟨h, connection_cap h⟩

/-- A rejected connection is taken off `live` before it is counted in the
statistic: in between, outside the window, it is in neither count. -/
theorem rejected_uncounted :
    ∃ s, run (step 0) State.init [.accept, .fetchAdd, .compare, .fetchSub] = some s ∧
      window s.acceptor = 0 ∧ s.accepted ≠ s.spawned + s.rejectedConnections :=
  ⟨⟨.subtracted 0, 0, 0, 0, 0, 1, 0, 0⟩, by decide, by decide, by decide⟩

end TptTelemetry.Server.Accept
