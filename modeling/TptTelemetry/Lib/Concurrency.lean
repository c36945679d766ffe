import Mathlib.Data.List.Basic
import Mathlib.Data.List.Forall2

namespace TptTelemetry.Lib.Concurrency

section Runs

variable {σ ε : Type} {step : σ → ε → Option σ}

def run (step : σ → ε → Option σ) (s : σ) (events : List ε) : Option σ := events.foldlM step s

theorem run_cons {s t : σ} {e : ε} {events : List ε} :
    run step s (e :: events) = some t ↔ ∃ u, step s e = some u ∧ run step u events = some t := by
  rw [run, List.foldlM_cons]
  exact Option.bind_eq_some_iff

theorem run_invariant {Inv : σ → Prop} (hstep : ∀ {s e t}, Inv s → step s e = some t → Inv t)
    {events : List ε} {s t : σ} (hs : Inv s) (h : run step s events = some t) : Inv t := by
  induction events generalizing s with
  | nil =>
    cases h
    exact hs
  | cons e events ih =>
    obtain ⟨u, hu, hrun⟩ := run_cons.mp h
    exact ih (hstep hs hu) hrun

end Runs

section Channel

variable {α : Type}

/-- A bounded FIFO between any number of senders and one receiver. It is
disconnected for the senders once the receiver is dropped. -/
structure Channel (α : Type) where
  capacity : Nat
  queue : List α
  connected : Bool
  bounded : queue.length ≤ capacity
  deriving DecidableEq

def syncChannel (capacity : Nat) : Channel α := ⟨capacity, [], true, Nat.zero_le _⟩

inductive SendResult
  | ok
  | full
  | disconnected
  deriving DecidableEq, Repr

/-- A send that does not wait fails exactly when the channel is disconnected or
full. -/
def Channel.trySend (c : Channel α) (a : α) : SendResult × Channel α :=
  if c.connected = false then (.disconnected, c)
  else if h : c.queue.length < c.capacity then
    (.ok, { c with queue := c.queue ++ [a], bounded := by rw [List.length_append]; exact h })
  else (.full, c)

def Channel.recv (c : Channel α) : Option (α × Channel α) :=
  match h : c.queue with
  | [] => none
  | a :: q =>
    some (a, { c with queue := q, bounded := Nat.le_of_succ_le (by simpa [h] using c.bounded) })

/-- The receiver goes, and what is queued with it. -/
def Channel.dropReceiver (c : Channel α) : Channel α :=
  { c with queue := [], connected := false, bounded := Nat.zero_le _ }

theorem Channel.trySend_cases (c : Channel α) (a : α) :
    (c.connected = false ∧ c.trySend a = (.disconnected, c)) ∨
      (c.connected = true ∧ ∃ c', c.trySend a = (.ok, c') ∧ c'.queue = c.queue ++ [a] ∧
        c'.connected = true ∧ c'.capacity = c.capacity) ∨
      (c.connected = true ∧ c.queue.length = c.capacity ∧ c.trySend a = (.full, c)) := by
  rw [trySend]
  cases hc : c.connected with
  | false => exact Or.inl ⟨rfl, if_pos rfl⟩
  | true =>
    rw [if_neg (by simp)]
    by_cases h : c.queue.length < c.capacity
    · exact Or.inr (Or.inl ⟨rfl, _, dif_pos h, rfl, rfl, rfl⟩)
    · exact Or.inr (Or.inr ⟨rfl, Nat.le_antisymm c.bounded (Nat.le_of_not_lt h), dif_neg h⟩)

theorem Channel.recv_some {c c' : Channel α} {a : α} (h : c.recv = some (a, c')) :
    c.queue = a :: c'.queue ∧ c'.connected = c.connected ∧ c'.capacity = c.capacity := by
  rw [recv] at h
  split at h
  · cases h
  · next hq =>
    cases h
    exact ⟨hq, rfl, rfl⟩

structure Channel.Related {β : Type} (R : α → β → Prop) (c : Channel α) (d : Channel β) : Prop where
  queue : List.Forall₂ R c.queue d.queue
  capacity : c.capacity = d.capacity
  connected : c.connected = d.connected

section Related

variable {β : Type} {R : α → β → Prop} {c : Channel α} {d : Channel β} {a : α} {b : β}

theorem Channel.Related.trySend (h : c.Related R d) (hab : R a b) :
    (c.trySend a).1 = (d.trySend b).1 ∧ (c.trySend a).2.Related R (d.trySend b).2 := by
  obtain ⟨hq, hcap, hconn⟩ := h
  have hlen := hq.length_eq
  obtain ⟨hc, ht⟩ | ⟨hc, c', ht, hq', hc', hcap'⟩ | ⟨hc, hfull, ht⟩ := c.trySend_cases a
  · rw [ht, Channel.trySend, if_pos (hconn ▸ hc)]
    exact ⟨rfl, hq, hcap, hconn⟩
  · obtain ⟨hd, -⟩ | ⟨hd, d', hu, hr', hd', hdcap⟩ | ⟨hd, hfull, -⟩ := d.trySend_cases b
    · rw [← hconn, hc] at hd
      cases hd
    · rw [ht, hu]
      refine ⟨rfl, ?_, by rw [hcap', hdcap, hcap], by rw [hc', hd']⟩
      rw [hq', hr']
      exact List.rel_append hq (.cons hab .nil)
    · have hbound := c'.bounded
      rw [hq', hcap', List.length_append, List.length_singleton] at hbound
      omega
  · obtain ⟨hd, -⟩ | ⟨hd, d', hu, hr', hd', hdcap⟩ | ⟨hd, -, hu⟩ := d.trySend_cases b
    · rw [← hconn, hc] at hd
      cases hd
    · have hbound := d'.bounded
      rw [hr', hdcap, List.length_append, List.length_singleton] at hbound
      omega
    · rw [ht, hu]
      exact ⟨rfl, hq, hcap, hconn⟩

theorem Channel.Related.recv {c' : Channel α} (h : c.Related R d) (hr : c.recv = some (a, c')) :
    ∃ b d', d.recv = some (b, d') ∧ R a b ∧ c'.Related R d' := by
  obtain ⟨hq, hcap, hconn⟩ := h
  obtain ⟨hcq, hc', hcap'⟩ := Channel.recv_some hr
  rw [hcq] at hq
  cases hd : d.recv with
  | none =>
    rw [Channel.recv] at hd
    split at hd
    · next hnil =>
      rw [hnil] at hq
      cases hq
    · cases hd
  | some p =>
    obtain ⟨b, d'⟩ := p
    obtain ⟨hdq, hd', hdcap⟩ := Channel.recv_some hd
    rw [hdq] at hq
    obtain ⟨hab, hq⟩ := List.forall₂_cons.mp hq
    exact ⟨b, d', rfl, hab, hq, by rw [hcap', hdcap, hcap], by rw [hc', hd', hconn]⟩

theorem Channel.Related.dropReceiver (h : c.Related R d) :
    c.dropReceiver.Related R d.dropReceiver := ⟨.nil, h.capacity, rfl⟩

end Related

end Channel

end TptTelemetry.Lib.Concurrency
