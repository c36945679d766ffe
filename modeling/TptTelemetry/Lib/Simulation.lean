import Mathlib.Data.List.Forall2
import Mathlib.Order.Basic
import TptTelemetry.Lib.Concurrency

namespace TptTelemetry.Lib.Simulation

open TptTelemetry.Lib.Concurrency

variable {σ τ ε ζ α : Type} {step : σ → ε → Option σ} {out : σ → ε → List α}

def trace (step : σ → ε → Option σ) (out : σ → ε → List α) : σ → List ε → List α
  | _, [] => []
  | s, e :: events => out s e ++ (step s e).elim [] (fun t => trace step out t events)

theorem trace_cons {s t : σ} {e : ε} (h : step s e = some t) (events : List ε) :
    trace step out s (e :: events) = out s e ++ trace step out t events := by
  rw [trace, h, Option.elim_some]

theorem run_append {s u : σ} {a b : List ε} :
    run step s (a ++ b) = some u ↔ ∃ t, run step s a = some t ∧ run step t b = some u := by
  rw [run, List.foldlM_append]
  exact Option.bind_eq_some_iff

theorem trace_append {s t : σ} {a : List ε} (h : run step s a = some t) (b : List ε) :
    trace step out s (a ++ b) = trace step out s a ++ trace step out t b := by
  induction a generalizing s with
  | nil =>
    cases h
    rfl
  | cons e a ih =>
    obtain ⟨u, hu, hrun⟩ := run_cons.mp h
    rw [List.cons_append, trace_cons hu, trace_cons hu, ih hrun, List.append_assoc]

theorem trace_events {f : ε → List α} {events : List ε} {s t : σ} (h : run step s events = some t) :
    trace step (fun _ e => f e) s events = events.flatMap f := by
  induction events generalizing s with
  | nil => rfl
  | cons e events ih =>
    obtain ⟨u, hu, hrun⟩ := run_cons.mp h
    rw [trace_cons hu, ih hrun, List.flatMap_cons]

theorem trace_map {β : Type} (f : α → β) (events : List ε) (s : σ) :
    trace step (fun s e => (out s e).map f) s events = (trace step out s events).map f := by
  induction events generalizing s with
  | nil => rfl
  | cons e events ih =>
    rw [trace, trace, List.map_append]
    cases step s e with
    | none => rfl
    | some t => rw [Option.elim_some, Option.elim_some, ih]

/-- A machine that may do less has fewer runs. -/
theorem run_of_steps {weak : σ → ε → Option σ}
    (hstep : ∀ {s e t}, step s e = some t → weak s e = some t) {events : List ε} {s t : σ}
    (h : run step s events = some t) : run weak s events = some t := by
  induction events generalizing s with
  | nil => exact h
  | cons e events ih =>
    obtain ⟨u, hu, hrun⟩ := run_cons.mp h
    exact run_cons.mpr ⟨u, hstep hu, ih hrun⟩

section Invariants

variable (Inv : σ → List α → Prop)
  (hstep : ∀ {s shown e t}, Inv s shown → step s e = some t → Inv t (shown ++ out s e))

include hstep

theorem trace_invariant_from {events : List ε} {s t : σ} {shown : List α} (hs : Inv s shown)
    (h : run step s events = some t) : Inv t (shown ++ trace step out s events) := by
  induction events generalizing s shown with
  | nil =>
    cases h
    rw [trace, List.append_nil]
    exact hs
  | cons e events ih =>
    obtain ⟨u, hu, hrun⟩ := run_cons.mp h
    rw [trace_cons hu, ← List.append_assoc]
    exact ih (hstep hs hu) hrun

/-- An invariant that ties the state to what has been shown so far. -/
theorem trace_invariant {events : List ε} {s t : σ} (hs : Inv s [])
    (h : run step s events = some t) : Inv t (trace step out s events) := by
  simpa using trace_invariant_from Inv hstep hs h

end Invariants

section Refinement

variable {spec : τ → ζ → Option τ} {act : σ → ε → List ζ} {R : σ → τ → Prop}

/-- Forward simulation: a machine each step of which is a few steps of another
one, from related states to related states, has runs that are runs of it. -/
theorem run_refines
    (hstep : ∀ {s a e t}, R s a → step s e = some t → ∃ b, run spec a (act s e) = some b ∧ R t b)
    {events : List ε} {s t : σ} {a : τ} (hs : R s a) (h : run step s events = some t) :
    ∃ b, run spec a (trace step act s events) = some b ∧ R t b := by
  induction events generalizing s a with
  | nil =>
    cases h
    exact ⟨a, rfl, hs⟩
  | cons e events ih =>
    obtain ⟨u, hu, hrun⟩ := run_cons.mp h
    obtain ⟨b, hb, hr⟩ := hstep hs hu
    obtain ⟨c, hc, hrc⟩ := ih hr hrun
    rw [trace_cons hu]
    exact ⟨c, run_append.mpr ⟨b, hb, hc⟩, hrc⟩

theorem trace_lower {f : σ → τ} {view : τ → ζ → List α}
    (hstep : ∀ {s e t}, step s e = some t → run spec (f s) (act s e) = some (f t) ∧
      trace spec view (f s) (act s e) = out s e)
    {events : List ε} {s t : σ} (h : run step s events = some t) :
    run spec (f s) (trace step act s events) = some (f t) ∧
      trace spec view (f s) (trace step act s events) = trace step out s events := by
  induction events generalizing s with
  | nil =>
    cases h
    exact ⟨rfl, rfl⟩
  | cons e events ih =>
    obtain ⟨u, hu, hrun⟩ := run_cons.mp h
    obtain ⟨hfirst, hshown⟩ := hstep hu
    obtain ⟨hrest, hshown'⟩ := ih hrun
    rw [trace_cons hu, trace_cons hu]
    exact ⟨run_append.mpr ⟨f u, hfirst, hrest⟩, by rw [trace_append hfirst, hshown, hshown']⟩

end Refinement

section Indistinguishable

variable {spec : τ → ζ → Option τ} {view : τ → ζ → List α} {E : ε → ζ → Prop} {R : σ → τ → Prop}

/-- Two machines that go in step, and show the same at each, show the same on
runs over related events. -/
theorem run_indistinguishable
    (hstep : ∀ {s a e f t}, R s a → E e f → step s e = some t →
      ∃ b, spec a f = some b ∧ R t b ∧ out s e = view a f)
    {events : List ε} {events' : List ζ} (he : List.Forall₂ E events events') {s t : σ} {a : τ}
    (hs : R s a) (h : run step s events = some t) :
    ∃ b, run spec a events' = some b ∧ R t b ∧
      trace step out s events = trace spec view a events' := by
  induction he generalizing s a with
  | nil =>
    cases h
    exact ⟨a, rfl, hs, rfl⟩
  | cons hef _ ih =>
    obtain ⟨u, hu, hrun⟩ := run_cons.mp h
    obtain ⟨b, hb, hr, hout⟩ := hstep hs hef hu
    obtain ⟨c, hc, hrc, htrace⟩ := ih hr hrun
    refine ⟨c, run_cons.mpr ⟨b, hb, hc⟩, hrc, ?_⟩
    rw [trace_cons hu, trace_cons hb, hout, htrace]

end Indistinguishable

end TptTelemetry.Lib.Simulation
