import TptTelemetry.Lib.Incremental

namespace TptTelemetry.Lib.Incremental

variable {σ β φ ε : Type} {D : Decoder σ β φ ε}

section Output

theorem not_gives_of_settled {x : φ} {s : σ} (hs : ∀ s' o, D.step s ≠ .next s' o) :
    ¬ ∃ out t t' o, Reaches D s out t ∧ D.step t = .next t' o ∧ x ∈ o := by
  rintro ⟨out, t, t', o, hr, ht, -⟩
  cases hr with
  | refl => exact hs t' o ht
  | step hs' _ => exact hs _ _ hs'

theorem mem_drain_out {x : φ} (s : σ) : x ∈ (drain D s).out ↔
    ∃ out t t' o, Reaches D s out t ∧ D.step t = .next t' o ∧ x ∈ o := by
  refine drain_induction (P := fun s r => x ∈ r.out ↔
    ∃ out t t' o, Reaches D s out t ∧ D.step t = .next t' o ∧ x ∈ o) ?_ ?_ ?_ s
  · intro s hs
    exact iff_of_false (by simp) (not_gives_of_settled (by simp [hs]))
  · intro s s' e hs
    exact iff_of_false (by simp) (not_gives_of_settled (by simp [hs]))
  · intro s s' o hs ih
    rw [Outcome.prepend, List.mem_append, ih]
    constructor
    · rintro (hx | ⟨out, t, t', o', hr, ht, hx⟩)
      · exact ⟨[], s, s', o, .refl s, hs, hx⟩
      · exact ⟨o ++ out, t, t', o', .step hs hr, ht, hx⟩
    · rintro ⟨out, t, t', o', hr, ht, hx⟩
      cases hr with
      | refl =>
        rw [hs] at ht
        cases ht
        exact Or.inl hx
      | step hs' hr =>
        rw [hs] at hs'
        cases hs'
        exact Or.inr ⟨_, t, t', o', hr, ht, hx⟩

theorem mem_run_out {x : φ} {s : σ} {chunks : List (List β)} : x ∈ (run D s chunks).out ↔
    ∃ t rest t' o, Visits D s chunks t rest ∧ D.step t = .next t' o ∧ x ∈ o := by
  induction chunks generalizing s with
  | nil =>
    refine iff_of_false (by simp [run]) ?_
    rintro ⟨t, rest, t', o, hv, -⟩
    exact not_visits_nil hv
  | cons c cs ih =>
    have hpush : x ∈ (push D s c).out ↔
        ∃ out t t' o, Reaches D (D.feed s c) out t ∧ D.step t = .next t' o ∧ x ∈ o :=
      mem_drain_out _
    cases hc : (push D s c).error with
    | some e =>
      rw [run_cons_error cs hc, hpush]
      constructor
      · rintro ⟨out, t, t', o, hr, ht, hx⟩
        exact ⟨t, cs, t', o, visits_cons.mpr (Or.inl ⟨rfl, out, hr⟩), ht, hx⟩
      · rintro ⟨t, rest, t', o, hv, ht, hx⟩
        obtain ⟨-, out, hr⟩ | ⟨hnone, -⟩ := visits_cons.mp hv
        · exact ⟨out, t, t', o, hr, ht, hx⟩
        · rw [hc] at hnone
          cases hnone
    | none =>
      rw [run_cons_ok cs hc, Outcome.prepend, List.mem_append, hpush, ih]
      constructor
      · rintro (⟨out, t, t', o, hr, ht, hx⟩ | ⟨t, rest, t', o, hv, ht, hx⟩)
        · exact ⟨t, cs, t', o, visits_cons.mpr (Or.inl ⟨rfl, out, hr⟩), ht, hx⟩
        · exact ⟨t, rest, t', o, visits_cons.mpr (Or.inr ⟨hc, hv⟩), ht, hx⟩
      · rintro ⟨t, rest, t', o, hv, ht, hx⟩
        obtain ⟨-, out, hr⟩ | ⟨-, hv⟩ := visits_cons.mp hv
        · exact Or.inl ⟨out, t, t', o, hr, ht, hx⟩
        · exact Or.inr ⟨t, rest, t', o, hv, ht, hx⟩

end Output

section Labels

variable {κ ψ : Type}

def Verdict.map (f : φ → ψ) : Verdict σ φ ε → Verdict σ ψ ε
  | .wait => .wait
  | .next s out => .next s (out.map f)
  | .fail s e => .fail s e

def Outcome.map (f : φ → ψ) (o : Outcome σ φ ε) : Outcome σ ψ ε := ⟨o.out.map f, o.state, o.error⟩

theorem Verdict.map_eq_next {f : φ → ψ} {v : Verdict σ φ ε} {s : σ} {out : List ψ} :
    v.map f = .next s out ↔ ∃ o, v = .next s o ∧ out = o.map f := by
  cases v with
  | wait => simp [Verdict.map]
  | fail s' e => simp [Verdict.map]
  | next s' o => simp [Verdict.map, eq_comm]

theorem Verdict.map_eq_wait {f : φ → ψ} {v : Verdict σ φ ε} : v.map f = .wait ↔ v = .wait := by
  cases v <;> simp [Verdict.map]

theorem Verdict.map_eq_fail {f : φ → ψ} {v : Verdict σ φ ε} {s : σ} {e : ε} :
    v.map f = .fail s e ↔ v = .fail s e := by
  cases v <;> simp [Verdict.map]

variable (D) in
/-- The loop with a label on all that it gives, by the state that gives it. -/
def labelled (tag : σ → κ) (htag : ∀ {s s' : σ} {out : List φ} (c : List β),
    D.step s = .next s' out → out ≠ [] → tag (D.feed s c) = tag s) : Decoder σ β (κ × φ) ε where
  step s := (D.step s).map (Prod.mk (tag s))
  feed := D.feed
  size := D.size
  next_size h := by
    obtain ⟨o, ho, -⟩ := Verdict.map_eq_next.mp h
    exact D.next_size ho
  feed_nil := D.feed_nil
  feed_feed := D.feed_feed
  step_feed c h := by
    obtain ⟨o, ho, rfl⟩ := Verdict.map_eq_next.mp h
    refine Verdict.map_eq_next.mpr ⟨o, D.step_feed c ho, ?_⟩
    by_cases hne : o = []
    · rw [hne, List.map_nil, List.map_nil]
    · rw [htag c ho hne]

variable {tag : σ → κ} {htag : ∀ {s s' : σ} {out : List φ} (c : List β),
  D.step s = .next s' out → out ≠ [] → tag (D.feed s c) = tag s}

theorem Outcome.map_prepend (f : φ → ψ) (out : List φ) (o : Outcome σ φ ε) :
    (o.prepend out).map f = (o.map f).prepend (out.map f) := by
  simp only [Outcome.map, Outcome.prepend, List.map_append]

theorem drain_labelled (s : σ) : (drain (labelled D tag htag) s).map Prod.snd = drain D s := by
  refine drain_induction (D := labelled D tag htag) (P := fun s o => o.map Prod.snd = drain D s)
    ?_ ?_ ?_ s
  · intro s hs
    have hs' : D.step s = .wait := Verdict.map_eq_wait.mp hs
    rw [drain_wait hs']
    rfl
  · intro s s' e hs
    have hs' : D.step s = .fail s' e := Verdict.map_eq_fail.mp hs
    rw [drain_fail hs']
    rfl
  · intro s s' out hs ih
    obtain ⟨o, ho, rfl⟩ := Verdict.map_eq_next.mp hs
    rw [drain_next ho, Outcome.map_prepend, ih, List.map_map]
    exact congrArg (Outcome.prepend · _) (List.map_id o)

/-- Without the labels the run is that of the loop. -/
theorem run_labelled (s : σ) (chunks : List (List β)) :
    (run (labelled D tag htag) s chunks).map Prod.snd = run D s chunks := by
  induction chunks generalizing s with
  | nil => rfl
  | cons c cs ih =>
    have hpush : (push (labelled D tag htag) s c).map Prod.snd = push D s c := drain_labelled _
    cases he : (push (labelled D tag htag) s c).error with
    | none =>
      rw [run_cons_ok cs he, Outcome.map_prepend, ih,
        run_cons_ok cs (by rw [← hpush]; exact he), ← hpush]
      rfl
    | some e =>
      rw [run_cons_error cs he, run_cons_error cs (by rw [← hpush]; exact he), hpush]

theorem reaches_labelled {s t : σ} : (∃ out, Reaches (labelled D tag htag) s out t) ↔
    ∃ out, Reaches D s out t := by
  constructor
  · rintro ⟨out, h⟩
    induction h with
    | refl s => exact ⟨[], .refl s⟩
    | step hs _ ih =>
      obtain ⟨o, ho, -⟩ := Verdict.map_eq_next.mp hs
      obtain ⟨out, hr⟩ := ih
      exact ⟨o ++ out, .step ho hr⟩
  · rintro ⟨out, h⟩
    induction h with
    | refl s => exact ⟨[], .refl s⟩
    | step hs _ ih =>
      obtain ⟨out, hr⟩ := ih
      exact ⟨_, .step (Verdict.map_eq_next.mpr ⟨_, hs, rfl⟩) hr⟩

/-- The labels do not change which states the loop body runs on. -/
theorem visits_labelled {s t : σ} {chunks rest : List (List β)} :
    Visits (labelled D tag htag) s chunks t rest ↔ Visits D s chunks t rest := by
  have hstate : ∀ past, (run (labelled D tag htag) s past).state = (run D s past).state ∧
      (run (labelled D tag htag) s past).error = (run D s past).error := by
    intro past
    have hrun : (run (labelled D tag htag) s past).map Prod.snd = run D s past :=
      run_labelled s past
    rw [← hrun]
    exact ⟨rfl, rfl⟩
  simp only [Visits, hstate]
  constructor
  · rintro ⟨past, c, out, hc, he, hr⟩
    obtain ⟨out', hr'⟩ := reaches_labelled.mp ⟨out, hr⟩
    exact ⟨past, c, out', hc, he, hr'⟩
  · rintro ⟨past, c, out, hc, he, hr⟩
    obtain ⟨out', hr'⟩ := reaches_labelled.mpr ⟨out, hr⟩
    exact ⟨past, c, out', hc, he, hr'⟩

end Labels

end TptTelemetry.Lib.Incremental
