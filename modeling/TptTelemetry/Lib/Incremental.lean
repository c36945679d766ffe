import TptTelemetry.Lib.Lines

namespace TptTelemetry.Lib.Incremental

variable {σ β φ ε : Type}

/-- What one iteration of a decoding loop does with its state: stop until
more input arrives, go on with a new state and some output, or give up. -/
inductive Verdict (σ φ ε : Type)
  | wait
  | next (s : σ) (out : List φ)
  | fail (s : σ) (e : ε)

/-- A loop over buffered input. The last law is what makes the loop
insensitive to arrival: a decision once taken is not revised by more input. -/
structure Decoder (σ β φ ε : Type) where
  step : σ → Verdict σ φ ε
  feed : σ → List β → σ
  size : σ → Nat
  next_size : ∀ {s s' : σ} {out : List φ}, step s = .next s' out → size s' < size s
  feed_nil : ∀ s, feed s [] = s
  feed_feed : ∀ s a b, feed (feed s a) b = feed s (a ++ b)
  step_feed : ∀ {s s' : σ} {out : List φ} (c : List β),
    step s = .next s' out → step (feed s c) = .next (feed s' c) out

structure Outcome (σ φ ε : Type) where
  out : List φ
  state : σ
  error : Option ε

def Outcome.prepend (out : List φ) (o : Outcome σ φ ε) : Outcome σ φ ε :=
  ⟨out ++ o.out, o.state, o.error⟩

theorem Outcome.prepend_prepend (a b : List φ) (o : Outcome σ φ ε) :
    (o.prepend b).prepend a = o.prepend (a ++ b) := by
  simp only [Outcome.prepend, List.append_assoc]

variable (D : Decoder σ β φ ε)

def drain (s : σ) : Outcome σ φ ε :=
  match _h : D.step s with
  | .wait => ⟨[], s, none⟩
  | .fail s' e => ⟨[], s', some e⟩
  | .next s' out => (drain s').prepend out
termination_by D.size s
decreasing_by exact D.next_size ‹_›

def push (s : σ) (chunk : List β) : Outcome σ φ ε := drain D (D.feed s chunk)

def run : σ → List (List β) → Outcome σ φ ε
  | s, [] => ⟨[], s, none⟩
  | s, c :: cs =>
    let r := push D s c
    match r.error with
    | some _ => r
    | none => (run r.state cs).prepend r.out

variable {D}

theorem drain_wait {s : σ} (h : D.step s = .wait) : drain D s = ⟨[], s, none⟩ := by
  rw [drain]
  split <;> simp_all

theorem drain_fail {s s' : σ} {e : ε} (h : D.step s = .fail s' e) :
    drain D s = ⟨[], s', some e⟩ := by
  rw [drain]
  split <;> simp_all

theorem drain_next {s s' : σ} {out : List φ} (h : D.step s = .next s' out) :
    drain D s = (drain D s').prepend out := by
  rw [drain]
  split <;> simp_all

/-- Induction along the iterations of the loop. -/
theorem drain_induction {P : σ → Outcome σ φ ε → Prop}
    (hwait : ∀ s, D.step s = .wait → P s ⟨[], s, none⟩)
    (hfail : ∀ s s' e, D.step s = .fail s' e → P s ⟨[], s', some e⟩)
    (hnext : ∀ s s' out, D.step s = .next s' out → P s' (drain D s') →
      P s ((drain D s').prepend out))
    (s : σ) : P s (drain D s) := by
  induction h : D.size s using Nat.strongRecOn generalizing s with
  | _ n ih =>
    cases hs : D.step s with
    | wait => exact drain_wait hs ▸ hwait s hs
    | fail s' e => exact drain_fail hs ▸ hfail s s' e hs
    | next s' out =>
      have hlt : D.size s' < n := h ▸ D.next_size hs
      exact drain_next hs ▸ hnext s s' out hs (ih _ hlt s' rfl)

theorem drain_settled (s : σ) : (drain D s).error = none → D.step (drain D s).state = .wait := by
  refine drain_induction (P := fun _ o => o.error = none → D.step o.state = .wait) ?_ ?_ ?_ s
  · intro s hs _
    exact hs
  · intro s s' e _ he
    cases he
  · intro s s' out _ ih he
    exact ih he

/-- Draining before more input arrives is draining after it has arrived,
as long as the first drain does not fail. -/
theorem drain_feed (c : List β) (s : σ) (he : (drain D s).error = none) :
    drain D (D.feed s c) = (push D (drain D s).state c).prepend (drain D s).out := by
  revert he
  refine drain_induction (P := fun s o => o.error = none →
    drain D (D.feed s c) = (push D o.state c).prepend o.out) ?_ ?_ ?_ s
  · intro s _ _
    rfl
  · intro s s' e _ he
    cases he
  · intro s s' out hs ih he
    rw [drain_next (D.step_feed c hs), ih he, Outcome.prepend_prepend]
    rfl

theorem push_append (s : σ) (a b : List β) (he : (push D s a).error = none) :
    push D s (a ++ b) = (push D (push D s a).state b).prepend (push D s a).out := by
  have h := drain_feed b (D.feed s a) he
  rw [D.feed_feed] at h
  exact h

theorem push_nil {s : σ} (hs : D.step s = .wait) : push D s [] = ⟨[], s, none⟩ := by
  rw [push, D.feed_nil, drain_wait hs]

theorem run_cons_ok {s : σ} {c : List β} (cs : List (List β)) (he : (push D s c).error = none) :
    run D s (c :: cs) = (run D (push D s c).state cs).prepend (push D s c).out := by
  simp only [run, he]

theorem run_cons_error {s : σ} {c : List β} {e : ε} (cs : List (List β))
    (he : (push D s c).error = some e) : run D s (c :: cs) = push D s c := by
  simp only [run, he]

/-- A run over chunks that does not fail is one push of their
concatenation, so two cuttings of one stream cannot be told apart. -/
theorem run_eq_push {s : σ} (hs : D.step s = .wait) (chunks : List (List β))
    (he : (run D s chunks).error = none) : run D s chunks = push D s chunks.flatten := by
  induction chunks generalizing s with
  | nil => exact (push_nil hs).symm
  | cons c cs ih =>
    cases hc : (push D s c).error with
    | some e =>
      rw [run_cons_error cs hc, hc] at he
      cases he
    | none =>
      rw [run_cons_ok cs hc] at he ⊢
      rw [List.flatten_cons, push_append s c _ hc]
      exact congrArg _ (ih (drain_settled _ hc) he)

/-- If no prefix of the stream makes a push fail, no cutting of it does. -/
theorem run_eq_push_of_prefixes {s : σ} (hs : D.step s = .wait) (chunks : List (List β))
    (hp : ∀ p, p <+: chunks.flatten → (push D s p).error = none) :
    run D s chunks = push D s chunks.flatten := by
  apply run_eq_push hs
  induction chunks generalizing s with
  | nil => rfl
  | cons c cs ih =>
    have hc : (push D s c).error = none := hp c (by simp)
    rw [run_cons_ok cs hc]
    refine ih (drain_settled _ hc) ?_
    intro p hpre
    have happ := hp (c ++ p) (by simpa using List.prefix_append_right_inj c |>.mpr hpre)
    rw [push_append s c p hc] at happ
    exact happ

theorem run_append {s : σ} (a b : List (List β)) (he : (run D s a).error = none) :
    run D s (a ++ b) = (run D (run D s a).state b).prepend (run D s a).out := by
  induction a generalizing s with
  | nil => rfl
  | cons c cs ih =>
    cases hc : (push D s c).error with
    | some e =>
      rw [run_cons_error cs hc, hc] at he
      cases he
    | none =>
      rw [run_cons_ok cs hc] at he ⊢
      rw [List.cons_append, run_cons_ok _ hc, ih he, Outcome.prepend_prepend]
      rfl

inductive Reaches (D : Decoder σ β φ ε) : σ → List φ → σ → Prop
  | refl (s : σ) : Reaches D s [] s
  | step {s s' t : σ} {o out : List φ} :
      D.step s = .next s' o → Reaches D s' out t → Reaches D s (o ++ out) t

theorem drain_reaches (s : σ) :
    ∃ t, Reaches D s (drain D s).out t ∧
      ((drain D s).error = none ∧ (drain D s).state = t ∧ D.step t = .wait ∨
        ∃ e, (drain D s).error = some e ∧ D.step t = .fail (drain D s).state e) := by
  refine drain_induction (P := fun s o => ∃ t, Reaches D s o.out t ∧
    (o.error = none ∧ o.state = t ∧ D.step t = .wait ∨
      ∃ e, o.error = some e ∧ D.step t = .fail o.state e)) ?_ ?_ ?_ s
  · intro s hs
    exact ⟨s, Reaches.refl s, Or.inl ⟨rfl, rfl, hs⟩⟩
  · intro s s' e hs
    exact ⟨s, Reaches.refl s, Or.inr ⟨e, rfl, hs⟩⟩
  · intro s s' out hs ih
    obtain ⟨t, hr, ht⟩ := ih
    exact ⟨t, Reaches.step hs hr, ht⟩

theorem drain_of_reaches {s t : σ} {out : List φ} (h : Reaches D s out t) :
    drain D s = (drain D t).prepend out := by
  induction h with
  | refl s => rfl
  | step hs _ ih => rw [drain_next hs, ih, Outcome.prepend_prepend]

theorem drain_reaches_fail {s t t' : σ} {out : List φ} {e : ε} (h : Reaches D s out t)
    (hf : D.step t = .fail t' e) : drain D s = ⟨out, t', some e⟩ := by
  rw [drain_of_reaches h, drain_fail hf, Outcome.prepend, List.append_nil]

def Visits (D : Decoder σ β φ ε) (s : σ) (chunks : List (List β)) (t : σ)
    (rest : List (List β)) : Prop :=
  ∃ past c out, chunks = past ++ c :: rest ∧ (run D s past).error = none ∧
    Reaches D (D.feed (run D s past).state c) out t

theorem not_visits_nil {s t : σ} {rest : List (List β)} : ¬ Visits D s [] t rest := by
  rintro ⟨past, c, out, h, -, -⟩
  simp at h

theorem visits_cons {s t : σ} {c : List β} {cs rest : List (List β)} :
    Visits D s (c :: cs) t rest ↔
      (rest = cs ∧ ∃ out, Reaches D (D.feed s c) out t) ∨
        ((push D s c).error = none ∧ Visits D (push D s c).state cs t rest) := by
  constructor
  · rintro ⟨past, b, out, h, he, hr⟩
    cases past with
    | nil =>
      simp only [List.nil_append, List.cons.injEq] at h
      obtain ⟨rfl, rfl⟩ := h
      exact Or.inl ⟨rfl, out, hr⟩
    | cons a past =>
      simp only [List.cons_append, List.cons.injEq] at h
      obtain ⟨rfl, rfl⟩ := h
      cases hc : (push D s c).error with
      | some e =>
        rw [run_cons_error past hc, hc] at he
        cases he
      | none =>
        rw [run_cons_ok past hc] at he hr
        exact Or.inr ⟨rfl, past, b, out, rfl, he, hr⟩
  · rintro (⟨rfl, out, hr⟩ | ⟨hc, past, b, out, rfl, he, hr⟩)
    · exact ⟨[], c, out, rfl, rfl, hr⟩
    · refine ⟨c :: past, b, out, rfl, ?_, ?_⟩
      · rwa [run_cons_ok past hc]
      · rwa [run_cons_ok past hc]

theorem run_error {s : σ} {chunks : List (List β)} {e : ε} (h : (run D s chunks).error = some e) :
    ∃ past c rest, chunks = past ++ c :: rest ∧ (run D s past).error = none ∧
      (push D (run D s past).state c).error = some e ∧
      run D s chunks = (push D (run D s past).state c).prepend (run D s past).out := by
  induction chunks generalizing s with
  | nil => cases h
  | cons c cs ih =>
    cases hc : (push D s c).error with
    | some e' =>
      rw [run_cons_error cs hc] at h ⊢
      exact ⟨[], c, cs, rfl, rfl, h, rfl⟩
    | none =>
      rw [run_cons_ok cs hc] at h ⊢
      obtain ⟨past, b, rest, rfl, hp, hb, hr⟩ := ih h
      refine ⟨c :: past, b, rest, rfl, ?_, ?_, ?_⟩
      · rwa [run_cons_ok past hc]
      · rwa [run_cons_ok past hc]
      · rw [run_cons_ok past hc, hr, Outcome.prepend_prepend]
        rfl

theorem run_append_ok {s : σ} (a b : List (List β)) (he : (run D s (a ++ b)).error = none) :
    (run D s a).error = none := by
  cases ha : (run D s a).error with
  | none => rfl
  | some e =>
    obtain ⟨past, c, rest, rfl, hp, hc, -⟩ := run_error ha
    rw [List.append_assoc, run_append past _ hp, List.cons_append, run_cons_error _ hc] at he
    exact absurd (hc.symm.trans he) (by simp)

theorem run_concat {s : σ} {past : List (List β)} (hp : (run D s past).error = none) (c : List β) :
    run D s (past ++ [c]) = (push D (run D s past).state c).prepend (run D s past).out := by
  rw [run_append past [c] hp]
  cases hc : (push D (run D s past).state c).error with
  | none =>
    rw [run_cons_ok [] hc]
    simp [run, Outcome.prepend, hc]
  | some e => rw [run_cons_error [] hc]

theorem visits_of_take {s t : σ} {chunks rest : List (List β)} {k : Nat}
    (h : Visits D s (chunks.take k) t rest) : Visits D s chunks t (rest ++ chunks.drop k) := by
  obtain ⟨past, c, out, hc, he, hr⟩ := h
  refine ⟨past, c, out, ?_, he, hr⟩
  have hk := List.take_append_drop k chunks
  rw [hc] at hk
  rw [← List.cons_append, ← List.append_assoc]
  exact hk.symm

theorem visits_last {s : σ} {chunks : List (List β)} (hne : chunks ≠ [])
    (he : (run D s chunks).error = none) :
    Visits D s chunks (run D s chunks).state [] ∧ D.step (run D s chunks).state = .wait := by
  obtain ⟨past, c, rfl⟩ := (List.eq_nil_or_concat' chunks).resolve_left hne
  have hp := run_append_ok past [c] he
  rw [run_concat hp] at he ⊢
  obtain ⟨t, hr, ⟨-, ht, hw⟩ | ⟨e, h, -⟩⟩ :=
    drain_reaches (D := D) (D.feed (run D s past).state c)
  · exact ⟨⟨past, c, _, rfl, hp, ht ▸ hr⟩, ht ▸ hw⟩
  · exact absurd (h.symm.trans he) (by simp)

theorem run_of_visits_wait {s t : σ} {chunks rest : List (List β)} (h : Visits D s chunks t rest)
    (hw : D.step t = .wait) :
    ∃ k, (run D s (chunks.take k)).error = none ∧ (run D s (chunks.take k)).state = t := by
  obtain ⟨past, c, out, rfl, hp, hr⟩ := h
  have hpush : push D (run D s past).state c = ⟨out, t, none⟩ := by
    rw [push, drain_of_reaches hr, drain_wait hw, Outcome.prepend, List.append_nil]
  have htake : (past ++ c :: rest).take (past.length + 1) = past ++ [c] := by
    rw [List.take_length_add_append, List.take_succ_cons, List.take_zero]
  refine ⟨past.length + 1, ?_⟩
  rw [htake, run_concat hp, hpush]
  exact ⟨rfl, rfl⟩

section Invariant

variable (I : List β → List φ → σ → Prop)
variable (hfeed : ∀ xs out s c, I xs out s → I (xs ++ c) out (D.feed s c))
variable (hnext : ∀ xs out s s' o, D.step s = .next s' o → I xs out s → I xs (out ++ o) s')

include hnext in
theorem reaches_rule {xs : List β} {out o : List φ} {s t : σ} (h : Reaches D s o t)
    (hi : I xs out s) : I xs (out ++ o) t := by
  induction h generalizing out with
  | refl s => simpa using hi
  | step hs _ ih => simpa using ih (hnext _ _ _ _ _ hs hi)

include hfeed hnext

theorem push_rule {xs : List β} {out : List φ} {s : σ} (c : List β) (hi : I xs out s)
    (he : (push D s c).error = none) : I (xs ++ c) (out ++ (push D s c).out) (push D s c).state := by
  obtain ⟨t, hr, ⟨-, rfl, -⟩ | ⟨e, h, -⟩⟩ := drain_reaches (D := D) (D.feed s c)
  · exact reaches_rule I hnext hr (hfeed _ _ _ c hi)
  · rw [push, h] at he
    cases he

/-- Invariant rule for whole runs. The invariant relates the input and the
output so far to the state. -/
theorem run_rule {xs : List β} {out : List φ} {s : σ} (chunks : List (List β)) (hi : I xs out s)
    (he : (run D s chunks).error = none) :
    I (xs ++ chunks.flatten) (out ++ (run D s chunks).out) (run D s chunks).state := by
  induction chunks generalizing xs out s with
  | nil => simpa [run] using hi
  | cons c cs ih =>
    cases hc : (push D s c).error with
    | some e =>
      rw [run_cons_error cs hc, hc] at he
      cases he
    | none =>
      rw [run_cons_ok cs hc] at he ⊢
      have h := ih (push_rule I hfeed hnext c hi hc) he
      simpa [Outcome.prepend] using h

/-- A run that fails has the invariant at the iteration that failed. -/
theorem run_rule_error {xs : List β} {out : List φ} {s : σ} {chunks : List (List β)} {e : ε}
    (hi : I xs out s) (he : (run D s chunks).error = some e) :
    ∃ past c rest t, chunks = past ++ c :: rest ∧ (run D s past).error = none ∧
      Visits D s chunks t rest ∧ D.step t = .fail (run D s chunks).state e ∧
      I (xs ++ (past ++ [c]).flatten) (out ++ (run D s chunks).out) t := by
  obtain ⟨past, c, rest, hc, hp, hb, hr⟩ := run_error he
  have hpast := run_rule I hfeed hnext past hi hp
  obtain ⟨t, hreach, ⟨hn, -, -⟩ | ⟨e', he', hf⟩⟩ :=
    drain_reaches (D := D) (D.feed (run D s past).state c)
  · rw [push, hn] at hb
    cases hb
  · rw [push, he'] at hb
    cases hb
    refine ⟨past, c, rest, t, hc, hp, ⟨past, c, _, hc, hp, hreach⟩, by rw [hr]; exact hf, ?_⟩
    have h := reaches_rule I hnext hreach (hfeed _ _ _ c hpast)
    rw [hr]
    simpa [Outcome.prepend, push] using h

/-- Failing or not, a run leaves the invariant with the output it gave, for the
input that it has seen. -/
theorem run_rule_out {xs : List β} {out : List φ} {s : σ} (chunks : List (List β))
    (hi : I xs out s) : ∃ xs' t, xs' <+: xs ++ chunks.flatten ∧
      I xs' (out ++ (run D s chunks).out) t := by
  cases he : (run D s chunks).error with
  | none => exact ⟨_, _, List.prefix_refl _, run_rule I hfeed hnext chunks hi he⟩
  | some e =>
    obtain ⟨past, c, rest, t, rfl, -, -, -, h⟩ := run_rule_error I hfeed hnext hi he
    exact ⟨_, t, ⟨rest.flatten, by simp⟩, h⟩

theorem visits_rule {xs : List β} {out : List φ} {s t : σ} {chunks rest : List (List β)}
    (hi : I xs out s) (h : Visits D s chunks t rest) : ∃ xs' out', I xs' out' t := by
  obtain ⟨past, c, o, -, he, hr⟩ := h
  exact ⟨_, _, reaches_rule I hnext hr (hfeed _ _ _ c (run_rule I hfeed hnext past hi he))⟩

end Invariant

theorem visits_state {J : σ → Prop} (hfeed : ∀ s c, J s → J (D.feed s c))
    (hnext : ∀ s s' o, D.step s = .next s' o → J s → J s') {s t : σ}
    {chunks rest : List (List β)} (hs : J s) (h : Visits D s chunks t rest) : J t := by
  let I : List β → List φ → σ → Prop := fun _ _ s => J s
  have hstart : I [] [] s := hs
  have hv := @visits_rule σ β φ ε D I (fun _ _ s c => hfeed s c)
    (fun _ _ s s' o => hnext s s' o) [] [] s t chunks rest hstart h
  obtain ⟨_, _, ht⟩ := hv
  exact ht

section Messages

/-- A message that is on the wire as `wire x`: an iteration takes it off the
front of the buffer, and waits as long as only a part of it has arrived.
`st b` is the state with the buffer `b`. -/
structure Framed {μ : Type} (D : Decoder σ β φ ε) (st : List β → σ) (wire : μ → List β)
    (payload : μ → φ) (x : μ) : Prop where
  whole : ∀ r, D.step (st (wire x ++ r)) = .next (st r) [payload x]
  part : ∀ p, p <+: wire x → p ≠ wire x → D.step (st p) = .wait

variable {μ : Type} {st : List β → σ} {wire : μ → List β} {payload : μ → φ}
variable (hempty : D.step (st []) = .wait)

theorem drain_framed_append {msgs : List μ} (hx : ∀ x ∈ msgs, Framed D st wire payload x)
    (r : List β) :
    drain D (st (msgs.flatMap wire ++ r)) = (drain D (st r)).prepend (msgs.map payload) := by
  induction msgs with
  | nil => rfl
  | cons x msgs ih =>
    rw [List.flatMap_cons, List.append_assoc, drain_next ((hx x (by simp)).whole _),
      ih (fun y hy => hx y (by simp [hy])), Outcome.prepend_prepend]
    rfl

include hempty

theorem drain_framed_part {msgs : List μ} (hx : ∀ x ∈ msgs, Framed D st wire payload x)
    {p : List β} (hp : p <+: msgs.flatMap wire) : ∃ past rest b, msgs = past ++ rest ∧
      p = past.flatMap wire ++ b ∧ drain D (st p) = ⟨past.map payload, st b, none⟩ ∧
      D.step (st b) = .wait ∧ ∀ x ∈ rest.head?, b <+: wire x ∧ b ≠ wire x := by
  induction msgs generalizing p with
  | nil =>
    obtain rfl := List.prefix_nil.mp hp
    exact ⟨[], [], [], rfl, rfl, drain_wait hempty, hempty, by simp⟩
  | cons x msgs ih =>
    rw [List.flatMap_cons] at hp
    obtain ⟨hpre, hne⟩ | ⟨q, rfl, hq⟩ := Lines.prefix_append_cases hp
    · have hw := (hx x (by simp)).part p hpre hne
      exact ⟨[], x :: msgs, p, rfl, rfl, drain_wait hw, hw, by simp [hpre, hne]⟩
    · obtain ⟨past, rest, b, rfl, rfl, hdrain, hw, hb⟩ := ih (fun y hy => hx y (by simp [hy])) hq
      refine ⟨x :: past, rest, b, rfl, by simp, ?_, hw, hb⟩
      rw [drain_next ((hx x (by simp)).whole _), hdrain]
      rfl

variable (hfeed : ∀ b c, D.feed (st b) c = st (b ++ c))

include hfeed

theorem run_eq_drain {msgs : List μ} (hx : ∀ x ∈ msgs, Framed D st wire payload x)
    {chunks : List (List β)} (hc : chunks.flatten <+: msgs.flatMap wire) :
    run D (st []) chunks = drain D (st chunks.flatten) := by
  have hpush : ∀ p, push D (st []) p = drain D (st p) := by
    intro p
    rw [push, hfeed, List.nil_append]
  rw [run_eq_push_of_prefixes hempty chunks, hpush]
  intro p hp
  obtain ⟨past, rest, b, -, -, hdrain, -⟩ := drain_framed_part hempty hx (hp.trans hc)
  rw [hpush, hdrain]

/-- Decoding undoes encoding, however the stream of the messages is cut. -/
theorem run_framed {msgs : List μ} (hx : ∀ x ∈ msgs, Framed D st wire payload x)
    {chunks : List (List β)} (hc : chunks.flatten = msgs.flatMap wire) :
    run D (st []) chunks = ⟨msgs.map payload, st [], none⟩ := by
  have hall := drain_framed_append hx []
  rw [drain_wait hempty, List.append_nil] at hall
  rw [run_eq_drain hempty hfeed hx (hc ▸ List.prefix_refl _), hc, hall]
  simp [Outcome.prepend]

theorem run_framed_append {msgs : List μ} (hx : ∀ x ∈ msgs, Framed D st wire payload x)
    {chunks : List (List β)} {b r : List β} (hb : D.step (st b) = .wait)
    (hc : b ++ chunks.flatten = msgs.flatMap wire ++ r) :
    ∃ more, (run D (st b) chunks).out = msgs.map payload ++ more := by
  induction chunks generalizing b msgs with
  | nil =>
    cases msgs with
    | nil => exact ⟨[], rfl⟩
    | cons x msgs =>
      rw [List.flatten_nil, List.append_nil, List.flatMap_cons, List.append_assoc] at hc
      rw [hc, (hx x (by simp)).whole] at hb
      cases hb
  | cons c cs ih =>
    rw [List.flatten_cons, ← List.append_assoc] at hc
    have hpush : push D (st b) c = drain D (st (b ++ c)) := by
      rw [push, hfeed]
    obtain ⟨q, hq, hr⟩ | ⟨q, hq, hr⟩ := List.append_eq_append_iff.mp hc
    · -- the chunk ends within the messages
      obtain ⟨past, rest, b', rfl, hsplit, hdrain, hw, -⟩ :=
        drain_framed_part hempty hx ⟨q, hq.symm⟩
      have hrest : b' ++ cs.flatten = rest.flatMap wire ++ r := by
        rw [hsplit, List.flatMap_append, List.append_assoc, List.append_cancel_left_eq] at hq
        rw [hr, hq, List.append_assoc]
      obtain ⟨more, hmore⟩ := ih (fun x hx' => hx x (by simp [hx'])) hw hrest
      rw [hdrain] at hpush
      rw [run_cons_ok cs (by rw [hpush]), hpush]
      exact ⟨more, by simp [Outcome.prepend, hmore]⟩
    · -- the chunk completes them all
      rw [hq, drain_framed_append hx] at hpush
      cases he : (push D (st b) c).error with
      | none =>
        rw [run_cons_ok cs he, hpush]
        exact ⟨_, List.append_assoc _ _ _⟩
      | some e =>
        rw [run_cons_error cs he, hpush]
        exact ⟨_, rfl⟩

end Messages

end TptTelemetry.Lib.Incremental
