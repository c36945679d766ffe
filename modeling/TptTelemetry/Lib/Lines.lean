import Mathlib.Data.List.Infix

namespace TptTelemetry.Lib.Lines

variable {α : Type}

theorem prefix_append_cases {p a b : List α} (h : p <+: a ++ b) :
    (p <+: a ∧ p ≠ a) ∨ ∃ q, p = a ++ q ∧ q <+: b := by
  by_cases ha : a <+: p
  · obtain ⟨q, rfl⟩ := ha
    exact Or.inr ⟨q, rfl, (List.prefix_append_right_inj a).mp h⟩
  · have hp := (List.prefix_or_prefix_of_prefix h (List.prefix_append a b)).resolve_right ha
    exact Or.inl ⟨hp, fun he => ha (he ▸ List.prefix_refl a)⟩

theorem forall_or_first (P : α → Prop) (xs : List α) :
    (∀ x ∈ xs, P x) ∨ ∃ a x b, xs = a ++ x :: b ∧ (∀ y ∈ a, P y) ∧ ¬ P x := by
  induction xs with
  | nil => exact Or.inl (by simp)
  | cons x xs ih =>
    by_cases hx : P x
    · obtain hall | ⟨a, y, b, rfl, ha, hy⟩ := ih
      · exact Or.inl (List.forall_mem_cons.mpr ⟨hx, hall⟩)
      · exact Or.inr ⟨x :: a, y, b, rfl, List.forall_mem_cons.mpr ⟨hx, ha⟩, hy⟩
    · exact Or.inr ⟨[], x, xs, rfl, by simp, hx⟩

theorem exists_first_pair (a b : α) (xs : List α) : ¬ [a, b] <:+: xs ∨
    ∃ run t, xs = run ++ a :: b :: t ∧ ¬ [a, b] <:+: run := by
  induction xs with
  | nil => exact Or.inl (by simp)
  | cons c xs ih =>
    by_cases hopen : ∃ t, c :: xs = a :: b :: t
    · obtain ⟨t, ht⟩ := hopen
      exact Or.inr ⟨[], t, ht, by simp⟩
    have hnot : ∀ u : List α, u <+: xs → ¬ [a, b] <:+: u → ¬ [a, b] <:+: c :: u := by
      intro u hu hno hin
      obtain ⟨p, q, hpq⟩ := hin
      cases p with
      | nil =>
        obtain ⟨rest, rfl⟩ := hu
        exact hopen ⟨q ++ rest, by rw [← List.cons_append, ← hpq]; simp⟩
      | cons d p => exact hno ⟨p, q, (List.cons.inj hpq).2⟩
    obtain hno | ⟨run, t, rfl, hno⟩ := ih
    · exact Or.inl (hnot xs (List.prefix_refl xs) hno)
    · exact Or.inr ⟨c :: run, t, rfl, hnot run (List.prefix_append _ _) hno⟩

variable [DecidableEq α]

theorem idxOf?_append {d : α} {a : List α} (ha : d ∉ a) (b : List α) :
    (a ++ d :: b).idxOf? d = some a.length := by
  induction a with
  | nil => simp [List.idxOf?_cons]
  | cons x a ih =>
    obtain ⟨hx, ha'⟩ : x ≠ d ∧ d ∉ a := by simpa [eq_comm] using ha
    simp [List.idxOf?_cons, hx, ih ha']

/-- The pieces that end in the delimiter, without it, and what follows the
last delimiter. -/
def split (d : α) : List α → List (List α) × List α
  | [] => ([], [])
  | x :: xs =>
    if x = d then ([] :: (split d xs).1, (split d xs).2)
    else
      match (split d xs).1 with
      | [] => ([], x :: (split d xs).2)
      | l :: ls => ((x :: l) :: ls, (split d xs).2)

theorem split_of_not_mem {d : α} {xs : List α} (h : d ∉ xs) : split d xs = ([], xs) := by
  induction xs with
  | nil => rfl
  | cons x xs ih =>
    obtain ⟨hx, hxs⟩ : x ≠ d ∧ d ∉ xs := by simpa [eq_comm] using h
    simp [split, hx, ih hxs]

theorem split_append {d : α} {a : List α} (ha : d ∉ a) (b : List α) :
    split d (a ++ d :: b) = (a :: (split d b).1, (split d b).2) := by
  induction a with
  | nil => simp [split]
  | cons x a ih =>
    obtain ⟨hx, ha'⟩ : x ≠ d ∧ d ∉ a := by simpa [eq_comm] using ha
    simp [split, hx, ih ha']

theorem append_cons_inj {d : α} {a a' b b' : List α} (ha : d ∉ a) (ha' : d ∉ a')
    (h : a ++ d :: b = a' ++ d :: b') : a = a' ∧ b = b' := by
  have hs := congrArg (fun xs => (split d xs).1.head?) h
  simp only [split_append ha, split_append ha', List.head?_cons, Option.some.injEq] at hs
  subst hs
  simpa using h

theorem pieces_induction {P : List α → Prop} (d : α) (hlast : ∀ t, d ∉ t → P t)
    (hpiece : ∀ a b, d ∉ a → P b → P (a ++ d :: b)) (xs : List α) : P xs := by
  induction h : xs.length using Nat.strongRecOn generalizing xs with
  | _ n ih =>
    by_cases hd : d ∈ xs
    · obtain ⟨a, b, rfl, ha⟩ := List.eq_append_cons_of_mem hd
      refine hpiece a b ha (ih b.length ?_ b rfl)
      rw [← h, List.length_append, List.length_cons]
      omega
    · exact hlast xs hd

theorem split_join (d : α) (xs : List α) :
    ((split d xs).1.flatMap (· ++ [d])) ++ (split d xs).2 = xs := by
  induction xs using pieces_induction d with
  | hlast t ht => simp [split_of_not_mem ht]
  | hpiece a b ha ih => simp [split_append ha, ih]

theorem split_flatMap {d : α} {ls : List (List α)} (hls : ∀ l ∈ ls, d ∉ l) {t : List α}
    (ht : d ∉ t) : split d (ls.flatMap (· ++ [d]) ++ t) = (ls, t) := by
  induction ls with
  | nil => exact split_of_not_mem ht
  | cons l ls ih =>
    have hl : d ∉ l := hls l (by simp)
    have hj : (l :: ls).flatMap (· ++ [d]) ++ t = l ++ d :: (ls.flatMap (· ++ [d]) ++ t) := by simp
    rw [hj, split_append hl, ih (fun m hm => hls m (by simp [hm]))]

end TptTelemetry.Lib.Lines
