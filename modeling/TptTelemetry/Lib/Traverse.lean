import TptTelemetry.Lib.Text

namespace TptTelemetry.Lib.Traverse

open TptTelemetry.Lib.Text

variable {ε β γ δ ζ : Type} {E : ε → Prop} {f : β → Except ε γ} {Bad : β → Prop}
  {R : β → γ → Prop}

/-- A step that fails, with an error of the kind `E`, on the bad inputs only, and
on the others gives a result in the relation `R` to its input. -/
structure Checks (E : ε → Prop) (f : β → Except ε γ) (Bad : β → Prop) (R : β → γ → Prop) :
    Prop where
  fails : ∀ x, Bad x → ∃ e, f x = .error e ∧ E e
  gives : ∀ x, ¬ Bad x → ∃ y, f x = .ok y ∧ R x y

theorem Checks.error_iff (h : Checks E f Bad R) (x : β) : (∃ e, f x = .error e ∧ E e) ↔ Bad x := by
  refine ⟨?_, h.fails x⟩
  rintro ⟨e, he, -⟩
  by_contra hx
  obtain ⟨y, hy, -⟩ := h.gives x hx
  rw [he] at hy
  cases hy

/-- Going through a list checks each of its elements, and keeps their order. -/
theorem Checks.mapM (h : Checks E f Bad R) :
    Checks E (fun xs => xs.mapM f) (fun xs => ∃ x ∈ xs, Bad x) (List.Forall₂ R) := by
  have hall : ∀ xs : List β, (∃ e, xs.mapM f = .error e ∧ E e ∧ ∃ x ∈ xs, Bad x) ∨
      ∃ ys, xs.mapM f = .ok ys ∧ List.Forall₂ R xs ys ∧ ∀ x ∈ xs, ¬ Bad x := by
    intro xs
    induction xs with
    | nil => exact Or.inr ⟨[], rfl, .nil, by simp⟩
    | cons x xs ih =>
      rw [List.mapM_cons]
      by_cases hx : Bad x
      · obtain ⟨e, he, hE⟩ := h.fails x hx
        rw [he]
        exact Or.inl ⟨e, rfl, hE, x, by simp, hx⟩
      · obtain ⟨y, hy, hR⟩ := h.gives x hx
        rw [hy]
        obtain ⟨e, he, hE, z, hz, hbad⟩ | ⟨ys, hys, hRs, hgood⟩ := ih
        · rw [he]
          exact Or.inl ⟨e, rfl, hE, z, by simp [hz], hbad⟩
        · rw [hys]
          exact Or.inr ⟨y :: ys, rfl, .cons hR hRs, List.forall_mem_cons.mpr ⟨hx, hgood⟩⟩
  constructor
  · intro xs hbad
    obtain ⟨e, he, hE, -⟩ | ⟨ys, -, -, hgood⟩ := hall xs
    · exact ⟨e, he, hE⟩
    · obtain ⟨x, hx, hx'⟩ := hbad
      exact absurd hx' (hgood x hx)
  · intro xs hgood
    obtain ⟨e, -, -, hbad⟩ | ⟨ys, hys, hRs, -⟩ := hall xs
    · exact absurd hbad hgood
    · exact ⟨ys, hys, hRs⟩

/-- A traversal stops at the first element whose step fails. -/
theorem mapM_cases (f : β → Except ε γ) (xs : List β) :
    (∃ ys, xs.mapM f = .ok ys ∧ List.Forall₂ (fun x y => f x = .ok y) xs ys) ∨
      ∃ a x b e, xs = a ++ x :: b ∧ (∀ z ∈ a, ∃ y, f z = .ok y) ∧ f x = .error e ∧
        xs.mapM f = .error e := by
  induction xs with
  | nil => exact Or.inl ⟨[], rfl, .nil⟩
  | cons x xs ih =>
    rw [List.mapM_cons]
    cases hx : f x with
    | error e => exact Or.inr ⟨[], x, xs, e, rfl, by simp, hx, rfl⟩
    | ok y =>
      obtain ⟨ys, hys, hall⟩ | ⟨a, z, b, e, rfl, ha, hz, he⟩ := ih
      · rw [hys]
        exact Or.inl ⟨y :: ys, rfl, .cons hx hall⟩
      · rw [he]
        exact Or.inr ⟨x :: a, z, b, e, rfl, List.forall_mem_cons.mpr ⟨⟨y, hx⟩, ha⟩, hz, rfl⟩

theorem forall₂_of_mapM {xs : List β} {ys : List γ} (h : xs.mapM f = .ok ys) :
    List.Forall₂ (fun x y => f x = .ok y) xs ys := by
  obtain ⟨ys', hys, hall⟩ | ⟨a, x, b, e, rfl, -, -, he⟩ := mapM_cases f xs
  · rw [hys] at h
    cases h
    exact hall
  · rw [he] at h
    cases h

theorem getElem?_of_forall₂ {S : β → γ → Prop} {xs : List β} {ys : List γ}
    (h : List.Forall₂ S xs ys) {i : Nat} {x : β} (hx : xs[i]? = some x) :
    ∃ y, ys[i]? = some y ∧ S x y := by
  induction h generalizing i with
  | nil => cases hx
  | @cons x' y' xs ys hxy _ ih =>
    cases i with
    | zero =>
      cases hx
      exact ⟨y', rfl, hxy⟩
    | succ i => exact ih hx

theorem mapM_of_ok {g : β → γ} {xs : List β} (h : ∀ x ∈ xs, f x = .ok (g x)) :
    xs.mapM f = .ok (xs.map g) := by
  induction xs with
  | nil => rfl
  | cons x xs ih =>
    obtain ⟨hx, hxs⟩ := List.forall_mem_cons.mp h
    rw [List.mapM_cons, hx, ih hxs]
    rfl

theorem exists_of_forall₂ {S : β → γ → Prop} {xs : List β} {ys : List γ}
    (h : List.Forall₂ S xs ys) : ∀ x ∈ xs, ∃ y ∈ ys, S x y := by
  induction h with
  | nil => simp
  | @cons x y xs ys hxy _ ih =>
    refine List.forall_mem_cons.mpr ⟨⟨y, by simp, hxy⟩, fun z hz => ?_⟩
    obtain ⟨w, hw, hzw⟩ := ih z hz
    exact ⟨w, by simp [hw], hzw⟩

theorem mapM_ok_iff {xs : List β} :
    (∃ ys, xs.mapM f = .ok ys) ↔ ∀ x ∈ xs, ∃ y, f x = .ok y := by
  obtain ⟨ys, hys, hall⟩ | ⟨a, x, b, e, rfl, -, hx, he⟩ := mapM_cases f xs
  · refine iff_of_true ⟨ys, hys⟩ fun x hx => ?_
    obtain ⟨y, -, hy⟩ := exists_of_forall₂ hall x hx
    exact ⟨y, hy⟩
  · refine iff_of_false (fun h => ?_) fun h => ?_
    · obtain ⟨ys, hys⟩ := h
      rw [hys] at he
      cases he
    · obtain ⟨y, hy⟩ := h x (by simp)
      rw [hy] at hx
      cases hx

/-- A record one part of which is checked, and put in place of that part. -/
theorem Checks.part (h : Checks E f Bad R) (part : δ → β) (build : δ → γ → ζ) {S : δ → ζ → Prop}
    (hS : ∀ z y, R (part z) y → S z (build z y)) :
    Checks E (fun z => f (part z) >>= fun y => .ok (build z y)) (fun z => Bad (part z)) S := by
  constructor
  · intro z hz
    obtain ⟨e, he, hE⟩ := h.fails _ hz
    exact ⟨e, by rw [he]; rfl, hE⟩
  · intro z hz
    obtain ⟨y, hy, hR⟩ := h.gives _ hz
    exact ⟨build z y, by rw [hy]; rfl, hS z y hR⟩

end TptTelemetry.Lib.Traverse
