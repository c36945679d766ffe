import TptTelemetry.Lib.Pattern

namespace TptTelemetry.Lib.Delimited

open TptTelemetry.Lib.Pattern

variable {α : Type} (sep : α → Bool)

/-- Nothing more, or fixed text that begins with a separator. -/
def Opens : List (Piece α) → Prop
  | [] => True
  | .lit (a :: _) :: _ => sep a = true
  | _ => False

def Closed : List (Piece α) → Prop
  | [] => True
  | .lit _ :: ps => Closed ps
  | .hole _ :: ps => Opens sep ps ∧ Closed ps

def Free (ts : List (List α)) : Prop := ts.flatten.countP sep = 0

def fixedCount : List (Piece α) → Nat
  | [] => 0
  | .lit l :: ps => l.countP sep + fixedCount ps
  | .hole _ :: ps => fixedCount ps

variable {sep} {ps : List (Piece α)} {ts us : List (List α)} {s t u r q : List α}

theorem free_cons : Free sep (t :: ts) ↔ t.countP sep = 0 ∧ Free sep ts := by
  rw [Free, Free, List.flatten_cons, List.countP_append]
  omega

theorem countP_of_fits (h : Fits ps ts s) :
    s.countP sep = fixedCount sep ps + ts.flatten.countP sep := by
  induction ps generalizing ts s with
  | nil =>
    obtain ⟨rfl, rfl⟩ := fits_nil.mp h
    rfl
  | cons p ps ih =>
    cases p with
    | lit l =>
      obtain ⟨s', rfl, h'⟩ := fits_lit.mp h
      rw [List.countP_append, ih h', fixedCount, Nat.add_assoc]
    | hole kind =>
      obtain ⟨t, ts', s', rfl, rfl, -, h'⟩ := fits_hole.mp h
      rw [List.countP_append, ih h', fixedCount, List.flatten_cons, List.countP_append]
      omega

/-- All separators are in the fixed text, so no fit can have one elsewhere. -/
theorem Free.of_fits (hfree : Free sep ts) (ht : Fits ps ts s) (hu : Fits ps us s) :
    Free sep us := by
  have hcount : _ = fixedCount sep ps + _ := (countP_of_fits ht).symm.trans (countP_of_fits hu)
  rw [Free] at hfree ⊢
  omega

theorem takeWhile_free (hfree : t.countP sep = 0)
    (hr : r = [] ∨ ∃ a r', r = a :: r' ∧ sep a = true) :
    (t ++ r).takeWhile (fun a => !sep a) = t := by
  have hall : ∀ a ∈ t, (!sep a) = true := by
    intro a ha
    simpa using List.countP_eq_zero.mp hfree a ha
  rw [List.takeWhile_append_of_pos hall]
  obtain rfl | ⟨a, r', rfl, ha⟩ := hr
  · simp
  · simp [ha]

theorem opens_of_fits (hopens : Opens sep ps) (h : Fits ps ts s) :
    s = [] ∨ ∃ a s', s = a :: s' ∧ sep a = true := by
  cases ps with
  | nil => exact Or.inl (fits_nil.mp h).2
  | cons p ps =>
    cases p with
    | lit l =>
      cases l with
      | nil => cases hopens
      | cons a l =>
        obtain ⟨s', rfl, -⟩ := fits_lit.mp h
        exact Or.inr ⟨a, l ++ s', rfl, hopens⟩
    | hole kind => cases hopens

/-- Texts without separators are found again, since every text ends at the next
separator. -/
theorem fits_unique (hclosed : Closed sep ps) (hfree : Free sep ts) (ht : Fits ps ts s)
    (hu : Fits ps us s) : us = ts := by
  have hfree' := hfree.of_fits ht hu
  induction ps generalizing ts us s with
  | nil => rw [(fits_nil.mp ht).1, (fits_nil.mp hu).1]
  | cons p ps ih =>
    cases p with
    | lit l =>
      obtain ⟨s₁, rfl, ht'⟩ := fits_lit.mp ht
      obtain ⟨s₂, hs, hu'⟩ := fits_lit.mp hu
      rw [← List.append_cancel_left hs] at hu'
      exact ih hclosed hfree ht' hu' hfree'
    | hole kind =>
      obtain ⟨t, ts', r, rfl, rfl, -, ht'⟩ := fits_hole.mp ht
      obtain ⟨u, us', q, rfl, hs, -, hu'⟩ := fits_hole.mp hu
      obtain ⟨hft, hfts⟩ := free_cons.mp hfree
      obtain ⟨hfu, hfus⟩ := free_cons.mp hfree'
      have htake := takeWhile_free hft (opens_of_fits hclosed.1 ht')
      rw [hs, takeWhile_free hfu (opens_of_fits hclosed.1 hu')] at htake
      subst htake
      rw [← List.append_cancel_left hs] at hu'
      rw [ih hclosed.2 hfts ht' hu' hfus]

end TptTelemetry.Lib.Delimited
