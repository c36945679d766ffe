import Mathlib.Data.List.Forall2
import Mathlib.Data.List.Infix
import Mathlib.Order.Basic

namespace TptTelemetry.Lib.Pattern

/-- A piece of a pattern: fixed text, or a hole for any text of a given kind. -/
inductive Piece (α : Type)
  | lit (l : List α)
  | hole (kind : List α → Prop)

variable {α : Type}

def holes : List (Piece α) → List (List α → Prop)
  | [] => []
  | .lit _ :: ps => holes ps
  | .hole kind :: ps => kind :: holes ps

def render : List (Piece α) → List (List α) → List α
  | [], _ => []
  | .lit l :: ps, ts => l ++ render ps ts
  | .hole _ :: ps, [] => render ps []
  | .hole _ :: ps, t :: ts => t ++ render ps ts

/-- One text of the right kind for every hole, which together with the fixed
text make up the whole of `s`. -/
def Fits (ps : List (Piece α)) (ts : List (List α)) (s : List α) : Prop :=
  List.Forall₂ (fun kind t => kind t) (holes ps) ts ∧ render ps ts = s

def Matches (ps : List (Piece α)) (s : List α) : Prop := ∃ ts, Fits ps ts s

theorem fits_nil {ts : List (List α)} {s : List α} : Fits [] ts s ↔ ts = [] ∧ s = [] := by
  simp [Fits, holes, render, eq_comm]

theorem fits_lit {l : List α} {ps : List (Piece α)} {ts : List (List α)} {s : List α} :
    Fits (.lit l :: ps) ts s ↔ ∃ s', s = l ++ s' ∧ Fits ps ts s' := by
  refine ⟨fun h => ⟨_, h.2.symm, h.1, rfl⟩, ?_⟩
  rintro ⟨s', rfl, hf, rfl⟩
  exact ⟨hf, rfl⟩

theorem fits_hole {kind : List α → Prop} {ps : List (Piece α)} {ts : List (List α)} {s : List α} :
    Fits (.hole kind :: ps) ts s ↔
      ∃ t ts' s', ts = t :: ts' ∧ s = t ++ s' ∧ kind t ∧ Fits ps ts' s' := by
  refine ⟨?_, ?_⟩
  · rintro ⟨hf, rfl⟩
    obtain ⟨t, ts', ht, hf', rfl⟩ := List.forall₂_cons_left_iff.mp hf
    exact ⟨t, ts', _, rfl, rfl, ht, hf', rfl⟩
  · rintro ⟨t, ts', s', rfl, rfl, ht, hf, rfl⟩
    exact ⟨List.Forall₂.cons ht hf, rfl⟩

theorem matches_nil {s : List α} : Matches [] s ↔ s = [] := by
  simp [Matches, fits_nil]

theorem matches_lit {l : List α} {ps : List (Piece α)} {s : List α} :
    Matches (.lit l :: ps) s ↔ ∃ s', s = l ++ s' ∧ Matches ps s' := by
  simp only [Matches, fits_lit]
  exact ⟨fun ⟨ts, s', hs, h⟩ => ⟨s', hs, ts, h⟩, fun ⟨s', hs, ts, h⟩ => ⟨ts, s', hs, h⟩⟩

def Takes (kind : List α → Prop) (ps : List (Piece α)) (s t r : List α) : Prop :=
  s = t ++ r ∧ kind t ∧ Matches ps r

theorem matches_hole {kind : List α → Prop} {ps : List (Piece α)} {s : List α} :
    Matches (.hole kind :: ps) s ↔ ∃ t r, Takes kind ps s t r := by
  simp only [Matches, Takes, fits_hole]
  refine ⟨?_, ?_⟩
  · rintro ⟨-, t, ts, s', rfl, hs, ht, h⟩
    exact ⟨t, s', hs, ht, ts, h⟩
  · rintro ⟨t, s', hs, ht, ts, h⟩
    exact ⟨t :: ts, t, ts, s', rfl, hs, ht, h⟩

/-- The fit that gives its earlier holes the longest texts, compared hole by
hole. -/
def Greatest (ps : List (Piece α)) (ts : List (List α)) (s : List α) : Prop :=
  Fits ps ts s ∧
    ∀ us, Fits ps us s → us = ts ∨ List.Lex (· < ·) (us.map List.length) (ts.map List.length)

theorem greatest_nil : Greatest ([] : List (Piece α)) [] [] :=
  ⟨fits_nil.mpr ⟨rfl, rfl⟩, fun _ h => Or.inl (fits_nil.mp h).1⟩

theorem greatest_lit {l : List α} {ps : List (Piece α)} {ts : List (List α)} {s : List α} :
    Greatest (.lit l :: ps) ts (l ++ s) ↔ Greatest ps ts s := by
  have hfits : ∀ us, Fits (.lit l :: ps) us (l ++ s) ↔ Fits ps us s := by
    intro us
    refine ⟨fun h => ?_, fun h => fits_lit.mpr ⟨s, rfl, h⟩⟩
    obtain ⟨s', hs, h'⟩ := fits_lit.mp h
    rwa [List.append_cancel_left hs]
  simp only [Greatest, hfits]

/-- A greatest fit takes the longest text that the hole can take, and goes on
with a greatest fit of the rest. -/
theorem greatest_hole {kind : List α → Prop} {ps : List (Piece α)} {s t r : List α}
    {ts : List (List α)} (hs : s = t ++ r) (ht : kind t) (h : Greatest ps ts r)
    (hmax : ∀ u q, Takes kind ps s u q → u.length ≤ t.length) :
    Greatest (.hole kind :: ps) (t :: ts) s := by
  refine ⟨fits_hole.mpr ⟨t, ts, r, rfl, hs, ht, h.1⟩, fun us hu => ?_⟩
  obtain ⟨u, us', q, rfl, hs', hu, hq⟩ := fits_hole.mp hu
  obtain hlt | heq := Nat.lt_or_eq_of_le (hmax u q ⟨hs', hu, us', hq⟩)
  · exact Or.inr (List.Lex.rel hlt)
  · obtain ⟨rfl, rfl⟩ := List.append_inj (hs'.symm.trans hs) heq
    obtain rfl | hlex := h.2 us' hq
    · exact Or.inl rfl
    · exact Or.inr (List.Lex.cons hlex)

theorem Greatest.first_longest {kind : List α → Prop} {ps : List (Piece α)} {s t u q : List α}
    {ts : List (List α)} (h : Greatest (.hole kind :: ps) (t :: ts) s) (hu : Takes kind ps s u q) :
    u.length ≤ t.length := by
  obtain ⟨hs, hu, us, hus⟩ := hu
  obtain heq | hlex := h.2 (u :: us) (fits_hole.mpr ⟨u, us, q, rfl, hs, hu, hus⟩)
  · cases heq
    exact le_rfl
  · rw [List.map_cons, List.map_cons, List.cons_lex_cons_iff] at hlex
    omega

/-- Two fits of one text differ first in the lengths of two texts of which one
is the beginning of the other, so any measure that grows with a text compares
them as the number of its elements does. -/
theorem lex_measure {w : List α → Nat} (hw : ∀ t a u, w t < w (t ++ a :: u))
    {ps : List (Piece α)} {us ts : List (List α)} {s : List α} (hu : Fits ps us s)
    (ht : Fits ps ts s) (h : List.Lex (· < ·) (us.map List.length) (ts.map List.length)) :
    List.Lex (· < ·) (us.map w) (ts.map w) := by
  induction ps generalizing us ts s with
  | nil =>
    rw [(fits_nil.mp hu).1, (fits_nil.mp ht).1] at h
    cases h
  | cons p ps ih =>
    cases p with
    | lit l =>
      obtain ⟨s₁, rfl, hu'⟩ := fits_lit.mp hu
      obtain ⟨s₂, hs, ht'⟩ := fits_lit.mp ht
      rw [← List.append_cancel_left hs] at ht'
      exact ih hu' ht' h
    | hole kind =>
      obtain ⟨u, us, q, rfl, rfl, -, hu'⟩ := fits_hole.mp hu
      obtain ⟨t, ts, r, rfl, hs, -, ht'⟩ := fits_hole.mp ht
      rw [List.map_cons, List.map_cons, List.cons_lex_cons_iff] at h
      obtain hlt | ⟨hlen, h⟩ := h
      · obtain ⟨v, rfl⟩ := List.prefix_of_prefix_length_le ⟨q, rfl⟩ ⟨r, hs.symm⟩ (Nat.le_of_lt hlt)
        cases v with
        | nil => simp at hlt
        | cons a v => exact List.Lex.rel (hw u a v)
      · obtain ⟨rfl, rfl⟩ := List.append_inj hs hlen
        exact List.Lex.cons (ih hu' ht' h)

end TptTelemetry.Lib.Pattern
