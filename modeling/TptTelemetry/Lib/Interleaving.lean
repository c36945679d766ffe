import Mathlib.Algebra.BigOperators.Fin
import Mathlib.Algebra.BigOperators.Group.Finset.Piecewise
import Mathlib.Data.List.Forall2

namespace TptTelemetry.Lib.Interleaving

variable {α β : Type} {i : Nat} {tagged : List (Nat × α)} {parts : List (List α)} {l : List α}

def ofParty (i : Nat) (tagged : List (Nat × α)) : List α :=
  tagged.filterMap (fun p => if p.1 = i then some p.2 else none)

/-- The sequence is made of one part for each party, each of them in its order. -/
def Interleaves (parts : List (List α)) (l : List α) : Prop :=
  ∃ tagged : List (Nat × α), tagged.map Prod.snd = l ∧ (∀ p ∈ tagged, p.1 < parts.length) ∧
    ∀ (i : Nat) (part : List α), parts[i]? = some part → ofParty i tagged = part

theorem ofParty_cons (p : Nat × α) :
    ofParty i (p :: tagged) = if p.1 = i then p.2 :: ofParty i tagged else ofParty i tagged := by
  rw [ofParty, List.filterMap_cons]
  by_cases h : p.1 = i
  · rw [if_pos h, if_pos h]
    rfl
  · rw [if_neg h, if_neg h]
    rfl

theorem ofParty_append (more : List (Nat × α)) :
    ofParty i (tagged ++ more) = ofParty i tagged ++ ofParty i more := List.filterMap_append

theorem ofParty_sublist (i : Nat) (tagged : List (Nat × α)) :
    (ofParty i tagged).Sublist (tagged.map Prod.snd) := by
  induction tagged with
  | nil => exact List.Sublist.refl _
  | cons p tagged ih =>
    rw [ofParty_cons]
    split
    · exact ih.cons_cons p.2
    · exact ih.cons p.2

theorem ofParty_filterMap (f : α → Option β) : ofParty i
      (tagged.filterMap (fun p => (f p.2).map (fun b => (p.1, b)))) = (ofParty i tagged).filterMap f := by
  rw [ofParty, ofParty, List.filterMap_filterMap, List.filterMap_filterMap]
  congr 1
  funext p
  by_cases h : p.1 = i
  · cases hf : f p.2 <;> simp [h, hf]
  · cases hf : f p.2 <;> simp [h]

theorem interleaves_tagged {n : Nat} (h : ∀ p ∈ tagged, p.1 < n) :
    Interleaves ((List.range n).map (fun i => ofParty i tagged)) (tagged.map Prod.snd) := by
  refine ⟨tagged, rfl, by simpa using h, fun i part hi => ?_⟩
  rw [List.getElem?_map, Option.map_eq_some_iff] at hi
  obtain ⟨j, hj, rfl⟩ := hi
  obtain ⟨-, rfl⟩ := List.getElem?_eq_some_iff.mp hj
  rw [List.getElem_range]

/-- The first entries are made of the first entries of each part. -/
theorem Interleaves.firsts {rest : List α} (h : Interleaves parts (l ++ rest)) :
    ∃ firsts, List.Forall₂ (· <+: ·) firsts parts ∧ Interleaves firsts l ∧
      (rest = [] → firsts = parts) := by
  obtain ⟨tagged, hl, htags, hparts⟩ := h
  obtain ⟨before, after, rfl, rfl, rfl⟩ := List.map_eq_append_iff.mp hl
  have hsplit : parts = (List.range parts.length).map (fun i => ofParty i (before ++ after)) := by
    refine List.ext_getElem (by simp) fun i hi hi' => ?_
    rw [List.getElem_map, List.getElem_range, hparts i _ (List.getElem?_eq_getElem hi)]
  refine ⟨_, ?_, interleaves_tagged fun p hp => htags p (List.mem_append_left _ hp), fun hrest => ?_⟩
  · conv => arg 3; rw [hsplit]
    rw [List.forall₂_map_left_iff, List.forall₂_map_right_iff]
    refine List.forall₂_same.mpr fun i _ => ?_
    rw [ofParty_append]
    exact List.prefix_append _ _
  · conv => rhs; rw [hsplit, List.map_eq_nil_iff.mp hrest, List.append_nil]

theorem Interleaves.sublist (h : Interleaves parts l) {part : List α} (hp : part ∈ parts) :
    part.Sublist l := by
  obtain ⟨tagged, rfl, -, hparts⟩ := h
  obtain ⟨i, hi⟩ := List.getElem?_of_mem hp
  rw [← hparts i part hi]
  exact ofParty_sublist i tagged

/-- What is done to each entry is done to each part. -/
theorem Interleaves.filterMap (f : α → Option β) (h : Interleaves parts l) :
    Interleaves (parts.map (List.filterMap f)) (l.filterMap f) := by
  obtain ⟨tagged, rfl, htags, hparts⟩ := h
  refine ⟨tagged.filterMap (fun p => (f p.2).map (fun b => (p.1, b))), ?_, ?_, ?_⟩
  · rw [List.map_filterMap, List.filterMap_map]
    congr 1
    funext p
    simp
  · intro q hq
    obtain ⟨p, hp, hpq⟩ := List.mem_filterMap.mp hq
    obtain ⟨b, -, rfl⟩ := Option.map_eq_some_iff.mp hpq
    rw [List.length_map]
    exact htags p hp
  · intro i part hi
    rw [List.getElem?_map, Option.map_eq_some_iff] at hi
    obtain ⟨part, hi, rfl⟩ := hi
    rw [ofParty_filterMap, hparts i part hi]

theorem sum_ofParty {n : Nat} (h : ∀ p ∈ tagged, p.1 < n) :
    ∑ i ∈ Finset.range n, (ofParty i tagged).length = tagged.length := by
  induction tagged with
  | nil => exact Finset.sum_const_zero
  | cons p tagged ih =>
    obtain ⟨hp, htags⟩ := List.forall_mem_cons.mp h
    have hlen : ∀ i, (ofParty i (p :: tagged)).length =
        (if p.1 = i then 1 else 0) + (ofParty i tagged).length := by
      intro i
      rw [ofParty_cons]
      split <;> simp [Nat.add_comm]
    rw [Finset.sum_congr rfl fun i _ => hlen i, Finset.sum_add_distrib, ih htags, Finset.sum_ite_eq,
      if_pos (Finset.mem_range.mpr hp), List.length_cons, Nat.add_comm]

theorem Interleaves.length (h : Interleaves parts l) : l.length = (parts.map List.length).sum := by
  obtain ⟨tagged, rfl, htags, hparts⟩ := h
  rw [List.length_map, ← sum_ofParty htags, Finset.sum_range, ← List.sum_ofFn]
  congr 1
  refine List.ext_getElem (by simp) fun i hi hi' => ?_
  rw [List.length_ofFn] at hi
  simp [hparts i _ (List.getElem?_eq_getElem hi)]

end TptTelemetry.Lib.Interleaving
