import TptTelemetry.Lib.Json

namespace TptTelemetry.Lib.JsonObject

open TptTelemetry.Lib.Text TptTelemetry.Lib.Json

variable {α β : Type}

def members (fields : List (Str × Option Tree)) : List (Str × Tree) :=
  fields.flatMap fun f => f.2.toList.map (f.1, ·)

def object (fields : List (Str × Option Tree)) : Tree := .obj (members fields)

def lookup (key : Str) (ms : List (Str × Tree)) : Option (Option Tree) :=
  match ms.filter (fun m => m.1 = key) with
  | [] => some none
  | [m] => some (some m.2)
  | _ => none

def required (key : Str) (f : Tree → Option α) (ms : List (Str × Tree)) : Option α :=
  match lookup key ms with
  | some (some t) => f t
  | _ => none

def possible (key : Str) (f : Tree → Option α) (ms : List (Str × Tree)) : Option (Option α) :=
  match lookup key ms with
  | some none | some (some .null) => some none
  | some (some t) => (f t).map some
  | none => none

def readArr (f : Tree → Option α) : Tree → Option (List α)
  | .arr items => items.mapM f
  | _ => none

def readObj (f : List (Str × Tree) → Option α) : Tree → Option α
  | .obj ms => f ms
  | _ => none

section Laws

variable {fields : List (Str × Option Tree)} {key : Str}

theorem filter_members_of_not_mem (h : key ∉ fields.map Prod.fst) :
    (members fields).filter (fun m => m.1 = key) = [] := by
  refine List.filter_eq_nil_iff.mpr fun m hm => ?_
  obtain ⟨f, hf, hm⟩ := List.mem_flatMap.mp hm
  obtain ⟨t, -, rfl⟩ := List.mem_map.mp hm
  have hne : f.1 ≠ key := fun he => h (he ▸ List.mem_map_of_mem hf)
  simpa using hne

theorem lookup_members {x : Option Tree} (hnodup : (fields.map Prod.fst).Nodup)
    (h : (key, x) ∈ fields) : lookup key (members fields) = some x := by
  have hfilter : (members fields).filter (fun m => m.1 = key) = x.toList.map (key, ·) := by
    induction fields with
    | nil => cases h
    | cons f fields ih =>
      obtain ⟨hf, hnodup⟩ := List.nodup_cons.mp hnodup
      rw [members, List.flatMap_cons, List.filter_append, ← members]
      obtain rfl | h := List.mem_cons.mp h
      · rw [filter_members_of_not_mem hf, List.append_nil]
        exact List.filter_eq_self.mpr fun m hm => by
          obtain ⟨t, -, rfl⟩ := List.mem_map.mp hm
          simp
      · have hne : f.1 ≠ key := fun he => hf (he ▸ List.mem_map_of_mem (f := Prod.fst) h)
        rw [ih hnodup h, List.filter_eq_nil_iff.mpr, List.nil_append]
        intro m hm
        obtain ⟨t, -, rfl⟩ := List.mem_map.mp hm
        simpa using hne
  rw [lookup, hfilter]
  cases x <;> rfl

theorem required_members {f : Tree → Option α} {t : Tree} {a : α}
    (hnodup : (fields.map Prod.fst).Nodup) (hmem : (key, some t) ∈ fields) (h : f t = some a) :
    required key f (members fields) = some a := by
  rw [required, lookup_members hnodup hmem]
  exact h

theorem possible_members {f : Tree → Option α} {x : Option β} {write : β → Tree} {back : β → α}
    (hnodup : (fields.map Prod.fst).Nodup) (hmem : (key, x.map write) ∈ fields)
    (h : ∀ v, x = some v → write v ≠ .null ∧ f (write v) = some (back v)) :
    possible key f (members fields) = some (x.map back) := by
  have hlookup := lookup_members hnodup hmem
  cases x with
  | none => rw [possible, hlookup]; rfl
  | some v =>
    obtain ⟨hnull, hread⟩ := h v rfl
    rw [possible, hlookup, Option.map_some]
    split
    · next heq => cases heq
    · next heq => exact absurd (Option.some.inj (Option.some.inj heq)) hnull
    · next t _ heq =>
      obtain rfl := Option.some.inj (Option.some.inj heq)
      rw [hread]
      rfl
    · next heq => cases heq

theorem possible_same {f : Tree → Option α} {x : Option α} {write : α → Tree}
    (hnodup : (fields.map Prod.fst).Nodup) (hmem : (key, x.map write) ∈ fields)
    (hnull : ∀ v, write v ≠ .null) (h : ∀ v, f (write v) = some v) :
    possible key f (members fields) = some x := by
  have hback : ∀ v, x = some v → write v ≠ .null ∧ f (write v) = some (id v) :=
    fun v _ => ⟨hnull v, h v⟩
  rw [possible_members hnodup hmem hback, Option.map_id]
  rfl

theorem readArr_map {f : Tree → Option α} {xs : List β} {write : β → Tree} {back : β → α}
    (h : ∀ x ∈ xs, f (write x) = some (back x)) :
    readArr f (.arr (xs.map write)) = some (xs.map back) := by
  rw [readArr]
  induction xs with
  | nil => rfl
  | cons x xs ih =>
    rw [List.map_cons, List.mapM_cons, h x (by simp), ih fun y hy => h y (by simp [hy])]
    rfl

end Laws

end TptTelemetry.Lib.JsonObject
