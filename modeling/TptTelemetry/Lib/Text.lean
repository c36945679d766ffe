import Mathlib.Data.List.Basic
import Mathlib.Algebra.Order.BigOperators.Group.List

namespace TptTelemetry.Lib.Text

/-- A valid UTF-8 string, given by its Unicode scalar values. Positions in
it are byte offsets, as in Rust, so not every offset is a character boundary. -/
abbrev Str := List Char

instance (s : Str) (l : List Str) : Decidable (s ∈ l) := inferInstance

def byteLen : Str → Nat
  | [] => 0
  | c :: s => c.utf8Size + byteLen s

@[simp]
theorem byteLen_nil : byteLen [] = 0 := rfl

@[simp]
theorem byteLen_cons (c : Char) (s : Str) : byteLen (c :: s) = c.utf8Size + byteLen s := rfl

@[simp]
theorem byteLen_append (s t : Str) : byteLen (s ++ t) = byteLen s + byteLen t := by
  induction s with
  | nil => simp
  | cons c s ih => rw [List.cons_append, byteLen_cons, byteLen_cons, ih, Nat.add_assoc]

theorem byteLen_eq_zero {s : Str} : byteLen s = 0 ↔ s = [] := by
  cases s with
  | nil => simp
  | cons c s =>
    have hc := Char.utf8Size_pos c
    simp only [byteLen_cons, reduceCtorEq, iff_false]
    omega

/-- Split at a byte offset. There is no result past the end of the string
or inside a character. -/
def splitAt : Str → Nat → Option (Str × Str)
  | s, 0 => some ([], s)
  | [], _ + 1 => none
  | c :: s, n + 1 =>
    if c.utf8Size ≤ n + 1 then (splitAt s (n + 1 - c.utf8Size)).map (fun p => (c :: p.1, p.2))
    else none

theorem splitAt_append (s t : Str) : splitAt (s ++ t) (byteLen s) = some (s, t) := by
  induction s with
  | nil => cases t <;> rfl
  | cons c s ih =>
    have hc := Char.utf8Size_pos c
    obtain ⟨n, hn⟩ : ∃ n, byteLen (c :: s) = n + 1 := ⟨c.utf8Size + byteLen s - 1, by simp; omega⟩
    have hsub : n + 1 - c.utf8Size = byteLen s := by rw [← hn, byteLen_cons]; omega
    have hle : c.utf8Size ≤ n + 1 := by rw [← hn, byteLen_cons]; omega
    rw [hn, List.cons_append, splitAt, if_pos hle, hsub, ih]
    rfl

theorem splitAt_eq_some {s p q : Str} {n : Nat} (h : splitAt s n = some (p, q)) :
    s = p ++ q ∧ byteLen p = n := by
  induction s, n using splitAt.induct generalizing p q with
  | case1 s =>
    cases s <;> simp_all [splitAt]
  | case2 n => simp [splitAt] at h
  | case3 c s n hle ih =>
    rw [splitAt, if_pos hle] at h
    obtain ⟨⟨p', q'⟩, hs, he⟩ := Option.map_eq_some_iff.mp h
    obtain ⟨rfl, hp⟩ := ih hs
    cases he
    refine ⟨rfl, ?_⟩
    rw [byteLen_cons, hp]
    omega
  | case4 c s n hlt => simp [splitAt, hlt] at h

/-- The panics of indexing: a string at an offset that is no boundary, and a
sequence past its end. -/
inductive Panic
  | strIndex
  | seqIndex
  deriving DecidableEq, Repr

theorem bind_eq_ok {ε β γ : Type} {x : Except ε β} {f : β → Except ε γ} {c : γ} :
    x >>= f = .ok c ↔ ∃ b, x = .ok b ∧ f b = .ok c := by
  cases x <;> simp [bind, Except.bind]

theorem exists_bind_ok {ε β γ : Type} {x : Except ε β} {g : β → γ} :
    (∃ c, x >>= (fun b => .ok (g b)) = .ok c) ↔ ∃ b, x = .ok b := by
  cases x <;> simp [bind, Except.bind]

theorem bind_eq_error {ε β γ : Type} {x : Except ε β} {f : β → Except ε γ} {e : ε} :
    x >>= f = .error e ↔ x = .error e ∨ ∃ b, x = .ok b ∧ f b = .error e := by
  cases x <;> simp [bind, Except.bind]

theorem foldlM_invariant {ε β γ : Type} {f : β → γ → Except ε β} {P : β → Prop} {xs : List γ}
    (hstep : ∀ b, ∀ x ∈ xs, ∀ c, P b → f b x = .ok c → P c) {b c : β} (hb : P b)
    (h : xs.foldlM f b = .ok c) : P c := by
  induction xs generalizing b with
  | nil =>
    cases h
    exact hb
  | cons x xs ih =>
    rw [List.foldlM_cons, bind_eq_ok] at h
    obtain ⟨d, hd, h⟩ := h
    have hstep' : ∀ b, ∀ y ∈ xs, ∀ c, P b → f b y = .ok c → P c :=
      fun b y hy => hstep b y (by simp [hy])
    exact ih hstep' (hstep b x (by simp) d hb hd) h

theorem mapM_error {ε β γ : Type} {f : β → Except ε γ} {xs : List β} {e : ε}
    (h : xs.mapM f = .error e) : ∃ x ∈ xs, f x = .error e := by
  induction xs with
  | nil => cases h
  | cons x xs ih =>
    rw [List.mapM_cons, bind_eq_error] at h
    obtain h | ⟨y, -, h⟩ := h
    · exact ⟨x, by simp, h⟩
    · obtain h | ⟨ys, -, h⟩ := bind_eq_error.mp h
      · obtain ⟨z, hz, he⟩ := ih h
        exact ⟨z, by simp [hz], he⟩
      · cases h

theorem mapM_eq_map {ε β γ δ : Type} {f : β → Except ε γ} {g : β → Except ε δ} {h : γ → δ}
    (hg : ∀ x, g x = (f x).map h) (xs : List β) : xs.mapM g = (xs.mapM f).map (List.map h) := by
  induction xs with
  | nil => rfl
  | cons x xs ih =>
    rw [List.mapM_cons, List.mapM_cons, hg, ih]
    cases f x with
    | error e => rfl
    | ok y => cases xs.mapM f <;> rfl

theorem length_flatMap_le {β γ : Type} {f g : β → List γ} {xs : List β}
    (hle : ∀ x ∈ xs, (f x).length ≤ (g x).length) :
    (xs.flatMap f).length ≤ (xs.flatMap g).length := by
  induction xs with
  | nil => exact Nat.le_refl _
  | cons x xs ih =>
    obtain ⟨hx, hxs⟩ := List.forall_mem_cons.mp hle
    have hrest := ih hxs
    simp only [List.flatMap_cons, List.length_append]
    omega

/-- Two texts put together piece by piece, where no piece of the first is longer
than that of the second, are equal only piece by piece. -/
theorem flatMap_congr_of_length_le {β γ : Type} {f g : β → List γ} {xs : List β}
    (hle : ∀ x ∈ xs, (f x).length ≤ (g x).length) (h : xs.flatMap f = xs.flatMap g) :
    ∀ x ∈ xs, f x = g x := by
  induction xs with
  | nil => simp
  | cons x xs ih =>
    obtain ⟨hx, hxs⟩ := List.forall_mem_cons.mp hle
    rw [List.flatMap_cons, List.flatMap_cons] at h
    have hlen := congrArg List.length h
    rw [List.length_append, List.length_append] at hlen
    have hrest := length_flatMap_le hxs
    obtain ⟨hhead, htail⟩ := List.append_inj h (by omega)
    exact List.forall_mem_cons.mpr ⟨hhead, ih hxs htail⟩

def sliceFrom (s : Str) (i : Nat) : Except Panic Str :=
  match splitAt s i with
  | some (_, q) => .ok q
  | none => .error .strIndex

def slice (s : Str) (i j : Nat) : Except Panic Str :=
  match splitAt s i with
  | some (_, q) =>
    if i ≤ j then
      match splitAt q (j - i) with
      | some (m, _) => .ok m
      | none => .error .strIndex
    else .error .strIndex
  | none => .error .strIndex

theorem sliceFrom_append (s t : Str) : sliceFrom (s ++ t) (byteLen s) = .ok t := by
  rw [sliceFrom, splitAt_append]

theorem sliceFrom_ok_iff {s : Str} {i : Nat} :
    (∃ q, sliceFrom s i = .ok q) ↔ ∃ p q, s = p ++ q ∧ byteLen p = i := by
  constructor
  · rintro ⟨q, h⟩
    rw [sliceFrom] at h
    split at h
    · next p q' hs => exact ⟨p, q', splitAt_eq_some hs⟩
    · cases h
  · rintro ⟨p, q, rfl, rfl⟩
    exact ⟨q, sliceFrom_append p q⟩

theorem slice_append (s m t : Str) :
    slice (s ++ (m ++ t)) (byteLen s) (byteLen s + byteLen m) = .ok m := by
  have hsub : byteLen s + byteLen m - byteLen s = byteLen m := by omega
  rw [slice, splitAt_append]
  simp only [Nat.le_add_right, if_true, hsub, splitAt_append]

theorem slice_eq_ok {s m : Str} {i j : Nat} (h : slice s i j = .ok m) :
    ∃ p r, s = p ++ (m ++ r) ∧ byteLen p = i ∧ j = i + byteLen m := by
  rw [slice] at h
  split at h
  · next p q hp =>
    obtain ⟨rfl, rfl⟩ := splitAt_eq_some hp
    split at h
    · next hle =>
      split at h
      · next m' r hm =>
        cases h
        obtain ⟨rfl, hlen⟩ := splitAt_eq_some hm
        exact ⟨p, r, rfl, rfl, by omega⟩
      · cases h
    · cases h
  · cases h

def Ascii (s : Str) : Prop := ∀ c ∈ s, c.utf8Size = 1

instance (s : Str) : Decidable (Ascii s) :=
  (List.decidableBAll _ s : Decidable (∀ c ∈ s, c.utf8Size = 1))

theorem ascii_append {s t : Str} : Ascii (s ++ t) ↔ Ascii s ∧ Ascii t := by
  simp [Ascii, or_imp, forall_and]

theorem byteLen_ascii {s : Str} (h : Ascii s) : byteLen s = s.length := by
  induction s with
  | nil => rfl
  | cons c s ih =>
    have hc : c.utf8Size = 1 := h c (by simp)
    rw [byteLen_cons, hc, ih (fun d hd => h d (by simp [hd])), List.length_cons, Nat.add_comm]

theorem length_le_byteLen (s : Str) : s.length ≤ byteLen s := by
  induction s with
  | nil => exact Nat.le_refl 0
  | cons c s ih =>
    have hc := Char.utf8Size_pos c
    rw [List.length_cons, byteLen_cons]
    omega

theorem ascii_of_byteLen {s : Str} (h : byteLen s = s.length) : Ascii s := by
  induction s with
  | nil => simp [Ascii]
  | cons c s ih =>
    have hc := Char.utf8Size_pos c
    have hle := length_le_byteLen s
    rw [List.length_cons, byteLen_cons] at h
    refine List.forall_mem_cons.mpr ⟨by omega, ih (by omega)⟩

theorem exists_split_of_ascii {s : Str} (h : Ascii s) {n : Nat} (hn : n ≤ byteLen s) :
    ∃ p q, s = p ++ q ∧ byteLen p = n := by
  rw [byteLen_ascii h] at hn
  have hs := ascii_append.mp ((List.take_append_drop n s).symm ▸ h)
  refine ⟨s.take n, s.drop n, (List.take_append_drop n s).symm, ?_⟩
  rw [byteLen_ascii hs.1, List.length_take, Nat.min_eq_left hn]

/-- A string that is not ASCII has a last character that is not. -/
theorem exists_last_wide {s : Str} (h : ¬ Ascii s) :
    ∃ p c q, s = p ++ c :: q ∧ 1 < c.utf8Size ∧ Ascii q := by
  induction s with
  | nil => exact absurd (by simp [Ascii]) h
  | cons c s ih =>
    by_cases hs : Ascii s
    · have hc : c.utf8Size ≠ 1 := fun hc => h (by simpa [Ascii, hc] using hs)
      have hp := Char.utf8Size_pos c
      exact ⟨[], c, s, rfl, by omega, hs⟩
    · obtain ⟨p, d, q, rfl, hd, hq⟩ := ih hs
      exact ⟨c :: p, d, q, rfl, hd, hq⟩

theorem ascii_suffix_iff {p q t r : Str} {c : Char} (hc : 1 < c.utf8Size) (hq : Ascii q)
    (h : p ++ c :: q = t ++ r) : Ascii r ↔ p.length < t.length := by
  obtain ⟨w, rfl, hw⟩ | ⟨w, rfl, rfl⟩ := List.append_eq_append_iff.mp h
  · cases w with
    | nil =>
      rw [List.nil_append] at hw
      subst hw
      simp [Ascii, Nat.ne_of_gt hc]
    | cons d w =>
      simp only [List.cons_append, List.cons.injEq] at hw
      obtain ⟨rfl, rfl⟩ := hw
      simp [(ascii_append.mp hq).2]
  · simp [Ascii, or_imp, forall_and, Nat.ne_of_gt hc]

theorem splitAt_inside {p q : Str} {c : Char} (hc : 1 < c.utf8Size) :
    splitAt (p ++ c :: q) (byteLen p + c.utf8Size - 1) = none := by
  cases hs : splitAt (p ++ c :: q) (byteLen p + c.utf8Size - 1) with
  | none => rfl
  | some r =>
    obtain ⟨a, b⟩ := r
    obtain ⟨he, hl⟩ := splitAt_eq_some hs
    exfalso
    obtain ⟨w, rfl, hb⟩ | ⟨w, rfl, hw⟩ := List.append_eq_append_iff.mp he
    · cases w with
      | nil => simp at hl; omega
      | cons d w =>
        simp only [List.cons_append, List.cons.injEq] at hb
        obtain ⟨rfl, -⟩ := hb
        simp at hl
        omega
    · simp at hl
      omega

section Separators

/-- A text of parts, each but the first behind its separator. -/
def joined (part : Str) (rest : List (Char × Str)) : Str := part ++ rest.flatMap (fun x => x.1 :: x.2)

def parts (part : Str) (rest : List (Char × Str)) : List Str := part :: rest.map Prod.snd

variable {sep : Char → Bool} {part : Str} {rest : List (Char × Str)}

theorem intercalate_eq_joined (c : Char) (part : Str) (more : List Str) :
    [c].intercalate (part :: more) = joined part (more.map (Prod.mk c)) := by
  induction more generalizing part with
  | nil => simp [joined]
  | cons next more ih =>
    rw [List.intercalate_cons_cons, ih]
    simp [joined]

theorem mem_joined {c : Char} : c ∈ joined part rest ↔
    (∃ q ∈ parts part rest, c ∈ q) ∨ ∃ x ∈ rest, c = x.1 := by
  simp only [joined, parts, List.mem_append, List.mem_flatMap, List.mem_cons, List.mem_map,
    exists_eq_or_imp, or_assoc]
  constructor
  · rintro (hc | ⟨x, hx, hc | hc⟩)
    · exact Or.inl hc
    · exact Or.inr (Or.inr ⟨x, hx, hc⟩)
    · exact Or.inr (Or.inl ⟨x.2, ⟨x, hx, rfl⟩, hc⟩)
  · rintro (hc | ⟨q, ⟨x, hx, rfl⟩, hc⟩ | ⟨x, hx, hc⟩)
    · exact Or.inl hc
    · exact Or.inr ⟨x, hx, Or.inr hc⟩
    · exact Or.inr ⟨x, hx, Or.inl hc⟩

theorem splitOnP_joined (hparts : ∀ q ∈ parts part rest, ∀ c ∈ q, sep c = false)
    (hseps : ∀ x ∈ rest, sep x.1) : (joined part rest).splitOnP sep = parts part rest := by
  induction rest generalizing part with
  | nil => simpa [joined, parts] using List.splitOnP_eq_singleton (hparts part (by simp [parts]))
  | cons x rest ih =>
    obtain ⟨c, q⟩ := x
    obtain ⟨hc, hseps⟩ := List.forall_mem_cons.mp hseps
    obtain ⟨hpart, hparts⟩ := List.forall_mem_cons.mp hparts
    have htext : joined part ((c, q) :: rest) = part ++ c :: joined q rest := by
      simp [joined]
    rw [htext, List.splitOnP_append_cons_of_forall_mem hpart c hc, ih hparts hseps]
    rfl

theorem exists_joined (sep : Char → Bool) (s : Str) : ∃ part rest, s = joined part rest ∧
    (∀ q ∈ parts part rest, ∀ c ∈ q, sep c = false) ∧ ∀ x ∈ rest, sep x.1 := by
  induction s with
  | nil => exact ⟨[], [], rfl, by simp [parts], by simp⟩
  | cons c s ih =>
    obtain ⟨part, rest, rfl, hparts, hseps⟩ := ih
    cases hc : sep c with
    | true =>
      exact ⟨[], (c, part) :: rest, by simp [joined], by simpa [parts] using hparts,
        List.forall_mem_cons.mpr ⟨hc, hseps⟩⟩
    | false =>
      obtain ⟨hpart, hrest⟩ := List.forall_mem_cons.mp hparts
      exact ⟨c :: part, rest, rfl,
        List.forall_mem_cons.mpr ⟨List.forall_mem_cons.mpr ⟨hc, hpart⟩, hrest⟩, hseps⟩

end Separators

end TptTelemetry.Lib.Text
