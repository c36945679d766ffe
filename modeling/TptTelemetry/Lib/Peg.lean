import TptTelemetry.Lib.Text

namespace TptTelemetry.Lib.Peg

open TptTelemetry.Lib.Text

structure Pair (ρ : Type) where
  rule : ρ
  str : Str
  inner : List (Pair ρ)

/-- A parsing expression: it fails, or gives its matches and what is left. -/
abbrev Parser (ρ : Type) := Str → Option (List (Pair ρ) × Str)

variable {ρ : Type}

section Expressions

def lit (t : Str) : Parser ρ := fun s =>
  if t.isPrefixOf s then some ([], s.drop t.length) else none

def satisfy (f : Char → Bool) : Parser ρ
  | [] => none
  | c :: s => if f c then some ([], s) else none

def any : Parser ρ := satisfy (fun _ => true)

def seq (p q : Parser ρ) : Parser ρ := fun s => do
  let (x, s) ← p s
  let (y, s) ← q s
  some (x ++ y, s)

/-- Ordered choice: the first alternative that matches is final. -/
def alt (p q : Parser ρ) : Parser ρ := fun s =>
  match p s with
  | some r => some r
  | none => q s

def alts (ps : List (Parser ρ)) : Parser ρ := ps.foldr alt (fun _ => none)

def notP (p : Parser ρ) : Parser ρ := fun s =>
  match p s with
  | some _ => none
  | none => some ([], s)

/-- Greedy repetition. Each round consumes some text, of which there is no
more than `fuel`. -/
def starLoop (p : Parser ρ) : Nat → Parser ρ
  | 0, s => some ([], s)
  | fuel + 1, s =>
    match p s with
    | some (x, t) => (starLoop p fuel t).map (fun r => (x ++ r.1, r.2))
    | none => some ([], s)

def star (p : Parser ρ) : Parser ρ := fun s => starLoop p s.length s

def rule (r : ρ) (p : Parser ρ) : Parser ρ := fun s => do
  let (x, t) ← p s
  some ([⟨r, s.take (s.length - t.length), x⟩], t)

def eoi (r : ρ) : Parser ρ
  | [] => some ([⟨r, [], []⟩], [])
  | _ :: _ => none

def chain (skip : Parser ρ) : List (Parser ρ) → Parser ρ
  | [] => fun s => some ([], s)
  | [p] => p
  | p :: q :: ps => seq p (seq skip (chain skip (q :: ps)))

/-- A repetition with implicit skipping between its rounds. -/
def repeats (skip p : Parser ρ) : Parser ρ :=
  alt (seq p (star (seq skip p))) (fun s => some ([], s))

end Expressions

section Basics

variable {p q : Parser ρ}

theorem lit_append (t s : Str) : lit (ρ := ρ) t (t ++ s) = some ([], s) := by
  have h : t.isPrefixOf (t ++ s) = true := List.isPrefixOf_iff_prefix.mpr (List.prefix_append t s)
  rw [lit, if_pos h, List.drop_left]

theorem lit_none {t s : Str} {c : Char} (ht : t.head? = some c) (hs : s.head? ≠ some c) :
    lit (ρ := ρ) t s = none := by
  apply if_neg
  intro h
  have hprefix := List.isPrefixOf_iff_prefix.mp h
  obtain ⟨u, rfl⟩ := hprefix
  cases t with
  | nil => cases ht
  | cons d t => exact hs ht

theorem lit_eq_some {t s u : Str} {x : List (Pair ρ)} (h : lit t s = some (x, u)) : s = t ++ u := by
  rw [lit] at h
  split at h
  · next hp =>
    obtain ⟨v, rfl⟩ := List.isPrefixOf_iff_prefix.mp hp
    rw [List.drop_left] at h
    cases h
    rfl
  · cases h

theorem seq_some {s t u : Str} {x y : List (Pair ρ)} (hp : p s = some (x, t))
    (hq : q t = some (y, u)) : seq p q s = some (x ++ y, u) := by
  simp only [seq, hp, hq, Option.bind_eq_bind, Option.bind_some]

theorem seq_none {s : Str} (hp : p s = none) : seq p q s = none := by
  simp only [seq, hp, Option.bind_eq_bind, Option.bind_none]

theorem seq_eq_some {s u : Str} {z : List (Pair ρ)} : seq p q s = some (z, u) ↔
    ∃ x t y, p s = some (x, t) ∧ q t = some (y, u) ∧ z = x ++ y := by
  simp only [seq, Option.bind_eq_bind, Option.bind_eq_some_iff]
  constructor
  · rintro ⟨⟨x, t⟩, hp, ⟨y, u'⟩, hq, h⟩
    cases h
    exact ⟨x, t, y, hp, hq, rfl⟩
  · rintro ⟨x, t, y, hp, hq, rfl⟩
    exact ⟨(x, t), hp, (y, u), hq, rfl⟩

theorem alt_left {s : Str} {r : List (Pair ρ) × Str} (hp : p s = some r) : alt p q s = some r := by
  simp only [alt, hp]

theorem alt_right {s : Str} (hp : p s = none) : alt p q s = q s := by
  simp only [alt, hp]

theorem alt_eq_some {s : Str} {r : List (Pair ρ) × Str} :
    alt p q s = some r ↔ p s = some r ∨ (p s = none ∧ q s = some r) := by
  cases hp : p s <;> simp [alt, hp]

theorem alts_none {ps : List (Parser ρ)} {s : Str} (hp : p s = none) :
    alts (p :: ps) s = alts ps s := alt_right hp

theorem alts_some {ps : List (Parser ρ)} {s : Str} {r : List (Pair ρ) × Str} (hp : p s = some r) :
    alts (p :: ps) s = some r := alt_left hp

theorem take_length_sub (a s : Str) : (a ++ s).take ((a ++ s).length - s.length) = a := by
  rw [List.length_append, Nat.add_sub_cancel, List.take_left]

theorem rule_some {r : ρ} {a s : Str} {x : List (Pair ρ)} (hp : p (a ++ s) = some (x, s)) :
    rule r p (a ++ s) = some ([⟨r, a, x⟩], s) := by
  simp only [rule, hp, take_length_sub, Option.bind_eq_bind, Option.bind_some]

theorem rule_none {r : ρ} {s : Str} (hp : p s = none) : rule r p s = none := by
  simp only [rule, hp, Option.bind_eq_bind, Option.bind_none]

inductive Rounds (p : Parser ρ) : Nat → Str → List (Pair ρ) → Str → Prop
  | nil (s : Str) : Rounds p 0 s [] s
  | cons {n : Nat} {s t u : Str} {x y : List (Pair ρ)} (h : p s = some (x, t))
      (hr : Rounds p n t y u) : Rounds p (n + 1) s (x ++ y) u

theorem starLoop_of_rounds {n fuel : Nat} {s u : Str} {x : List (Pair ρ)} (h : Rounds p n s x u)
    (hu : p u = none) (hn : n ≤ fuel) : starLoop p fuel s = some (x, u) := by
  induction h generalizing fuel with
  | nil s =>
    cases fuel with
    | zero => rfl
    | succ fuel => simp only [starLoop, hu]
  | @cons n s t u x y hp hr ih =>
    cases fuel with
    | zero => exact absurd hn (Nat.not_succ_le_zero n)
    | succ fuel =>
      simp only [starLoop, hp, ih hu (Nat.le_of_succ_le_succ hn)]
      rfl

theorem star_of_rounds {n : Nat} {s u : Str} {x : List (Pair ρ)} (h : Rounds p n s x u)
    (hu : p u = none) (hn : n ≤ s.length) : star p s = some (x, u) := starLoop_of_rounds h hu hn

theorem star_none {s : Str} (h : p s = none) : star p s = some ([], s) :=
  star_of_rounds (Rounds.nil s) h (Nat.zero_le _)

theorem star_satisfy {f : Char → Bool} {a s : Str} (ha : ∀ c ∈ a, f c)
    (hs : ∀ c ∈ s.head?, f c = false) : star (satisfy (ρ := ρ) f) (a ++ s) = some ([], s) := by
  have hr : Rounds (satisfy (ρ := ρ) f) a.length (a ++ s) [] s := by
    induction a with
    | nil => exact Rounds.nil s
    | cons c a ih =>
      have hc : satisfy (ρ := ρ) f (c :: a ++ s) = some ([], a ++ s) := if_pos (ha c (by simp))
      exact Rounds.cons hc (ih (fun d hd => ha d (by simp [hd])))
  apply star_of_rounds hr
  · cases s with
    | nil => rfl
    | cons c s => simp [satisfy, hs c rfl]
  · simp

end Basics

section Matches

variable {p q skip : Parser ρ} {Q : Pair ρ → Prop}

/-- Every match that the expression gives, on whatever text, is as stated. -/
def Produces (p : Parser ρ) (Q : Pair ρ → Prop) : Prop :=
  ∀ ⦃s x t⦄, p s = some (x, t) → ∀ m ∈ x, Q m

theorem produces_lit (t : Str) : Produces (lit t) Q := by
  intro s x u h m hm
  rw [lit] at h
  split at h <;> cases h
  cases hm

theorem produces_satisfy (f : Char → Bool) : Produces (satisfy f) Q := by
  intro s x t h m hm
  cases s with
  | nil => cases h
  | cons c s =>
    rw [satisfy] at h
    split at h <;> cases h
    cases hm

theorem produces_notP (p : Parser ρ) : Produces (notP p) Q := by
  intro s x t h m hm
  rw [notP] at h
  split at h <;> cases h
  cases hm

theorem produces_eoi {r : ρ} (h : Q ⟨r, [], []⟩) : Produces (eoi r) Q := by
  intro s x t hs m hm
  cases s with
  | nil =>
    cases hs
    cases List.mem_singleton.mp hm
    exact h
  | cons c s => cases hs

theorem produces_true (p : Parser ρ) : Produces p (fun _ => True) := fun _ _ _ _ _ _ => trivial

theorem Produces.seq (hp : Produces p Q) (hq : Produces q Q) : Produces (seq p q) Q := by
  intro s z u h m hm
  obtain ⟨x, t, y, hx, hy, rfl⟩ := seq_eq_some.mp h
  obtain hm | hm := List.mem_append.mp hm
  · exact hp hx m hm
  · exact hq hy m hm

theorem Produces.alt (hp : Produces p Q) (hq : Produces q Q) : Produces (alt p q) Q := by
  intro s x t h
  obtain h | ⟨-, h⟩ := alt_eq_some.mp h
  · exact hp h
  · exact hq h

theorem Produces.alts {ps : List (Parser ρ)} (h : ∀ p ∈ ps, Produces p Q) :
    Produces (alts ps) Q := by
  induction ps with
  | nil =>
    intro s x t h
    cases h
  | cons p ps ih => exact (h p (by simp)).alt (ih (fun q hq => h q (by simp [hq])))

theorem Produces.star (hp : Produces p Q) : Produces (star p) Q := by
  have hloop : ∀ fuel, Produces (starLoop p fuel) Q := by
    intro fuel
    induction fuel with
    | zero =>
      intro s x t h m hm
      cases h
      cases hm
    | succ fuel ih =>
      intro s x t h m hm
      rw [starLoop] at h
      split at h
      · next y u hy =>
        obtain ⟨⟨z, v⟩, hz, heq⟩ := Option.map_eq_some_iff.mp h
        cases heq
        obtain hm | hm := List.mem_append.mp hm
        · exact hp hy m hm
        · exact ih hz m hm
      · cases h
        cases hm
  intro s x t h
  exact hloop s.length h

theorem Produces.repeats (hp : Produces p Q) (hs : Produces skip Q) :
    Produces (repeats skip p) Q := by
  apply Produces.alt
  · exact hp.seq (hs.seq hp).star
  · intro s x t h m hm
    cases h
    cases hm

theorem Produces.chain (hs : Produces skip Q) {ps : List (Parser ρ)} (h : ∀ p ∈ ps, Produces p Q) :
    Produces (chain skip ps) Q := by
  induction ps with
  | nil =>
    intro s x t h m hm
    cases h
    cases hm
  | cons p ps ih =>
    have hp := h p (by simp)
    cases ps with
    | nil => exact hp
    | cons q ps => exact hp.seq (hs.seq (ih (fun r hr => h r (by simp [hr]))))

theorem rule_eq_some {r : ρ} {s t : Str} {x : List (Pair ρ)} : rule r p s = some (x, t) ↔
    ∃ y, p s = some (y, t) ∧ x = [⟨r, s.take (s.length - t.length), y⟩] := by
  simp only [rule, Option.bind_eq_bind, Option.bind_eq_some_iff]
  constructor
  · rintro ⟨⟨y, u⟩, hy, h⟩
    cases h
    exact ⟨y, hy, rfl⟩
  · rintro ⟨y, hy, rfl⟩
    exact ⟨(y, t), hy, rfl⟩

/-- A rule gives one match, with the matches of its body inside. -/
theorem produces_rule {r : ρ} (hp : Produces p Q) :
    Produces (rule r p) (fun m => m.rule = r ∧ ∀ i ∈ m.inner, Q i) := by
  intro s x t h m hm
  obtain ⟨y, hy, rfl⟩ := rule_eq_some.mp h
  cases List.mem_singleton.mp hm
  exact ⟨rfl, hp hy⟩

theorem Produces.mono {Q' : Pair ρ → Prop} (hp : Produces p Q) (h : ∀ m, Q m → Q' m) :
    Produces p Q' := fun _ _ _ hx m hm => h m (hp hx m hm)

end Matches

section Tokens

variable {p q skip : Parser ρ} {Solid : Str → Prop}

def spaced (ts : List Str) : Str := ts.flatMap (fun t => ' ' :: t)

def joined : List Str → Str
  | [] => []
  | t :: ts => t ++ spaced ts

theorem joined_append {a : List Str} (ha : a ≠ []) (b : List Str) :
    joined (a ++ b) = joined a ++ spaced b := by
  cases a with
  | nil => exact absurd rfl ha
  | cons t a => simp [joined, spaced]

/-- Skipping takes the space before a token, and nothing else. -/
def SkipsTo (skip : Parser ρ) (Solid : Str → Prop) : Prop :=
  ∀ ts, (∀ t ∈ ts, Solid t) →
    skip (spaced ts) = some ([], joined ts) ∧ skip (joined ts) = some ([], joined ts)

/-- The expression reads the tokens, whatever tokens follow. -/
structure Reads (Solid : Str → Prop) (p : Parser ρ) (ts : List Str) (x : List (Pair ρ)) : Prop where
  solid : ∀ t ∈ ts, Solid t
  reads : ∀ us, (∀ u ∈ us, Solid u) → p (joined (ts ++ us)) = some (x, spaced us)

theorem reads_lit {t : Str} (ht : Solid t) : Reads Solid (lit (ρ := ρ) t) [t] [] where
  solid := by simpa using ht
  reads us _ := lit_append t (spaced us)

theorem Reads.rule {r : ρ} {ts : List Str} {x : List (Pair ρ)} (hts : ts ≠ [])
    (h : Reads Solid p ts x) : Reads Solid (rule r p) ts [⟨r, joined ts, x⟩] where
  solid := h.solid
  reads us hus := by
    have hp := h.reads us hus
    rw [joined_append hts] at hp ⊢
    exact rule_some hp

theorem solid_append {ts us : List Str} (hts : ∀ t ∈ ts, Solid t) (hus : ∀ u ∈ us, Solid u) :
    ∀ t ∈ ts ++ us, Solid t := by
  intro t ht
  obtain ht | ht := List.mem_append.mp ht
  · exact hts t ht
  · exact hus t ht

theorem solid_flatMap {α : Type} {toks : α → List Str} {items : List α}
    (h : ∀ i ∈ items, ∀ t ∈ toks i, Solid t) : ∀ t ∈ items.flatMap toks, Solid t := by
  intro t ht
  obtain ⟨i, hi, ht⟩ := List.mem_flatMap.mp ht
  exact h i hi t ht

theorem Reads.seq (hs : SkipsTo skip Solid) {ts us : List Str} {x y : List (Pair ρ)}
    (hp : Reads Solid p ts x) (hq : Reads Solid q us y) :
    Reads Solid (seq p (seq skip q)) (ts ++ us) (x ++ y) where
  solid := solid_append hp.solid hq.solid
  reads vs hvs := by
    have hsolid := solid_append hq.solid hvs
    rw [List.append_assoc]
    have hskip := seq_some (hs _ hsolid).1 (hq.reads vs hvs)
    exact seq_some (hp.reads _ hsolid) hskip

theorem rounds_items (hs : SkipsTo skip Solid) {α : Type} {toks : α → List Str}
    {f : α → List (Pair ρ)} {items : List α} (h : ∀ i ∈ items, Reads Solid p (toks i) (f i))
    {us : List Str} (hus : ∀ u ∈ us, Solid u) :
    Rounds (Peg.seq skip p) items.length (spaced (items.flatMap toks ++ us)) (items.flatMap f)
      (spaced us) := by
  induction items with
  | nil => exact Rounds.nil _
  | cons i items ih =>
    have htail : ∀ j ∈ items, Reads Solid p (toks j) (f j) := fun j hj => h j (by simp [hj])
    have hrest := solid_append (solid_flatMap (fun j hj => (htail j hj).solid)) hus
    have hall := solid_append (h i (by simp)).solid hrest
    rw [List.flatMap_cons, List.append_assoc]
    apply Rounds.cons (seq_some (hs _ hall).1 ((h i (by simp)).reads _ hrest))
    exact ih htail

theorem length_le_spaced {α : Type} {toks : α → List Str} {items : List α}
    (hne : ∀ i ∈ items, toks i ≠ []) (us : List Str) :
    items.length ≤ (spaced (items.flatMap toks ++ us)).length := by
  induction items with
  | nil => exact Nat.zero_le _
  | cons i items ih =>
    have hi := ih (fun j hj => hne j (by simp [hj]))
    cases ht : toks i with
    | nil => exact absurd ht (hne i (by simp))
    | cons t ts =>
      rw [List.flatMap_cons, ht]
      simp only [spaced, List.flatMap_append, List.flatMap_cons, List.length_append,
        List.length_cons] at hi ⊢
      omega

/-- A repetition reads the tokens of its items up to where its body fails, and
what stands behind it goes on there. -/
theorem repeats_items (hs : SkipsTo skip Solid) {α : Type} {toks : α → List Str}
    {f : α → List (Pair ρ)} {items : List α} (h : ∀ i ∈ items, Reads Solid p (toks i) (f i))
    (hne : ∀ i ∈ items, toks i ≠ []) {us : List Str} (hus : ∀ u ∈ us, Solid u)
    (hp : p (joined us) = none) {y : List (Pair ρ)} {v : Str}
    (hq : q (joined us) = some (y, v)) :
    seq (repeats skip p) (seq skip q) (joined (items.flatMap toks ++ us)) =
      some (items.flatMap f ++ y, v) := by
  cases items with
  | nil =>
    have hr : repeats skip p (joined us) = some ([], joined us) := alt_right (seq_none hp)
    exact seq_some hr (seq_some (hs us hus).2 hq)
  | cons i items =>
    have htail : ∀ j ∈ items, Reads Solid p (toks j) (f j) := fun j hj => h j (by simp [hj])
    have hitems := rounds_items hs htail hus
    have hstop : seq skip p (spaced us) = none := by
      simp only [seq, (hs us hus).1, hp, Option.bind_eq_bind, Option.bind_some, Option.bind_none]
    have hstar := star_of_rounds hitems hstop
      (length_le_spaced (fun j hj => hne j (List.mem_cons_of_mem i hj)) us)
    have hrest := solid_append (solid_flatMap (fun j hj => (htail j hj).solid)) hus
    have hfirst := (h i (by simp)).reads _ hrest
    rw [List.flatMap_cons, List.flatMap_cons, List.append_assoc]
    exact seq_some (alt_left (seq_some hfirst hstar)) (seq_some (hs us hus).1 hq)

theorem Reads.repeats (hs : SkipsTo skip Solid) {α : Type} {toks : α → List Str}
    {f : α → List (Pair ρ)} {items : List α} (h : ∀ i ∈ items, Reads Solid p (toks i) (f i))
    (hne : ∀ i ∈ items, toks i ≠ []) {us : List Str} {y : List (Pair ρ)} (hq : Reads Solid q us y)
    (hp : ∀ vs, p (joined (us ++ vs)) = none) :
    Reads Solid (Peg.seq (repeats skip p) (Peg.seq skip q)) (items.flatMap toks ++ us)
      (items.flatMap f ++ y) where
  solid := solid_append (solid_flatMap (fun i hi => (h i hi).solid)) hq.solid
  reads vs hvs := by
    rw [List.append_assoc]
    exact repeats_items hs h hne (solid_append hq.solid hvs) (hp vs) (hq.reads vs hvs)

end Tokens

end TptTelemetry.Lib.Peg
