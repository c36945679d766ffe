import TptTelemetry.Lib.Lines
import TptTelemetry.Lib.Text
import TptTelemetry.Lib.Traverse

namespace TptTelemetry.Lib.Template

open TptTelemetry.Lib.Text

/-- A template with literal runs and `%{ ... }` captures. What a run and a
capture stand for, and the errors, are up to the user. -/
structure Syntax (ε τ : Type) where
  literal : Str → τ
  capture : Str → Except ε τ
  unbalanced : ε

variable {ε τ : Type} (syn : Syntax ε τ)

def flush (run : Str) (parts : List τ) : List τ :=
  if run = [] then parts else syn.literal run.reverse :: parts

mutual

def scanLiteral (run : Str) : Str → Except ε (List τ)
  | [] => .ok (flush syn run [])
  | '%' :: '{' :: s => (scanCapture 1 [] s).map (flush syn run)
  | c :: s => scanLiteral (c :: run) s

def scanCapture (depth : Nat) (content : Str) : Str → Except ε (List τ)
  | [] => .error syn.unbalanced
  | c :: s =>
    if c = '{' then scanCapture (depth + 1) (c :: content) s
    else if c = '}' then
      if depth = 1 then do
        let part ← syn.capture content.reverse
        let parts ← scanLiteral [] s
        .ok (part :: parts)
      else scanCapture (depth - 1) (c :: content) s
    else scanCapture depth (c :: content) s

end

def tokenize (s : Str) : Except ε (List τ) := scanLiteral syn [] s

section Rendering

inductive Piece
  | literal (run : Str)
  | capture (content : Str)
  deriving DecidableEq, Repr

def Piece.text : Piece → Str
  | .literal run => run
  | .capture content => '%' :: '{' :: content ++ ['}']

def Piece.part : Piece → Except ε τ
  | .literal run => .ok (syn.literal run)
  | .capture content => syn.capture content

def isLiteral : Piece → Bool
  | .literal _ => true
  | .capture _ => false

/-- Pieces that a scan can give back: runs are not empty, hold no opening of a
capture and do not meet, and captures hold no brace. -/
def Normal : List Piece → Prop
  | [] => True
  | .literal run :: ps =>
    run ≠ [] ∧ ¬ ['%', '{'] <:+: run ∧ ps.head?.all (fun p => !isLiteral p) ∧ Normal ps
  | .capture content :: ps => '{' ∉ content ∧ '}' ∉ content ∧ Normal ps

instance decidableNormal : (ps : List Piece) → Decidable (Normal ps)
  | [] => inferInstanceAs (Decidable True)
  | .literal run :: ps =>
    have := decidableNormal ps
    inferInstanceAs (Decidable (run ≠ [] ∧ ¬ ['%', '{'] <:+: run ∧
      ps.head?.all (fun p => !isLiteral p) ∧ Normal ps))
  | .capture content :: ps =>
    have := decidableNormal ps
    inferInstanceAs (Decidable ('{' ∉ content ∧ '}' ∉ content ∧ Normal ps))

theorem scanLiteral_cons {run s : Str} {c : Char} (h : c = '%' → s.head? ≠ some '{') :
    scanLiteral syn run (c :: s) = scanLiteral syn (c :: run) s := by
  rw [scanLiteral]
  rintro t hc rfl
  exact h hc rfl

theorem scanLiteral_run {run l s : Str} (hl : ¬ ['%', '{'] <:+: l) (hs : s.head? ≠ some '{') :
    scanLiteral syn run (l ++ s) = scanLiteral syn (l.reverse ++ run) s := by
  induction l generalizing run with
  | nil => simp
  | cons c l ih =>
    have hl' : ¬ ['%', '{'] <:+: l := fun h => hl (h.trans (List.suffix_cons c l).isInfix)
    have hc : c = '%' → (l ++ s).head? ≠ some '{' := by
      rintro rfl h
      cases l with
      | nil => exact hs h
      | cons d l =>
        cases h
        exact hl ⟨[], l, rfl⟩
    rw [List.cons_append, scanLiteral_cons syn hc, ih hl', List.reverse_cons, List.append_assoc,
      List.singleton_append]

section Braces

def level (depth : Nat) (c : Char) : Nat :=
  if c = '{' then depth + 1 else if c = '}' then depth - 1 else depth

def closeAt : Nat → Str → Option (Str × Str)
  | _, [] => none
  | depth, c :: s =>
    if level depth c = 0 then some ([], s)
    else (closeAt (level depth c) s).map (Prod.map (c :: ·) id)

/-- Everywhere in the text some brace is open, when `depth` are before it. -/
def Deep (depth : Nat) (s : Str) : Prop := ∀ p, p <+: s → p.count '}' < p.count '{' + depth

/-- The text of a capture: each brace in it is closed in it. -/
def Balanced (content : Str) : Prop := Deep 1 content ∧ content.count '}' = content.count '{'

/-- What follows the opening of a capture that is never closed. -/
def Unclosed (s : Str) : Prop := Deep 1 s

theorem level_eq_zero {depth : Nat} (h : 0 < depth) {c : Char} :
    level depth c = 0 ↔ c = '}' ∧ depth = 1 := by
  rw [level]
  split
  · next ho => simp [ho]
  · split
    · next hc =>
      simp only [hc, true_and]
      omega
    · next hc =>
      simp only [hc, false_and, iff_false]
      omega

theorem count_level {depth : Nat} (h : 0 < depth) (c : Char) (p : Str) :
    (c :: p).count '}' + level depth c + p.count '{' =
      p.count '}' + (c :: p).count '{' + depth := by
  rw [level]
  split
  · next ho =>
    subst ho
    simp
    omega
  · split
    · next hc =>
      subst hc
      simp
      omega
    · next ho hc =>
      simp [ho, hc]
      omega

theorem deep_nil {depth : Nat} : Deep depth [] ↔ 0 < depth := by
  simp [Deep]

theorem deep_cons {depth : Nat} {c : Char} {s : Str} :
    Deep depth (c :: s) ↔ 0 < depth ∧ Deep (level depth c) s := by
  constructor
  · intro h
    have hpos : 0 < depth := by simpa using h [] List.nil_prefix
    refine ⟨hpos, fun p hp => ?_⟩
    have hlt := h (c :: p) (by simpa using hp)
    have hc := count_level hpos c p
    omega
  · rintro ⟨hpos, h⟩ p hp
    cases p with
    | nil => simpa using hpos
    | cons d p =>
      obtain ⟨rfl, hps⟩ := List.cons_prefix_cons.mp hp
      have hlt := h p hps
      have hc := count_level hpos d p
      omega

theorem closeAt_eq_none {depth : Nat} (h : 0 < depth) {s : Str} :
    closeAt depth s = none ↔ Deep depth s := by
  induction s generalizing depth with
  | nil => exact iff_of_true rfl (deep_nil.mpr h)
  | cons c s ih =>
    rw [closeAt, deep_cons]
    split
    · next hz =>
      rw [hz]
      refine iff_of_false (by simp) fun hd => ?_
      have := hd.2 [] List.nil_prefix
      simp at this
    · next hz => rw [Option.map_eq_none_iff, ih (Nat.pos_of_ne_zero hz), and_iff_right h]

theorem closeAt_eq_some {depth : Nat} (h : 0 < depth) {s t r : Str} :
    closeAt depth s = some (t, r) ↔
      s = t ++ '}' :: r ∧ Deep depth t ∧ t.count '}' + 1 = t.count '{' + depth := by
  induction s generalizing depth t with
  | nil => simp [closeAt]
  | cons c s ih =>
    rw [closeAt]
    split
    · next hz =>
      obtain ⟨rfl, rfl⟩ := (level_eq_zero h).mp hz
      cases t with
      | nil => simp [deep_nil, eq_comm]
      | cons d t =>
        refine iff_of_false (by simp) ?_
        rintro ⟨hs, hd, -⟩
        obtain ⟨rfl, -⟩ := List.cons.inj hs
        rw [deep_cons, hz] at hd
        simpa using hd.2 [] List.nil_prefix
    · next hz =>
      have hpos := Nat.pos_of_ne_zero hz
      cases t with
      | nil =>
        refine iff_of_false ?_ ?_
        · simp [Prod.map]
        · rintro ⟨hs, -, hc⟩
          obtain ⟨rfl, -⟩ := List.cons.inj hs
          have h1 : depth = 1 := by simpa using hc.symm
          exact hz ((level_eq_zero h).mpr ⟨rfl, h1⟩)
      | cons d t =>
        have hmap : (closeAt (level depth c) s).map (Prod.map (c :: ·) id) = some (d :: t, r) ↔
            c = d ∧ closeAt (level depth c) s = some (t, r) := by
          cases closeAt (level depth c) s <;> simp [Prod.ext_iff, and_assoc]
        rw [hmap, ih hpos, List.cons_append, List.cons.injEq]
        constructor
        · rintro ⟨rfl, rfl, hd, hc⟩
          have hcount := count_level h c t
          exact ⟨⟨rfl, rfl⟩, deep_cons.mpr ⟨h, hd⟩, by omega⟩
        · rintro ⟨⟨rfl, rfl⟩, hd, hc⟩
          have hcount := count_level h c t
          exact ⟨rfl, rfl, (deep_cons.mp hd).2, by omega⟩

theorem closeAt_balanced {s t r : Str} :
    closeAt 1 s = some (t, r) ↔ s = t ++ '}' :: r ∧ Balanced t := by
  rw [closeAt_eq_some Nat.one_pos, Balanced, Nat.add_right_cancel_iff]

theorem balanced_of_not_mem {t : Str} (ho : '{' ∉ t) (hc : '}' ∉ t) : Balanced t := by
  have hcount : t.count '}' = 0 := List.count_eq_zero.mpr hc
  refine ⟨fun p hp => ?_, by rw [hcount, List.count_eq_zero.mpr ho]⟩
  have hle := hp.sublist.count_le '}'
  omega

def resume (content : Str) : Option (Str × Str) → Except ε (List τ)
  | none => .error syn.unbalanced
  | some (t, r) => do
    let part ← syn.capture (content.reverse ++ t)
    let parts ← scanLiteral syn [] r
    .ok (part :: parts)

theorem resume_cons (content : Str) (c : Char) (x : Option (Str × Str)) :
    resume syn (c :: content) x = resume syn content (x.map (Prod.map (c :: ·) id)) := by
  cases x <;> simp [resume]

theorem scanCapture_eq {depth : Nat} (h : 0 < depth) (content s : Str) :
    scanCapture syn depth content s = resume syn content (closeAt depth s) := by
  induction s generalizing depth content with
  | nil => rw [scanCapture, closeAt, resume]
  | cons c s ih =>
    have hstep : ∀ d, 0 < d → level depth c = d →
        scanCapture syn d (c :: content) s = resume syn content (closeAt depth (c :: s)) := by
      intro d hd hl
      rw [closeAt, hl, if_neg (Nat.pos_iff_ne_zero.mp hd), ih hd, resume_cons]
    rw [scanCapture]
    split
    · next ho => exact hstep _ (Nat.succ_pos _) (by simp [level, ho])
    · split
      · next ho hc =>
        split
        · next h1 =>
          rw [closeAt, if_pos (by simp [level, hc, h1]), resume, List.append_nil]
        · next h1 => exact hstep _ (by omega) (by simp [level, hc])
      · next ho hc => exact hstep _ h (by simp [level, ho, hc])

end Braces

theorem map_flush_nil (x : Except ε (List τ)) : x.map (flush syn []) = x := by
  cases x <;> rfl

def AtCapture (s : Str) : Prop := s = [] ∨ ∃ t, s = '%' :: '{' :: t

theorem head_atCapture {s : Str} (h : AtCapture s) : s.head? ≠ some '{' := by
  obtain rfl | ⟨t, rfl⟩ := h <;> simp

theorem scanLiteral_atCapture {s : Str} (h : AtCapture s) (run : Str) :
    scanLiteral syn run s = (scanLiteral syn [] s).map (flush syn run) := by
  obtain rfl | ⟨t, rfl⟩ := h
  · rw [scanLiteral, scanLiteral]
    rfl
  · rw [scanLiteral, scanLiteral, map_flush_nil]

/-- Pieces that a scan can give back: runs are not empty, hold no opening of a
capture and do not meet, and the braces of captures are balanced. -/
def Scanned : List Piece → Prop
  | [] => True
  | .literal run :: ps =>
    run ≠ [] ∧ ¬ ['%', '{'] <:+: run ∧ ps.head?.all (fun p => !isLiteral p) ∧ Scanned ps
  | .capture content :: ps => Balanced content ∧ Scanned ps

theorem Normal.scanned {ps : List Piece} (h : Normal ps) : Scanned ps := by
  induction ps with
  | nil => trivial
  | cons p ps ih =>
    cases p with
    | literal run =>
      obtain ⟨hne, hrun, hnext, hps⟩ := h
      exact ⟨hne, hrun, hnext, ih hps⟩
    | capture content =>
      obtain ⟨ho, hc, hps⟩ := h
      exact ⟨balanced_of_not_mem ho hc, ih hps⟩

theorem Scanned.of_append {ps qs : List Piece} (h : Scanned (ps ++ qs)) : Scanned ps := by
  induction ps with
  | nil => trivial
  | cons p ps ih =>
    cases p with
    | literal run =>
      obtain ⟨hne, hrun, hnext, hps⟩ := h
      refine ⟨hne, hrun, ?_, ih hps⟩
      cases ps with
      | nil => rfl
      | cons q ps => exact hnext
    | capture content => exact ⟨h.1, ih h.2⟩

theorem Scanned.balanced {ps : List Piece} (h : Scanned ps) {content : Str}
    (hc : .capture content ∈ ps) : Balanced content := by
  induction ps with
  | nil => cases hc
  | cons p ps ih =>
    cases p with
    | literal run =>
      obtain hc | hc := List.mem_cons.mp hc
      · cases hc
      · exact ih h.2.2.2 hc
    | capture content' =>
      obtain hc | hc := List.mem_cons.mp hc
      · cases hc
        exact h.1
      · exact ih h.2 hc

theorem atCapture_pieces {ps : List Piece} (h : ps.head?.all (fun p => !isLiteral p))
    {rest : Str} (hr : AtCapture rest) : AtCapture (ps.flatMap Piece.text ++ rest) := by
  cases ps with
  | nil => simpa using hr
  | cons p ps =>
    cases p with
    | literal run => cases h
    | capture content => exact Or.inr ⟨_, by simp [Piece.text]; rfl⟩

theorem tokenize_append {ps : List Piece} (h : Scanned ps) {rest : Str} (hr : AtCapture rest) :
    tokenize syn (ps.flatMap Piece.text ++ rest) = (do
      let parts ← ps.mapM (Piece.part syn)
      let more ← tokenize syn rest
      .ok (parts ++ more)) := by
  induction ps with
  | nil =>
    rw [List.flatMap_nil, List.nil_append]
    cases tokenize syn rest <;> rfl
  | cons p ps ih =>
    rw [List.mapM_cons]
    cases p with
    | capture content =>
      obtain ⟨hb, hps⟩ := h
      have htext : (Piece.capture content :: ps).flatMap Piece.text ++ rest =
          '%' :: '{' :: (content ++ '}' :: (ps.flatMap Piece.text ++ rest)) := by
        simp [Piece.text]
      rw [htext, tokenize, scanLiteral, map_flush_nil, scanCapture_eq syn Nat.one_pos,
        closeAt_balanced.mpr ⟨rfl, hb⟩, resume, List.reverse_nil, List.nil_append, ← tokenize,
        ih hps, Piece.part]
      cases syn.capture content with
      | error e => rfl
      | ok part =>
        cases ps.mapM (Piece.part syn) with
        | error e => rfl
        | ok parts => cases tokenize syn rest <;> rfl
    | literal run =>
      obtain ⟨hne, hrun, hnext, hps⟩ := h
      have htail := atCapture_pieces hnext hr
      have htext : (Piece.literal run :: ps).flatMap Piece.text ++ rest =
          run ++ (ps.flatMap Piece.text ++ rest) := by
        simp [Piece.text]
      have hpart : ∀ parts, flush syn (run.reverse ++ []) parts = syn.literal run :: parts := by
        intro parts
        rw [flush, if_neg (by simpa using hne), List.append_nil, List.reverse_reverse]
      rw [htext, tokenize, scanLiteral_run syn hrun (head_atCapture htail),
        scanLiteral_atCapture syn htail, ← tokenize, ih hps, Piece.part]
      cases ps.mapM (Piece.part syn) with
      | error e => rfl
      | ok parts =>
        cases tokenize syn rest with
        | error e => rfl
        | ok more => exact congrArg Except.ok (hpart _)

theorem tokenize_scanned {ps : List Piece} (h : Scanned ps) :
    tokenize syn (ps.flatMap Piece.text) = ps.mapM (Piece.part syn) := by
  have happ := tokenize_append syn h (Or.inl rfl)
  rw [List.append_nil] at happ
  rw [happ]
  cases ps.mapM (Piece.part syn) with
  | error e => rfl
  | ok parts => exact congrArg Except.ok (List.append_nil parts)

theorem tokenize_unclosed {ps : List Piece} (h : Scanned ps) {t : Str} (ht : Unclosed t) :
    tokenize syn (ps.flatMap Piece.text ++ '%' :: '{' :: t) =
      ps.mapM (Piece.part syn) >>= fun _ => .error syn.unbalanced := by
  have hrest : tokenize syn ('%' :: '{' :: t) = .error syn.unbalanced := by
    rw [tokenize, scanLiteral, map_flush_nil, scanCapture_eq syn Nat.one_pos,
      (closeAt_eq_none Nat.one_pos).mpr ht, resume]
  rw [tokenize_append syn h (Or.inr ⟨t, rfl⟩), hrest]
  rfl

/-- Tokenizing undoes rendering. -/
theorem tokenize_pieces {ps : List Piece} (h : Normal ps) :
    tokenize syn (ps.flatMap Piece.text) = ps.mapM (Piece.part syn) :=
  tokenize_scanned syn h.scanned

/-- Where the pieces of a text end: with the text, or at a capture that is never
closed. -/
inductive Ends : Str → Prop
  | done : Ends []
  | unclosed {t : Str} (ht : Unclosed t) : Ends ('%' :: '{' :: t)

theorem open_append {a b : Str} (h : ['%', '{'] <:+: a ++ b) :
    ['%', '{'] <:+: a ∨ ['%', '{'] <:+: b ∨ (a.getLast? = some '%' ∧ b.head? = some '{') := by
  induction a with
  | nil => exact Or.inr (Or.inl h)
  | cons c a ih =>
    rw [List.cons_append, List.infix_cons_iff] at h
    obtain h | h := h
    · obtain ⟨rfl, hnext⟩ := List.cons_prefix_cons.mp h
      cases a with
      | nil =>
        cases b with
        | nil => simp at hnext
        | cons d b =>
          obtain ⟨rfl, -⟩ := List.cons_prefix_cons.mp hnext
          exact Or.inr (Or.inr ⟨rfl, rfl⟩)
      | cons d a =>
        obtain ⟨rfl, -⟩ := List.cons_prefix_cons.mp hnext
        exact Or.inl ⟨[], a, rfl⟩
    · obtain h | h | ⟨hlast, hhead⟩ := ih h
      · exact Or.inl (h.trans (List.suffix_cons c a).isInfix)
      · exact Or.inr (Or.inl h)
      · refine Or.inr (Or.inr ⟨?_, hhead⟩)
        rw [List.getLast?_cons, hlast]
        rfl

/-- Every text is made of pieces, up to its end or to a capture that is never
closed. -/
theorem exists_pieces (s : Str) :
    ∃ ps rest, Scanned ps ∧ Ends rest ∧ s = ps.flatMap Piece.text ++ rest := by
  induction hn : s.length using Nat.strongRecOn generalizing s with
  | _ n ih =>
    obtain hno | ⟨run, t, rfl, hrun⟩ := Lines.exists_first_pair '%' '{' s
    · by_cases hs : s = []
      · exact ⟨[], [], trivial, .done, by simp [hs]⟩
      · exact ⟨[.literal s], [], ⟨hs, hno, rfl, trivial⟩, .done, by simp [Piece.text]⟩
    -- what the opening of the first capture begins
    obtain ⟨ps, rest, hps, hrest, htext, hnext⟩ : ∃ ps rest, Scanned ps ∧ Ends rest ∧
        '%' :: '{' :: t = ps.flatMap Piece.text ++ rest ∧
          ps.head?.all (fun p => !isLiteral p) := by
      cases hc : closeAt 1 t with
      | none => exact ⟨[], _, trivial, .unclosed ((closeAt_eq_none Nat.one_pos).mp hc), rfl, rfl⟩
      | some p =>
        obtain ⟨content, r⟩ := p
        obtain ⟨rfl, hb⟩ := closeAt_balanced.mp hc
        have hlt : r.length < n := by
          rw [← hn]
          simp
          omega
        obtain ⟨ps, rest, hps, hrest, rfl⟩ := ih _ hlt r rfl
        exact ⟨.capture content :: ps, rest, ⟨hb, hps⟩, hrest, by simp [Piece.text], rfl⟩
    by_cases hr : run = []
    · exact ⟨ps, rest, hps, hrest, by rw [hr, htext]; rfl⟩
    · refine ⟨.literal run :: ps, rest, ⟨hr, hrun, hnext, hps⟩, hrest, ?_⟩
      rw [htext]
      simp [Piece.text]

def pieces (s : Str) : Option (List Piece) :=
  (tokenize (⟨.literal, fun content => .ok (.capture content), ()⟩ : Syntax Unit Piece) s).toOption

theorem mapM_self (ps : List Piece) :
    ps.mapM (Piece.part (⟨.literal, fun content => .ok (.capture content), ()⟩ : Syntax Unit Piece)) =
      .ok ps := by
  have hpart : ∀ p ∈ ps, Piece.part (⟨.literal, fun content => .ok (.capture content), ()⟩ :
      Syntax Unit Piece) p = .ok (id p) := by
    intro p _
    cases p <;> rfl
  rw [Traverse.mapM_of_ok hpart, List.map_id]

theorem pieces_text {ps : List Piece} (h : Scanned ps) : pieces (ps.flatMap Piece.text) = some ps := by
  rw [pieces, tokenize_scanned _ h, mapM_self]
  rfl

theorem pieces_unclosed {ps : List Piece} (h : Scanned ps) {t : Str} (ht : Unclosed t) :
    pieces (ps.flatMap Piece.text ++ '%' :: '{' :: t) = none := by
  rw [pieces, tokenize_unclosed _ h ht, mapM_self]
  rfl

theorem pieces_eq_some {s : Str} {ps : List Piece} :
    pieces s = some ps ↔ Scanned ps ∧ s = ps.flatMap Piece.text := by
  constructor
  · intro h
    obtain ⟨qs, rest, hqs, hrest, rfl⟩ := exists_pieces s
    cases hrest with
    | done =>
      rw [List.append_nil, pieces_text hqs] at h
      cases h
      exact ⟨hqs, List.append_nil _⟩
    | unclosed ht =>
      rw [pieces_unclosed hqs ht] at h
      cases h
  · rintro ⟨h, rfl⟩
    exact pieces_text h

theorem tokenize_of_pieces {s : Str} {ps : List Piece} (h : pieces s = some ps) :
    tokenize syn s = ps.mapM (Piece.part syn) := by
  obtain ⟨hps, rfl⟩ := pieces_eq_some.mp h
  exact tokenize_scanned syn hps

/-- The parts are those of the pieces, one for each. -/
theorem parts_of_pieces {s : Str} {ps : List Piece} (h : pieces s = some ps) {parts : List τ}
    (ht : tokenize syn s = .ok parts) :
    List.Forall₂ (fun p part => p.part syn = .ok part) ps parts := by
  rw [tokenize_of_pieces syn h] at ht
  exact Traverse.forall₂_of_mapM ht

/-- A text is accepted when each of its captures is. -/
theorem tokenize_ok_iff {s : Str} {ps : List Piece} (h : pieces s = some ps) :
    (∃ parts, tokenize syn s = .ok parts) ↔
      ∀ content, .capture content ∈ ps → ∃ part, syn.capture content = .ok part := by
  rw [tokenize_of_pieces syn h, Traverse.mapM_ok_iff]
  constructor
  · intro hall content hc
    exact hall _ hc
  · intro hall p hp
    cases p with
    | literal run => exact ⟨_, rfl⟩
    | capture content => exact hall content hp

theorem tokenize_of_no_pieces {s : Str} (h : pieces s = none) :
    ∃ e, tokenize syn s = .error e := by
  obtain ⟨ps, rest, hps, hrest, rfl⟩ := exists_pieces s
  cases hrest with
  | done =>
    rw [List.append_nil, pieces_text hps] at h
    cases h
  | unclosed ht =>
    rw [tokenize_unclosed syn hps ht]
    cases ps.mapM (Piece.part syn) with
    | error e => exact ⟨e, rfl⟩
    | ok parts => exact ⟨_, rfl⟩

end Rendering

end TptTelemetry.Lib.Template
