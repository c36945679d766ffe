import TptTelemetry.Lib.Text

namespace TptTelemetry.Lib.Regex

open TptTelemetry.Lib.Text

section Syntax

inductive Item
  | char (c : Char)
  | range (lo hi : Char)
  | digit
  | word
  | space
  deriving DecidableEq, Repr

structure Class where
  negated : Bool
  items : List Item
  deriving DecidableEq, Repr

/-- Regular expressions without anchors other than the word boundary. Whether
a repetition is lazy is no matter of what can be matched. -/
inductive Expr
  | empty
  | cls (c : Class)
  | boundary
  | seq (a b : Expr)
  | alt (a b : Expr)
  | rep (r : Expr) (min : Nat) (max : Option Nat)
  | group (name : Option Str) (r : Expr)
  deriving DecidableEq, Repr

def Expr.char (c : Char) : Expr := .cls ⟨false, [.char c]⟩

end Syntax

section Reading

inductive Token
  | atom (r : Expr)
  | quantifier (min : Nat) (max : Option Nat)
  | question
  | bar
  | opening (name : Option Str)
  | closing
  deriving DecidableEq, Repr

def takeUntil (d : Char) : Str → Option (Str × Str)
  | [] => none
  | c :: s => if c = d then some ([], s) else (takeUntil d s).map (fun x => (c :: x.1, x.2))

def hexDigit (c : Char) : Option Nat :=
  if '0' ≤ c ∧ c ≤ '9' then some (c.toNat - '0'.toNat)
  else if 'a' ≤ c ∧ c ≤ 'f' then some (c.toNat - 'a'.toNat + 10)
  else if 'A' ≤ c ∧ c ≤ 'F' then some (c.toNat - 'A'.toNat + 10)
  else none

def hexChar (a b : Char) : Option Char := do
  let m ← hexDigit a
  let n ← hexDigit b
  some (Char.ofNat (16 * m + n))

def specials : List Char :=
  ['\\', '.', '+', '*', '?', '(', ')', '|', '[', ']', '\x7b', '\x7d', '^', '$', '#', '&', '-', '~']

/-- The items of a class. Nested classes, set operations and a hyphen whose
role depends on what stands around it are not read. -/
def classItems : Str → Option (List Item)
  | [] => some []
  | '\\' :: 'x' :: a :: b :: s => do
    let c ← hexChar a b
    let items ← classItems s
    some (.char c :: items)
  | '\\' :: c :: s => if c ∈ specials then (classItems s).map (.char c :: ·) else none
  | ['-'] => some [.char '-']
  | lo :: '-' :: hi :: s =>
    if lo.isAlphanum && hi.isAlphanum && lo ≤ hi then (classItems s).map (.range lo hi :: ·)
    else none
  | c :: s =>
    if c ∈ ['\\', '[', '&', '~', '-', '^'] then none else (classItems s).map (.char c :: ·)

def classOf : Str → Option Class
  | [] => none
  | '^' :: s => if s = [] then none else (classItems s).map (Class.mk true)
  | s => (classItems s).map (Class.mk false)

def digits (s : Str) : Option Nat :=
  if s ≠ [] ∧ s.all Char.isDigit then some (s.foldl (fun n c => 10 * n + (c.toNat - '0'.toNat)) 0)
  else none

def bounds (s : Str) : Option (Nat × Option Nat) :=
  match s.splitOn ',' with
  | [m] => (digits m).map (fun m => (m, some m))
  | [m, []] => (digits m).map (fun m => (m, none))
  | [m, n] => do
    let m ← digits m
    let n ← digits n
    if m ≤ n then some (m, some n) else none
  | _ => none

def isName : Str → Bool
  | [] => false
  | c :: s => (c == '_' || c.isAlpha) && s.all (fun d => d == '_' || d.isAlphanum)

def readHex : Str → Option (Token × Str)
  | a :: b :: s => (hexChar a b).map (fun d => (.atom (.char d), s))
  | _ => none

def escaped (c : Char) : Option Token :=
  if c = 'd' then some (.atom (.cls ⟨false, [.digit]⟩))
  else if c = 'w' then some (.atom (.cls ⟨false, [.word]⟩))
  else if c = 's' then some (.atom (.cls ⟨false, [.space]⟩))
  else if c = 'S' then some (.atom (.cls ⟨true, [.space]⟩))
  else if c = 'b' then some (.atom .boundary)
  else if c ∈ specials then some (.atom (.char c))
  else none

def readEscape : Str → Option (Token × Str)
  | [] => none
  | c :: s => if c = 'x' then readHex s else (escaped c).map (fun t => (t, s))

def readOpening : Str → Option (Token × Str)
  | '?' :: ':' :: s => some (.opening none, s)
  | '?' :: '<' :: s => do
    let (name, s) ← takeUntil '>' s
    if isName name then some (.opening (some name), s) else none
  | _ => none

def single (c : Char) : Option Token :=
  if c = ')' then some .closing
  else if c = '|' then some .bar
  else if c = '*' then some (.quantifier 0 none)
  else if c = '+' then some (.quantifier 1 none)
  else if c = '?' then some .question
  else if c = '.' then some (.atom (.cls ⟨true, [.char '\n']⟩))
  else if c ∈ ['^', '$', ']', '\x7d'] then none
  else some (.atom (.char c))

def readClass (s : Str) : Option (Token × Str) := do
  let (body, s) ← takeUntil ']' s
  let cls ← classOf body
  some (.atom (.cls cls), s)

def readCount (s : Str) : Option (Token × Str) := do
  let (body, s) ← takeUntil '\x7d' s
  let (min, max) ← bounds body
  some (.quantifier min max, s)

def readToken : Str → Option (Token × Str)
  | [] => none
  | c :: s =>
    if c = '\\' then readEscape s
    else if c = '(' then readOpening s
    else if c = '[' then readClass s
    else if c = '\x7b' then readCount s
    else (single c).map (fun t => (t, s))

def readTokens : Nat → Str → Option (List Token)
  | _, [] => some []
  | 0, _ :: _ => none
  | n + 1, c :: s => do
    let (t, s) ← readToken (c :: s)
    let ts ← readTokens n s
    some (t :: ts)

def tokens (s : Str) : Option (List Token) := readTokens s.length s

/-- The alternatives that are complete, and the items of the one that is being
read, the last one first. The flag tells that the last token was a quantifier,
so that a question mark makes it lazy. -/
structure Frame where
  done : List Expr
  items : List Expr
  quantified : Bool
  deriving DecidableEq, Repr

def Frame.new : Frame := ⟨[], [], false⟩

def Frame.push (f : Frame) (r : Expr) : Frame :=
  { f with items := r :: f.items, quantified := false }

def Frame.quantify (f : Frame) (min : Nat) (max : Option Nat) : Option Frame :=
  match f.items with
  | [] => none
  | r :: items => some { f with items := .rep r min max :: items, quantified := true }

def sequence (items : List Expr) : Expr := items.foldr .seq .empty

def Frame.expr (f : Frame) : Expr := f.done.foldr .alt (sequence f.items.reverse)

/-- The groups that are open, each with the frame around it. -/
structure Reader where
  outer : List (Option Str × Frame)
  frame : Frame
  deriving DecidableEq, Repr

def Reader.next (x : Reader) : Token → Option Reader
  | .atom r => some { x with frame := x.frame.push r }
  | .quantifier min max => (x.frame.quantify min max).map fun f => { x with frame := f }
  | .question =>
    if x.frame.quantified then some { x with frame := { x.frame with quantified := false } }
    else (x.frame.quantify 0 (some 1)).map fun f => { x with frame := f }
  | .bar => some { x with frame := ⟨x.frame.done ++ [sequence x.frame.items.reverse], [], false⟩ }
  | .opening name => some ⟨(name, x.frame) :: x.outer, .new⟩
  | .closing =>
    match x.outer with
    | [] => none
    | (name, f) :: outer => some ⟨outer, f.push (.group name x.frame.expr)⟩

def parse (s : Str) : Option Expr := do
  let ts ← tokens s
  let x ← ts.foldlM Reader.next ⟨[], .new⟩
  if x.outer = [] then some x.frame.expr else none

end Reading

section Semantics

/-- The character sets that `\d`, `\w` and `\s` stand for. -/
structure Classes where
  digit : Char → Bool
  word : Char → Bool
  space : Char → Bool

def ascii : Classes where
  digit := Char.isDigit
  word c := c.isAlphanum || c == '_'
  space c := c ∈ ['\t', '\n', '\x0b', '\x0c', '\r', ' ']

variable (U : Classes)

def Item.mem : Item → Char → Bool
  | .char d, c => c == d
  | .range lo hi, c => lo ≤ c && c ≤ hi
  | .digit, c => U.digit c
  | .word, c => U.word c
  | .space, c => U.space c

def Class.mem (cls : Class) (c : Char) : Bool := (cls.items.any (fun i => i.mem U c)) != cls.negated

/-- A place in a text: the character before it, and what follows. -/
abbrev Place := Option Char × Str

def times (f : Place → List Place) : Nat → Place → List Place
  | 0, x => [x]
  | n + 1, x => (f x).flatMap (times f n)

def upTo (f : Place → List Place) : Nat → Place → List Place
  | 0, x => [x]
  | n + 1, x => x :: (f x).flatMap (upTo f n)

/-- The places at which a match that starts at the given one can end. A
repetition without bound needs no more rounds than there are characters. -/
def ends : Expr → Place → List Place
  | .empty, x => [x]
  | .cls _, (_, []) => []
  | .cls cls, (_, c :: s) => if cls.mem U c then [(some c, s)] else []
  | .boundary, (p, s) => if p.any U.word != s.head?.any U.word then [(p, s)] else []
  | .seq a b, x => (ends a x).flatMap (ends b)
  | .alt a b, x => ends a x ++ ends b x
  | .rep r min max, x =>
    (times (ends r) min x).flatMap (fun y => upTo (ends r) ((max.getD (min + y.2.length)) - min) y)
  | .group _ r, x => ends r x

/-- The text between the two others is a match. -/
def Spans (r : Expr) (pre text post : Str) : Prop :=
  ∃ p, (p, post) ∈ ends U r (pre.getLast?, text ++ post)

/-- The source, as the crate `regex` reads it, matches the text between the two
others. -/
def Matches (src pre text post : Str) : Prop := ∃ r, parse src = some r ∧ Spans U r pre text post

def fullMatch (src s : Str) : Bool :=
  (parse src).any (fun r => (ends U r (none, s)).any (fun x => x.2 = []))

theorem fullMatch_iff {src s : Str} : fullMatch U src s = true ↔ Matches U src [] s [] := by
  simp only [fullMatch, Matches, Spans, Option.any_eq_true, List.any_eq_true, decide_eq_true_eq,
    List.getLast?_nil, List.append_nil]
  refine exists_congr fun r => and_congr_right fun _ => ⟨?_, ?_⟩
  · rintro ⟨⟨p, t⟩, hmem, rfl⟩
    exact ⟨p, hmem⟩
  · rintro ⟨p, hmem⟩
    exact ⟨(p, []), hmem, rfl⟩

end Semantics

section Concatenation

/-- Reading a token does not look past it. -/
theorem takeUntil_append {d : Char} {s a t : Str} (h : takeUntil d s = some (a, t)) (u : Str) :
    takeUntil d (s ++ u) = some (a, t ++ u) := by
  induction s generalizing a with
  | nil => cases h
  | cons c s ih =>
    rw [takeUntil] at h
    rw [List.cons_append, takeUntil]
    split at h
    · next hc =>
      cases h
      exact if_pos hc
    · next hc =>
      obtain ⟨⟨b, v⟩, hb, heq⟩ := Option.map_eq_some_iff.mp h
      cases heq
      rw [if_neg hc, ih hb]
      rfl

theorem takeUntil_of_not_mem {d : Char} {a : Str} (h : d ∉ a) (s : Str) :
    takeUntil d (a ++ d :: s) = some (a, s) := by
  induction a with
  | nil => exact if_pos rfl
  | cons c a ih =>
    obtain ⟨hc, ha⟩ := not_or.mp (mt List.mem_cons.mpr h)
    rw [List.cons_append, takeUntil, if_neg (Ne.symm hc), ih ha]
    rfl

theorem readHex_append {s t : Str} {tok : Token} (h : readHex s = some (tok, t)) (u : Str) :
    readHex (s ++ u) = some (tok, t ++ u) := by
  rw [readHex.eq_def] at h
  split at h
  · next a b s =>
    obtain ⟨d, hd, heq⟩ := Option.map_eq_some_iff.mp h
    cases heq
    simp only [List.cons_append, readHex, hd, Option.map_some]
  · cases h

theorem readEscape_append {s t : Str} {tok : Token} (h : readEscape s = some (tok, t)) (u : Str) :
    readEscape (s ++ u) = some (tok, t ++ u) := by
  cases s with
  | nil => cases h
  | cons c s =>
    rw [readEscape] at h
    rw [List.cons_append, readEscape]
    by_cases hx : c = 'x'
    · rw [if_pos hx] at h ⊢
      exact readHex_append h u
    · rw [if_neg hx] at h ⊢
      obtain ⟨t, ht, heq⟩ := Option.map_eq_some_iff.mp h
      cases heq
      rw [ht]
      rfl

theorem readOpening_append {s t : Str} {tok : Token} (h : readOpening s = some (tok, t)) (u : Str) :
    readOpening (s ++ u) = some (tok, t ++ u) := by
  rw [readOpening.eq_def] at h
  split at h
  · cases h
    rfl
  · simp only [Option.bind_eq_bind, Option.bind_eq_some_iff, Prod.exists] at h
    obtain ⟨name, s', hs, h⟩ := h
    split at h
    · next hn =>
      cases h
      simp only [List.cons_append, readOpening, takeUntil_append hs, Option.bind_eq_bind,
        Option.bind_some, if_pos hn]
    · cases h
  · cases h

theorem readClass_append {s t : Str} {tok : Token} (h : readClass s = some (tok, t)) (u : Str) :
    readClass (s ++ u) = some (tok, t ++ u) := by
  simp only [readClass, Option.bind_eq_bind, Option.bind_eq_some_iff, Prod.exists] at h
  obtain ⟨body, s', hs, cls, hcls, h⟩ := h
  cases h
  simp only [readClass, takeUntil_append hs, hcls, Option.bind_eq_bind, Option.bind_some]

theorem readCount_append {s t : Str} {tok : Token} (h : readCount s = some (tok, t)) (u : Str) :
    readCount (s ++ u) = some (tok, t ++ u) := by
  simp only [readCount, Option.bind_eq_bind, Option.bind_eq_some_iff, Prod.exists] at h
  obtain ⟨body, s', hs, m, n, hb, h⟩ := h
  cases h
  simp only [readCount, takeUntil_append hs, hb, Option.bind_eq_bind, Option.bind_some]

theorem readToken_append {s t : Str} {tok : Token} (h : readToken s = some (tok, t)) (u : Str) :
    readToken (s ++ u) = some (tok, t ++ u) := by
  cases s with
  | nil => cases h
  | cons c s =>
    rw [readToken] at h
    rw [List.cons_append, readToken]
    by_cases hescape : c = '\\'
    · rw [if_pos hescape] at h ⊢
      exact readEscape_append h u
    rw [if_neg hescape] at h ⊢
    by_cases hopen : c = '('
    · rw [if_pos hopen] at h ⊢
      exact readOpening_append h u
    rw [if_neg hopen] at h ⊢
    by_cases hclass : c = '['
    · rw [if_pos hclass] at h ⊢
      exact readClass_append h u
    rw [if_neg hclass] at h ⊢
    by_cases hcount : c = '\x7b'
    · rw [if_pos hcount] at h ⊢
      exact readCount_append h u
    rw [if_neg hcount] at h ⊢
    obtain ⟨t, ht, heq⟩ := Option.map_eq_some_iff.mp h
    cases heq
    rw [ht]
    rfl

theorem readTokens_mono {n k : Nat} {s : Str} {ts : List Token} (h : readTokens n s = some ts) :
    readTokens (n + k) s = some ts := by
  induction n generalizing s ts with
  | zero =>
    cases s with
    | nil => rw [← h, readTokens, readTokens]
    | cons c s => cases h
  | succ n ih =>
    cases s with
    | nil => rw [← h, readTokens, readTokens]
    | cons c s =>
      simp only [readTokens, Option.bind_eq_bind, Option.bind_eq_some_iff, Prod.exists] at h
      obtain ⟨t, s', ht, ts', hts, h⟩ := h
      cases h
      rw [Nat.add_right_comm, readTokens, ht]
      simp only [Option.bind_eq_bind, Option.bind_some, ih hts]

theorem readTokens_append {n m : Nat} {a b : Str} {ts us : List Token}
    (ha : readTokens n a = some ts) (hb : readTokens m b = some us) :
    readTokens (n + m) (a ++ b) = some (ts ++ us) := by
  induction n generalizing a ts with
  | zero =>
    cases a with
    | nil =>
      cases ha
      rw [Nat.zero_add]
      exact hb
    | cons c a => cases ha
  | succ n ih =>
    cases a with
    | nil =>
      cases ha
      rw [Nat.add_comm]
      exact readTokens_mono hb
    | cons c a =>
      simp only [readTokens, Option.bind_eq_bind, Option.bind_eq_some_iff, Prod.exists] at ha
      obtain ⟨t, s, ht, ts', hts, h⟩ := ha
      cases h
      rw [Nat.add_right_comm, List.cons_append, readTokens, ← List.cons_append, readToken_append ht]
      simp only [Option.bind_eq_bind, Option.bind_some, ih hts, List.cons_append]

theorem tokens_append {a b : Str} {ts us : List Token} (ha : tokens a = some ts)
    (hb : tokens b = some us) : tokens (a ++ b) = some (ts ++ us) := by
  rw [tokens, List.length_append]
  exact readTokens_append ha hb

/-- What is around the groups that a text opens does not matter to it. -/
theorem Reader.next_outer {x y : Reader} {t : Token} (h : x.next t = some y)
    (outer : List (Option Str × Frame)) :
    Reader.next ⟨x.outer ++ outer, x.frame⟩ t = some ⟨y.outer ++ outer, y.frame⟩ := by
  cases t with
  | atom r =>
    cases h
    rfl
  | quantifier m n =>
    obtain ⟨f, hf, rfl⟩ := Option.map_eq_some_iff.mp h
    exact Option.map_eq_some_iff.mpr ⟨f, hf, rfl⟩
  | question =>
    rw [Reader.next] at h ⊢
    dsimp only
    split at h
    · next hq =>
      cases h
      rw [if_pos hq]
    · next hq =>
      rw [if_neg hq]
      obtain ⟨f, hf, rfl⟩ := Option.map_eq_some_iff.mp h
      exact Option.map_eq_some_iff.mpr ⟨f, hf, rfl⟩
  | bar =>
    cases h
    rfl
  | opening name =>
    cases h
    rfl
  | closing =>
    obtain ⟨xs, f⟩ := x
    cases xs with
    | nil => cases h
    | cons g xs =>
      cases h
      rfl

theorem foldlM_outer {ts : List Token} {x y : Reader} (h : ts.foldlM Reader.next x = some y)
    (outer : List (Option Str × Frame)) :
    ts.foldlM Reader.next ⟨x.outer ++ outer, x.frame⟩ = some ⟨y.outer ++ outer, y.frame⟩ := by
  induction ts generalizing x with
  | nil =>
    cases h
    rfl
  | cons t ts ih =>
    rw [List.foldlM_cons, Option.bind_eq_bind, Option.bind_eq_some_iff] at h
    obtain ⟨z, hz, h⟩ := h
    rw [List.foldlM_cons, Reader.next_outer hz]
    exact ih h

theorem tokens_single {c : Char} {s : Str} {t : Token} (h : readToken (c :: s) = some (t, [])) :
    tokens (c :: s) = some [t] := by
  simp only [tokens, List.length_cons, readTokens, h, Option.bind_eq_bind, Option.bind_some]

theorem tokens_named {name : Str} (h : isName name = true) :
    tokens ('(' :: '?' :: '<' :: (name ++ ['>'])) = some [.opening (some name)] := by
  have hname : '>' ∉ name := by
    cases name with
    | nil => cases h
    | cons c s =>
      intro hmem
      simp only [isName, Bool.and_eq_true, List.all_eq_true] at h
      obtain rfl | hmem := List.mem_cons.mp hmem
      · exact absurd h.1 (by decide)
      · exact absurd (h.2 _ hmem) (by decide)
  have htake := takeUntil_of_not_mem hname []
  have hopen : readOpening ('?' :: '<' :: (name ++ ['>'])) = some (.opening (some name), []) := by
    simp only [readOpening, htake, Option.bind_eq_bind, Option.bind_some, h, if_true]
  apply tokens_single
  rw [readToken, if_neg (by decide), if_pos rfl, hopen]

def Reader.push (x : Reader) (items : List Expr) : Reader :=
  { x with frame := items.foldl Frame.push x.frame }

/-- The text adds the items to whatever has been read before it. -/
def Adds (s : Str) (items : List Expr) : Prop :=
  ∃ ts, tokens s = some ts ∧ ∀ x, ts.foldlM Reader.next x = some (x.push items)

theorem adds_nil : Adds [] [] := ⟨[], rfl, fun _ => rfl⟩

theorem Adds.append {s t : Str} {a b : List Expr} (hs : Adds s a) (ht : Adds t b) :
    Adds (s ++ t) (a ++ b) := by
  obtain ⟨ts, hts, hs⟩ := hs
  obtain ⟨us, hus, ht⟩ := ht
  refine ⟨ts ++ us, tokens_append hts hus, fun x => ?_⟩
  rw [List.foldlM_append, hs, Option.bind_eq_bind, Option.bind_some, ht, Reader.push, Reader.push,
    Reader.push, List.foldl_append]

theorem adds_group {opening body : Str} {name : Option Str} {r : Expr}
    (hopen : tokens opening = some [.opening name]) (h : parse body = some r) :
    Adds (opening ++ body ++ [')']) [.group name r] := by
  simp only [parse, Option.bind_eq_bind, Option.bind_eq_some_iff] at h
  obtain ⟨ts, hts, y, hy, h⟩ := h
  split at h
  · next houter =>
    cases h
    have hclose : tokens [')'] = some [.closing] := rfl
    refine ⟨_, tokens_append (tokens_append hopen hts) hclose, fun x => ?_⟩
    have hbody := foldlM_outer hy ((name, x.frame) :: x.outer)
    rw [houter] at hbody
    rw [List.foldlM_append, List.foldlM_append]
    change ((ts.foldlM Reader.next ⟨(name, x.frame) :: x.outer, .new⟩) >>= _) = _
    exact congrArg (· >>= _) hbody
  · cases h

theorem items_foldl_push (items : List Expr) (f : Frame) :
    (items.foldl Frame.push f).items = items.reverse ++ f.items := by
  induction items generalizing f with
  | nil => rfl
  | cons r items ih => simp [ih, Frame.push]

theorem done_foldl_push (items : List Expr) (f : Frame) :
    (items.foldl Frame.push f).done = f.done := by
  induction items generalizing f with
  | nil => rfl
  | cons r items ih => rw [List.foldl_cons, ih, Frame.push]

theorem expr_foldl_push (items : List Expr) :
    (items.foldl Frame.push .new).expr = sequence items := by
  rw [Frame.expr, items_foldl_push, done_foldl_push, Frame.new, List.append_nil,
    List.reverse_reverse, List.foldr_nil]

theorem Adds.parse {s : Str} {items : List Expr} (h : Adds s items) :
    parse s = some (sequence items) := by
  obtain ⟨ts, hts, h⟩ := h
  simp only [Regex.parse, hts, h, Option.bind_eq_bind, Option.bind_some, Reader.push, if_true,
    expr_foldl_push]

def escape (s : Str) : Str := s.flatMap (fun c => if c ∈ specials then ['\\', c] else [c])

theorem readToken_plain {c : Char} (hc : c ∉ specials) (s : Str) :
    readToken (c :: s) = some (.atom (.char c), s) := by
  simp only [specials, List.mem_cons, List.not_mem_nil, or_false, not_or] at hc
  simp only [readToken, single, List.mem_cons, List.not_mem_nil, hc, or_false, if_false,
    Option.map_some]

theorem readToken_escaped {c : Char} (hc : c ∈ specials) (s : Str) :
    readToken ('\\' :: c :: s) = some (.atom (.char c), s) := by
  have hletters : specials.all (fun c => c ∉ ['x', 'd', 'w', 's', 'S', 'b']) = true := by decide
  have hletter := List.all_eq_true.mp hletters c hc
  simp only [List.mem_cons, List.not_mem_nil, or_false, not_or, decide_eq_true_eq] at hletter
  simp only [readToken, readEscape, escaped, if_true, hletter, if_false, hc, Option.map_some]

theorem tokens_escape (s : Str) : tokens (escape s) = some (s.map (fun c => .atom (.char c))) := by
  induction s with
  | nil => rfl
  | cons c s ih =>
    have hc : tokens (if c ∈ specials then ['\\', c] else [c]) = some [.atom (.char c)] := by
      split
      · next h => exact tokens_single (readToken_escaped h [])
      · next h => exact tokens_single (readToken_plain h [])
    exact tokens_append hc ih

theorem adds_literal {text s : Str} (h : tokens text = some (s.map (fun c => .atom (.char c)))) :
    Adds text (s.map .char) := by
  refine ⟨_, h, fun x => ?_⟩
  clear h
  induction s generalizing x with
  | nil => rfl
  | cons c s ih => exact ih _

end Concatenation

section Matches

variable {U : Classes}

theorem mem_ends_seq {a b : Expr} {x y : Place} :
    y ∈ ends U (.seq a b) x ↔ ∃ z ∈ ends U a x, y ∈ ends U b z := by
  rw [ends, List.mem_flatMap]

theorem mem_ends_sequence_append {a b : List Expr} {x y : Place} :
    y ∈ ends U (sequence (a ++ b)) x ↔
      ∃ z ∈ ends U (sequence a) x, y ∈ ends U (sequence b) z := by
  induction a generalizing x with
  | nil => simp [sequence, ends]
  | cons r a ih =>
    have hcons : ∀ items, sequence (r :: items) = .seq r (sequence items) := fun _ => rfl
    rw [List.cons_append, hcons, hcons, mem_ends_seq]
    simp only [mem_ends_seq, ih]
    constructor
    · rintro ⟨z, hz, w, hw, hy⟩
      exact ⟨w, ⟨z, hz, hw⟩, hy⟩
    · rintro ⟨w, ⟨z, hz, hw⟩, hy⟩
      exact ⟨z, hz, w, hw, hy⟩

theorem mem_ends_char {c : Char} {x y : Place} (h : y ∈ ends U (.char c) x) : x.2 = c :: y.2 := by
  obtain ⟨p, s⟩ := x
  cases s with
  | nil => cases h
  | cons d s =>
    rw [Expr.char, ends] at h
    split at h
    · next hd =>
      cases List.mem_singleton.mp h
      simpa [Class.mem, Item.mem] using hd
    · cases h

theorem mem_ends_literal {s : Str} {x y : Place} (h : y ∈ ends U (sequence (s.map .char)) x) :
    x.2 = s ++ y.2 := by
  induction s generalizing x with
  | nil =>
    cases List.mem_singleton.mp h
    rfl
  | cons c s ih =>
    obtain ⟨z, hz, hy⟩ := mem_ends_seq.mp h
    rw [mem_ends_char hz, ih hy, List.cons_append]

theorem suffix_times {f : Place → List Place} (hf : ∀ x, ∀ y ∈ f x, y.2 <:+ x.2) {n : Nat}
    {x y : Place} (h : y ∈ times f n x) : y.2 <:+ x.2 := by
  induction n generalizing x with
  | zero =>
    cases List.mem_singleton.mp h
    exact List.suffix_refl _
  | succ n ih =>
    obtain ⟨z, hz, hy⟩ := List.mem_flatMap.mp h
    exact (ih hy).trans (hf x z hz)

theorem suffix_upTo {f : Place → List Place} (hf : ∀ x, ∀ y ∈ f x, y.2 <:+ x.2) {n : Nat}
    {x y : Place} (h : y ∈ upTo f n x) : y.2 <:+ x.2 := by
  induction n generalizing x with
  | zero =>
    cases List.mem_singleton.mp h
    exact List.suffix_refl _
  | succ n ih =>
    obtain rfl | h := List.mem_cons.mp h
    · exact List.suffix_refl _
    · obtain ⟨z, hz, hy⟩ := List.mem_flatMap.mp h
      exact (ih hy).trans (hf x z hz)

theorem suffix_ends (r : Expr) : ∀ x, ∀ y ∈ ends U r x, y.2 <:+ x.2 := by
  induction r with
  | empty =>
    intro x y h
    cases List.mem_singleton.mp h
    exact List.suffix_refl _
  | cls c =>
    rintro ⟨p, s⟩ y h
    cases s with
    | nil => cases h
    | cons d s =>
      rw [ends] at h
      split at h
      · cases List.mem_singleton.mp h
        exact List.suffix_cons d s
      · cases h
  | boundary =>
    rintro ⟨p, s⟩ y h
    rw [ends] at h
    split at h
    · cases List.mem_singleton.mp h
      exact List.suffix_refl _
    · cases h
  | seq a b iha ihb =>
    intro x y h
    obtain ⟨z, hz, hy⟩ := mem_ends_seq.mp h
    exact (ihb z y hy).trans (iha x z hz)
  | alt a b iha ihb =>
    intro x y h
    obtain h | h := List.mem_append.mp h
    · exact iha x y h
    · exact ihb x y h
  | rep r m n ih =>
    intro x y h
    obtain ⟨z, hz, hy⟩ := List.mem_flatMap.mp h
    exact (suffix_upTo ih hy).trans (suffix_times ih hz)
  | group name r ih => exact ih

/-- A literal among the items of a sequence is part of every match. -/
theorem infix_of_literal {a b : List Expr} {s : Str} {x y : Place}
    (h : y ∈ ends U (sequence (a ++ s.map .char ++ b)) x) : s <:+: x.2 := by
  rw [mem_ends_sequence_append] at h
  obtain ⟨w, hw, -⟩ := h
  obtain ⟨z, hz, hs⟩ := mem_ends_sequence_append.mp hw
  obtain ⟨u, hu⟩ := suffix_ends _ x z hz
  rw [mem_ends_literal hs] at hu
  exact ⟨u, w.2, by rw [← hu, List.append_assoc]⟩

end Matches

-- only a question mark makes a repetition lazy
example : fullMatch ascii "a+\x7b0,1\x7d".toList [] = true ∧ fullMatch ascii "a+?".toList [] = false := by
  decide

end TptTelemetry.Lib.Regex
