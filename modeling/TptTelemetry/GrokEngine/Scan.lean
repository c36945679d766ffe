import TptTelemetry.GrokEngine.Compile
import TptTelemetry.Lib.Regex
import TptTelemetry.Lib.Utf8

namespace TptTelemetry.GrokEngine.Scan

open TptTelemetry.Lib TptTelemetry.Lib.Text TptTelemetry.Lib.Utf8 TptTelemetry.Lib.Regex
open TptTelemetry.Dsl.Patterns TptTelemetry.GrokEngine.Compile

section Model

/-- What the engine uses of the crates `regex` and `memchr`. -/
structure Crates where
  Regex : Type
  Captures : Type
  Error : Type
  classes : Classes
  escape : Str → Str
  new : Str → Except Error Regex
  captures : Regex → Str → Option Captures
  captureNames : Regex → List (Option Str)
  memmemFind : Bytes → Bytes → Option Nat

variable (K : Crates)

structure Grok where
  inner : K.Regex
  fastLiteral : Option Str

structure Match where
  caps : K.Captures
  names : List (Option Str)

def widen {ε : Type} : CompileError → GrokError ε
  | .unbalancedBrace p => .unbalancedBrace p
  | .badCapture c => .badCapture c
  | .unknownPattern n => .unknownPattern n
  | .tooDeep n => .tooDeep n
  | .cycle n => .cycle n
  | .invalidGroupName n => .invalidGroupName n
  | .regex e => e.elim

def Grok.new (pattern : Str) : Except (GrokError K.Error) (Grok K) := do
  let src ← (compile K.escape pattern).mapError widen
  let inner ← (K.new src).mapError .regex
  .ok ⟨inner, Compile.fastLiteral pattern 3⟩

variable {K}

def Grok.find (g : Grok K) (input : Str) : Option (Match K) := do
  let caps ← K.captures g.inner input
  some ⟨caps, K.captureNames g.inner⟩

def Grok.scan (g : Grok K) (input : Str) : Option (Match K) :=
  match g.fastLiteral with
  | some needle => do
    let _ ← K.memmemFind (encode input) (encode needle)
    g.find input
  | none => g.find input

end Model

/-- The documented behaviour of the crates: an escaped text stands for its
characters, a source of the syntax that the library uses is matched as it reads,
and the substring search finds what is there. -/
structure Documented (K : Crates) : Prop where
  escape (s : Str) : tokens (K.escape s) = some (s.map (fun c => .atom (.char c)))
  captures {src input : Str} {re : K.Regex} {caps : K.Captures} (hnew : K.new src = .ok re)
    (hsrc : (parse src).isSome) (hcaps : K.captures re input = some caps) :
    ∃ pre text post, input = pre ++ text ++ post ∧ Matches K.classes src pre text post
  memmem (haystack needle : Bytes) :
    (K.memmemFind haystack needle).isSome ↔ needle <:+: haystack

section Source

def parses (name : Str) : Bool :=
  match expand name with
  | .ok body => (parse body).isSome
  | .error _ => false

set_option maxRecDepth 8000 in
theorem standardPatterns_parse : standardPatterns.all (fun p => parses p.name) = true := by
  unfold parses expand lookup standardPatterns
  simp only [pattern, List.flatMap_cons, List.flatMap_nil, -String.reduceToList]
  -- the kernel is slow to decode string literals, so they are spelled out first
  repeat rw [String.toList_ofList]
  simp only [List.cons_append, List.nil_append]
  decide +kernel

theorem parse_expand {name body : Str} (h : expand name = .ok body) : ∃ r, parse body = some r := by
  obtain ⟨regex, hregex⟩ := lookup_of_expandRef h
  obtain ⟨p, hp, -⟩ := Option.map_eq_some_iff.mp hregex
  have hname : p.name = name := by simpa using List.find?_some hp
  have hall := List.all_eq_true.mp standardPatterns_parse p (List.mem_of_find?_eq_some hp)
  rw [parses, hname, h] at hall
  exact Option.isSome_iff_exists.mp hall

variable {K : Crates} (hK : Documented K)

include hK in
theorem adds_compileToken {tok : Compile.Token} {part : Str}
    (h : compileToken K.escape tok = .ok part) :
    ∃ items, Adds part items ∧ ∀ s, tok = .literal s → items = s.map .char := by
  cases tok with
  | literal s =>
    cases h
    refine ⟨s.map .char, adds_literal (hK.escape s), ?_⟩
    rintro t ⟨⟩
    rfl
  | capture name field ty =>
    obtain ⟨sub, hsub, h⟩ := bind_eq_ok.mp h
    obtain ⟨r, hr⟩ := parse_expand hsub
    cases field with
    | none =>
      cases h
      exact ⟨_, adds_group rfl hr, nofun⟩
    | some f =>
      dsimp only at h
      split at h
      · next hf =>
        cases h
        have hopen : tokens (['(', '?', '<'] ++ f ++ ['>']) = some [.opening (some f)] := by
          apply tokens_named
          cases f <;> exact hf
        exact ⟨_, adds_group hopen hr, nofun⟩
      · cases h

include hK in
theorem adds_parts {toks : List Compile.Token} {parts : List Str}
    (h : toks.mapM (compileToken K.escape) = .ok parts) :
    ∃ items, Adds parts.flatten items ∧
      ∀ s, .literal s ∈ toks → ∃ a b, items = a ++ s.map .char ++ b := by
  induction toks generalizing parts with
  | nil =>
    cases h
    exact ⟨[], adds_nil, nofun⟩
  | cons tok toks ih =>
    rw [List.mapM_cons] at h
    obtain ⟨part, hpart, h⟩ := bind_eq_ok.mp h
    obtain ⟨parts, hparts, h⟩ := bind_eq_ok.mp h
    cases h
    obtain ⟨items, hitems, hlit⟩ := adds_compileToken hK hpart
    obtain ⟨rest, hrest, hmem⟩ := ih hparts
    refine ⟨items ++ rest, hitems.append hrest, fun s hs => ?_⟩
    obtain hs | hs := List.mem_cons.mp hs
    · rw [hlit s hs.symm]
      exact ⟨[], rest, rfl⟩
    · obtain ⟨a, b, rfl⟩ := hmem s hs
      exact ⟨items ++ a, b, by simp⟩

include hK in
theorem literal_of_captures {pattern src input s : Str} {toks : List Compile.Token} {re : K.Regex}
    {caps : K.Captures} (ht : tokenize pattern = .ok toks) (hs : .literal s ∈ toks)
    (hsrc : compile K.escape pattern = .ok src) (hnew : K.new src = .ok re)
    (hcaps : K.captures re input = some caps) : s <:+: input := by
  obtain ⟨toks', ht', hsrc⟩ := bind_eq_ok.mp hsrc
  cases ht.symm.trans ht'
  obtain ⟨parts, hparts, h⟩ := bind_eq_ok.mp hsrc
  cases h
  obtain ⟨items, hitems, hmem⟩ := adds_parts hK hparts
  obtain ⟨a, b, rfl⟩ := hmem s hs
  have hparse := hitems.parse
  obtain ⟨pre, text, post, rfl, r, hr, p, hspan⟩ :=
    hK.captures hnew (Option.isSome_of_eq_some hparse) hcaps
  cases hparse.symm.trans hr
  have hinfix := infix_of_literal hspan
  rw [List.append_assoc]
  exact hinfix.trans (List.suffix_append pre _).isInfix

end Source

theorem infix_encode {s t : Str} (h : s <:+: t) : encode s <:+: encode t := by
  obtain ⟨a, b, rfl⟩ := h
  exact ⟨encode a, encode b, by simp [encode]⟩

theorem new_eq_ok {K : Crates} {pattern : Str} {g : Grok K} (h : Grok.new K pattern = .ok g) :
    ∃ src, compile K.escape pattern = .ok src ∧ K.new src = .ok g.inner ∧
      g.fastLiteral = Compile.fastLiteral pattern 3 := by
  rw [Grok.new] at h
  cases hsrc : compile K.escape pattern with
  | error e =>
    rw [hsrc] at h
    cases h
  | ok src =>
    rw [hsrc] at h
    cases hre : K.new src with
    | error e =>
      change ((K.new src).mapError GrokError.regex >>= _) = _ at h
      rw [hre] at h
      cases h
    | ok re =>
      change ((K.new src).mapError GrokError.regex >>= _) = _ at h
      rw [hre] at h
      cases h
      exact ⟨src, rfl, hre, rfl⟩

/-- The search for the literal never changes what is found. -/
theorem scan_eq_find {K : Crates} (hK : Documented K) {pattern : Str} {g : Grok K}
    (h : Grok.new K pattern = .ok g) (input : Str) : g.scan input = g.find input := by
  obtain ⟨src, hsrc, hre, hfast⟩ := new_eq_ok h
  rw [Grok.scan, hfast]
  cases hneedle : Compile.fastLiteral pattern 3 with
  | none => rfl
  | some needle =>
    cases hcaps : K.captures g.inner input with
    | none =>
      have hfind : g.find input = none := by rw [Grok.find, hcaps]; rfl
      simp [hfind]
    | some caps =>
      obtain ⟨toks, ht, -⟩ := bind_eq_ok.mp hsrc
      have hinfix := literal_of_captures hK ht (mem_of_fastLiteral ht hneedle) hsrc hre hcaps
      have hfound := (hK.memmem _ _).mpr (infix_encode hinfix)
      obtain ⟨i, hi⟩ := Option.isSome_iff_exists.mp hfound
      simp [hi]

section Reference

def groupNames : Expr → List (Option Str)
  | .empty => []
  | .cls _ => []
  | .boundary => []
  | .seq a b => groupNames a ++ groupNames b
  | .alt a b => groupNames a ++ groupNames b
  | .rep r _ _ => groupNames r
  | .group none r => groupNames r
  | .group (some name) r => some name :: groupNames r

/-- The first match from the left: the text before it, and its own. -/
def firstMatch (U : Classes) (r : Expr) (input : Str) : Option (Str × Str) :=
  (List.range (input.length + 1)).findSome? (fun i =>
    (ends U r ((input.take i).getLast?, input.drop i)).head?.map (fun y =>
      (input.take i, (input.drop i).take ((input.drop i).length - y.2.length))))

def firstIndex (haystack needle : Bytes) : Option Nat :=
  (List.range (haystack.length + 1)).find? (fun i => needle.isPrefixOf (haystack.drop i))

/-- The crates over the expressions themselves. -/
def reference (U : Classes) : Crates where
  Regex := Expr
  Captures := Str × Str
  Error := Unit
  classes := U
  escape := escape
  new src := (parse src).elim (.error ()) .ok
  captures := firstMatch U
  captureNames r := none :: groupNames r
  memmemFind := firstIndex

theorem documented_reference (U : Classes) : Documented (reference U) where
  escape := tokens_escape
  captures := by
    intro src input re caps hnew hsrc hcaps
    have hre : parse src = some re := by
      obtain ⟨r, hr⟩ := Option.isSome_iff_exists.mp hsrc
      change (parse src).elim _ _ = _ at hnew
      rw [hr] at hnew
      cases hnew
      exact hr
    obtain ⟨i, -, hi⟩ := List.exists_of_findSome?_eq_some hcaps
    obtain ⟨y, hy, -⟩ := Option.map_eq_some_iff.mp hi
    have hmem := List.mem_of_head? hy
    obtain ⟨text, htext⟩ := suffix_ends re _ y hmem
    refine ⟨input.take i, text, y.2, ?_, re, hre, y.1, ?_⟩
    · rw [List.append_assoc, htext, List.take_append_drop]
    · rw [htext]
      exact hmem
  memmem := by
    intro haystack needle
    change (firstIndex haystack needle).isSome ↔ _
    rw [firstIndex, List.find?_isSome]
    constructor
    · rintro ⟨i, -, hi⟩
      have hprefix := List.isPrefixOf_iff_prefix.mp hi
      exact hprefix.isInfix.trans (List.drop_suffix i haystack).isInfix
    · rintro ⟨a, b, rfl⟩
      refine ⟨a.length, ?_, by simp⟩
      rw [List.mem_range, List.length_append, List.length_append]
      omega

def minutePattern : Str := "at %\x7bMINUTE:minute\x7d past".toList

theorem exists_new (K : Crates) (pattern : Str) (f : Grok K → Bool)
    (h : (Grok.new K pattern).toOption.any f = true) :
    ∃ g, Grok.new K pattern = .ok g ∧ f g = true := by
  cases hg : Grok.new K pattern with
  | error e =>
    rw [hg] at h
    cases h
  | ok g =>
    rw [hg] at h
    exact ⟨g, rfl, h⟩

theorem scan_eq_find_minute : ∃ g, Grok.new (reference ascii) minutePattern = .ok g ∧
    ((g.find "at 42 past".toList).isSome && g.fastLiteral == some " past".toList) = true ∧
    g.scan "at 42 past".toList = g.find "at 42 past".toList := by
  obtain ⟨g, hg, hrun⟩ := exists_new (reference ascii) minutePattern
    (fun g => (g.find "at 42 past".toList).isSome && g.fastLiteral == some " past".toList)
    (by decide +kernel)
  exact ⟨g, hg, hrun, scan_eq_find (documented_reference ascii) hg _⟩

end Reference

end TptTelemetry.GrokEngine.Scan
