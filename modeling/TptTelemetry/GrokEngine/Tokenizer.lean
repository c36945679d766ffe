import TptTelemetry.Dsl.Print
import TptTelemetry.GrokEngine.Compile
import TptTelemetry.Lib.TemplateBytes
import TptTelemetry.Lib.Traverse
import Mathlib.Data.List.Forall2

namespace TptTelemetry.GrokEngine.Tokenizer

open TptTelemetry.Lib TptTelemetry.Lib.Text TptTelemetry.Lib.Template
open TptTelemetry.Dsl.Ast TptTelemetry.GrokEngine.Compile

/-- `compile::tokenize` as its loops run, over byte offsets. -/
def tokenizeBytes (pattern : Str) : Except Panic (Except CompileError (List Token)) :=
  TemplateBytes.tokenizeBytes ⟨.literal, parseCapture, .unbalancedBrace pattern⟩ pattern

theorem tokenizeBytes_eq (pattern : Str) : tokenizeBytes pattern = .ok (tokenize pattern) :=
  TemplateBytes.tokenizeBytes_eq _ pattern

def components (content : Str) : List Str := content.splitOn ':'

def render : Token → Str
  | .literal s => s
  | .capture name field ty =>
    "%\x7b".toList ++ name ++ (field.elim [] (':' :: ·)) ++ (ty.elim [] (':' :: ·)) ++ "\x7d".toList

/-- A piece of a pattern and the token that the tokenizer makes of it. -/
inductive Reads : Piece → Token → Prop
  | literal (s : Str) : Reads (.literal s) (.literal s)
  | capture {content : Str} {tok : Token} (h : parseCapture content = .ok tok) :
      Reads (.capture content) tok

section Captures

theorem parseCapture_ok_iff {content : Str} :
    (∃ tok, parseCapture content = .ok tok) ↔ (components content).length ≤ 3 := by
  rw [parseCapture, components]
  have hne := List.splitOn_ne_nil ':' content
  match content.splitOn ':', hne with
  | [name], _ => exact iff_of_true ⟨_, rfl⟩ (by simp)
  | [name, field], _ => exact iff_of_true ⟨_, rfl⟩ (by simp)
  | [name, field, ty], _ => exact iff_of_true ⟨_, rfl⟩ (by simp)
  | _ :: _ :: _ :: _ :: _, _ => exact iff_of_false (by rintro ⟨tok, h⟩; cases h) (by simp)

theorem parseCapture_error {content : Str} (h : 3 < (components content).length) :
    parseCapture content = .error (.badCapture content) := by
  rw [components] at h
  rw [parseCapture]
  match content.splitOn ':', h with
  | _ :: _ :: _ :: _ :: _, _ => rfl

theorem render_capture {content : Str} {tok : Token} (h : parseCapture content = .ok tok) :
    render tok = (Piece.capture content).text ∧ ∀ s, tok ≠ .literal s := by
  have hjoin : [':'].intercalate (content.splitOn ':') = content := List.intercalate_splitOn ':'
  rw [parseCapture] at h
  split at h
  · next name hs =>
    cases h
    rw [hs] at hjoin
    simp only [List.intercalate_singleton] at hjoin
    simp [render, Piece.text, hjoin]
  · next name field hs =>
    cases h
    rw [hs] at hjoin
    simp [render, Piece.text, ← hjoin, List.intercalate]
  · next name field ty hs =>
    cases h
    rw [hs] at hjoin
    simp [render, Piece.text, ← hjoin, List.intercalate]
  · cases h

theorem render_reads {p : Piece} {tok : Token} (h : Reads p tok) : render tok = p.text := by
  cases h with
  | literal s => rfl
  | capture h => exact (render_capture h).1

theorem literal_of_reads {p : Piece} {s : Str} (h : Reads p (.literal s)) : p = .literal s := by
  cases h with
  | literal s => rfl
  | capture h => exact absurd rfl ((render_capture h).2 s)

end Captures

section Lossless

def isLit : Token → Bool
  | .literal _ => true
  | .capture _ _ _ => false

/-- Tokens that are written as the pattern is, with the longest literals. -/
structure Lossless (pattern : Str) (tokens : List Token) : Prop where
  rendered : tokens.flatMap render = pattern
  nonempty : ∀ s, .literal s ∈ tokens → s ≠ []
  closed : ∀ s, .literal s ∈ tokens → ¬ ['%', '{'] <:+: s
  apart : tokens.IsChain (fun a b => ¬ (isLit a ∧ isLit b))

inductive Outcome (pattern : Str) : Except CompileError (List Token) → Prop
  | unbalancedBrace {ps : List Piece} {t : Str} (hps : Scanned ps)
      (hread : ∀ p ∈ ps, ∃ tok, Reads p tok) (ht : Unclosed t)
      (h : pattern = ps.flatMap Piece.text ++ '%' :: '{' :: t) :
      Outcome pattern (.error (.unbalancedBrace pattern))
  | badCapture {ps : List Piece} {content rest : Str} (hps : Scanned ps)
      (hread : ∀ p ∈ ps, ∃ tok, Reads p tok) (hb : Balanced content)
      (hc : 3 < (components content).length)
      (h : pattern = ps.flatMap Piece.text ++ (Piece.capture content).text ++ rest) :
      Outcome pattern (.error (.badCapture content))
  | tokens {tokens : List Token} (h : Lossless pattern tokens) : Outcome pattern (.ok tokens)

theorem part_eq_ok {e : CompileError} {p : Piece} {tok : Token} :
    Piece.part ⟨.literal, parseCapture, e⟩ p = .ok tok ↔ Reads p tok := by
  cases p with
  | literal s =>
    constructor
    · intro h
      cases h
      exact .literal s
    · intro h
      cases h
      rfl
  | capture content =>
    constructor
    · exact .capture
    · intro h
      cases h with
      | capture h => exact h

theorem part_eq_error {e e' : CompileError} {p : Piece}
    (h : Piece.part ⟨.literal, parseCapture, e⟩ p = .error e') :
    ∃ content, p = .capture content ∧ 3 < (components content).length ∧
      e' = .badCapture content := by
  cases p with
  | literal s => cases h
  | capture content =>
    have hlt : 3 < (components content).length := by
      by_contra hle
      obtain ⟨tok, htok⟩ := parseCapture_ok_iff.mpr (Nat.le_of_not_lt hle)
      have herr : parseCapture content = .error e' := h
      rw [htok] at herr
      cases herr
    have herr := (parseCapture_error hlt).symm.trans h
    cases herr
    exact ⟨content, rfl, hlt, rfl⟩

theorem isLit_reads {p : Piece} {tok : Token} (h : Reads p tok) : isLit tok = isLiteral p := by
  cases h with
  | literal s => rfl
  | capture h =>
    cases tok with
    | literal s => exact absurd rfl ((render_capture h).2 s)
    | capture _ _ _ => rfl

theorem lossless_reads {ps : List Piece} {tokens : List Token} (hps : Scanned ps)
    (h : List.Forall₂ Reads ps tokens) : Lossless (ps.flatMap Piece.text) tokens := by
  induction h with
  | nil => exact ⟨rfl, by simp, by simp, .nil⟩
  | @cons p tok ps tokens hp htail ih =>
    have hscan : Scanned ps := by
      cases p with
      | literal run => exact hps.2.2.2
      | capture content => exact hps.2
    have htok := ih hscan
    have hlit : ∀ s, tok = .literal s → s ≠ [] ∧ ¬ ['%', '{'] <:+: s := by
      rintro s rfl
      cases literal_of_reads hp
      exact ⟨hps.1, hps.2.1⟩
    refine ⟨?_, ?_, ?_, ?_⟩
    · rw [List.flatMap_cons, List.flatMap_cons, render_reads hp, htok.rendered]
    · intro s hs
      obtain hs | hs := List.mem_cons.mp hs
      · exact (hlit s hs.symm).1
      · exact htok.nonempty s hs
    · intro s hs
      obtain hs | hs := List.mem_cons.mp hs
      · exact (hlit s hs.symm).2
      · exact htok.closed s hs
    · cases htail with
      | nil => exact .singleton tok
      | @cons q tok' ps tokens hq htail =>
        refine .cons_cons ?_ htok.apart
        rw [isLit_reads hp, isLit_reads hq]
        cases p with
        | literal run => simpa [isLiteral] using hps.2.2.1
        | capture content => simp [isLiteral]

theorem tokenize_outcome (pattern : Str) : Outcome pattern (Compile.tokenize pattern) := by
  rw [Compile.tokenize]
  generalize he : GrokError.unbalancedBrace pattern = e
  obtain ⟨ps, rest, hps, hrest, rfl⟩ := exists_pieces pattern
  have hread : ∀ qs : List Piece, (∀ q ∈ qs, ∃ tok,
      Piece.part ⟨.literal, parseCapture, e⟩ q = .ok tok) → ∀ q ∈ qs, ∃ tok, Reads q tok := by
    intro qs hqs q hq
    obtain ⟨tok, htok⟩ := hqs q hq
    exact ⟨tok, part_eq_ok.mp htok⟩
  obtain ⟨tokens, htokens, hall⟩ | ⟨qs, p, qs', e', rfl, hqs, hp, he'⟩ :=
    Traverse.mapM_cases (Piece.part ⟨.literal, parseCapture, e⟩) ps
  · cases hrest with
    | done =>
      rw [List.append_nil, tokenize_scanned _ hps, htokens]
      exact .tokens (lossless_reads hps (hall.imp fun _ _ h => part_eq_ok.mp h))
    | unclosed ht =>
      rw [tokenize_unclosed _ hps ht, htokens]
      subst he
      exact .unbalancedBrace hps (hread ps (Traverse.mapM_ok_iff.mp ⟨tokens, htokens⟩)) ht rfl
  · -- the scan has stopped before the end of the pieces
    have hr : AtCapture rest := by
      cases hrest with
      | done => exact Or.inl rfl
      | unclosed ht => exact Or.inr ⟨_, rfl⟩
    rw [tokenize_append _ hps hr, he']
    obtain ⟨content, rfl, hc, rfl⟩ := part_eq_error hp
    exact .badCapture hps.of_append (hread qs hqs) (hps.balanced (by simp)) hc
      (by simp only [List.flatMap_append, List.flatMap_cons, List.append_assoc]; rfl)

/-- Every pattern is tokenized without a panic. Either a capture is not closed,
or one has too many components, or the tokens hold the whole pattern. -/
theorem tokenize_lossless (pattern : Str) :
    ∃ out, tokenizeBytes pattern = .ok out ∧ Outcome pattern out :=
  ⟨_, tokenizeBytes_eq pattern, tokenize_outcome pattern⟩

end Lossless

section Agreement

open TptTelemetry.Dsl.Parser (SchemaError parseType isType patternSyntax)

def tokenizePatternBytes (input : Str) : Except Panic (Except SchemaError Pattern) :=
  (TemplateBytes.tokenizeBytes patternSyntax input).map (·.map Pattern.mk)

/-- A piece of a pattern and the part that the schema crate makes of it. -/
inductive Parses : Piece → PatternPart → Prop
  | literal (s : Str) : Parses (.literal s) (.literal s)
  | capture {content : Str} {c : PatternCapture} (h : Dsl.Parser.parseCapture content = .ok c) :
      Parses (.capture content) (.capture c)

/-- The two tokenizers agree on a pattern: what the schema crate accepts the
Grok engine accepts, with the same pieces, and what the latter rejects the
former rejects. -/
def Agree (p : Str) : Prop :=
  (∀ pattern, tokenizePatternBytes p = .ok (.ok pattern) → ∃ ps tokens,
    pieces p = some ps ∧ tokenizeBytes p = .ok (.ok tokens) ∧
      List.Forall₂ Parses ps pattern.parts ∧ List.Forall₂ Reads ps tokens) ∧
  ((∃ e, tokenizeBytes p = .ok (.error e)) → ∃ e, tokenizePatternBytes p = .ok (.error e))

def UnknownType (content : Str) : Prop := ∃ x, (components content)[2]? = some x ∧ isType x = false

theorem tokenizePatternBytes_eq (p : Str) :
    tokenizePatternBytes p = .ok (Dsl.Parser.tokenizePattern p) := by
  rw [tokenizePatternBytes, TemplateBytes.tokenizeBytes_eq]
  rfl

theorem parseType_ok_iff {x : Str} : (∃ t, parseType x = .ok t) ↔ isType x = true := by
  simp only [Dsl.Print.parseType_eq_ok, Dsl.Print.isType_iff]

theorem schemaCapture_ok_iff {content : Str} :
    (∃ c, Dsl.Parser.parseCapture content = .ok c) ↔ ¬ UnknownType content := by
  rw [UnknownType, Dsl.Parser.parseCapture, components]
  have hne := List.splitOn_ne_nil ':' content
  rcases hparts : content.splitOn ':' with _ | ⟨name, _ | ⟨x, _ | ⟨y, more⟩⟩⟩
  · exact absurd hparts hne
  · exact iff_of_true ⟨_, rfl⟩ (by simp)
  · refine iff_of_true ?_ (by simp)
    by_cases hx : isType x
    · obtain ⟨t, ht⟩ := parseType_ok_iff.mpr hx
      simp only [hx, ht, if_true]
      exact ⟨_, rfl⟩
    · simp only [hx]
      exact ⟨_, rfl⟩
  · by_cases hy : isType y
    · obtain ⟨t, ht⟩ := parseType_ok_iff.mpr hy
      simp only [ht]
      exact iff_of_true ⟨_, rfl⟩ (by simp [hy])
    · refine iff_of_false ?_ (by simp [hy])
      rintro ⟨c, hc⟩
      cases ht : parseType y with
      | error e =>
        simp only [ht] at hc
        cases hc
      | ok t => exact hy (parseType_ok_iff.mp ⟨t, ht⟩)

theorem patternPart_eq_ok {p : Piece} {part : PatternPart} :
    Piece.part patternSyntax p = .ok part ↔ Parses p part := by
  cases p with
  | literal s =>
    constructor
    · intro h
      cases h
      exact .literal s
    · intro h
      cases h
      rfl
  | capture content =>
    have hpart : Piece.part patternSyntax (.capture content) =
        (Dsl.Parser.parseCapture content).map .capture := rfl
    rw [hpart]
    constructor
    · intro h
      cases hc : Dsl.Parser.parseCapture content with
      | error e =>
        rw [hc] at h
        cases h
      | ok c =>
        rw [hc] at h
        cases h
        exact .capture hc
    · intro h
      cases h with
      | capture hc =>
        rw [hc]
        rfl

theorem tokenize_error_of_no_pieces {p : Str} (hp : pieces p = none) :
    (∃ e, Compile.tokenize p = .error e) ∧ ∃ e, Dsl.Parser.tokenizePattern p = .error e := by
  refine ⟨tokenize_of_no_pieces _ hp, ?_⟩
  obtain ⟨e, he⟩ := tokenize_of_no_pieces patternSyntax hp
  exact ⟨e, by rw [Dsl.Parser.tokenizePattern, he]; rfl⟩

theorem parses_of_pieces {p : Str} {ps : List Piece} {pattern : Pattern} (hp : pieces p = some ps)
    (h : Dsl.Parser.tokenizePattern p = .ok pattern) : List.Forall₂ Parses ps pattern.parts := by
  rw [Dsl.Parser.tokenizePattern] at h
  cases hparts : Template.tokenize patternSyntax p with
  | error e =>
    rw [hparts] at h
    cases h
  | ok parts =>
    rw [hparts] at h
    cases h
    exact (parts_of_pieces _ hp hparts).imp fun _ _ h => patternPart_eq_ok.mp h

theorem grok_ok_iff {p : Str} {ps : List Piece} (hp : pieces p = some ps) :
    (∃ tokens, Compile.tokenize p = .ok tokens) ↔
      ∀ content, .capture content ∈ ps → (components content).length ≤ 3 := by
  rw [Compile.tokenize, tokenize_ok_iff _ hp]
  simp only [parseCapture_ok_iff]

theorem schema_ok_iff {p : Str} {ps : List Piece} (hp : pieces p = some ps) :
    (∃ pattern, Dsl.Parser.tokenizePattern p = .ok pattern) ↔
      ∀ content, .capture content ∈ ps → ¬ UnknownType content := by
  have hmap : ∀ {β γ δ : Type} {x : Except β γ} {f : γ → δ},
      (∃ y, x.map f = .ok y) ↔ ∃ y, x = .ok y := by
    intro β γ δ x f
    cases x <;> simp [Except.map]
  rw [Dsl.Parser.tokenizePattern, hmap, tokenize_ok_iff _ hp]
  simp only [patternSyntax, hmap, schemaCapture_ok_iff]

/-- The tokenizers agree exactly on the patterns with a capture that is not
closed or whose third component is no type, and on those with no capture of more
than three components. -/
theorem agree_iff (p : Str) : Agree p ↔ pieces p = none ∨ ∃ ps, pieces p = some ps ∧
    ((∃ content, .capture content ∈ ps ∧ UnknownType content) ∨
      ∀ content, .capture content ∈ ps → (components content).length ≤ 3) := by
  simp only [Agree, tokenizePatternBytes_eq, tokenizeBytes_eq, Except.ok.injEq]
  cases hp : pieces p with
  | none =>
    obtain ⟨-, e, he⟩ := tokenize_error_of_no_pieces hp
    refine iff_of_true ⟨fun pattern h => ?_, fun _ => ⟨e, he⟩⟩ (Or.inl rfl)
    rw [he] at h
    cases h
  | some ps =>
    constructor
    · rintro ⟨haccept, -⟩
      refine Or.inr ⟨ps, rfl, ?_⟩
      by_cases hbad : ∃ content, .capture content ∈ ps ∧ UnknownType content
      · exact Or.inl hbad
      · push Not at hbad
        obtain ⟨pattern, hpattern⟩ := (schema_ok_iff hp).mpr hbad
        obtain ⟨-, tokens, -, htokens, -⟩ := haccept pattern hpattern
        exact Or.inr ((grok_ok_iff hp).mp ⟨tokens, htokens⟩)
    · rintro (h | ⟨ps', hps', hcond⟩)
      · cases h
      cases hps'
      have himp : (∃ pattern, Dsl.Parser.tokenizePattern p = .ok pattern) →
          ∃ tokens, Compile.tokenize p = .ok tokens := by
        intro hschema
        obtain ⟨content, hc, hbad⟩ | hall := hcond
        · exact absurd hbad ((schema_ok_iff hp).mp hschema content hc)
        · exact (grok_ok_iff hp).mpr hall
      refine ⟨fun pattern hpattern => ?_, fun herror => ?_⟩
      · obtain ⟨tokens, htokens⟩ := himp ⟨pattern, hpattern⟩
        refine ⟨ps, tokens, rfl, htokens, ?_, ?_⟩
        · exact parses_of_pieces hp hpattern
        · exact (parts_of_pieces _ hp htokens).imp fun _ _ h => part_eq_ok.mp h
      · obtain ⟨e, he⟩ := herror
        cases hschema : Dsl.Parser.tokenizePattern p with
        | error e' => exact ⟨e', rfl⟩
        | ok pattern =>
          obtain ⟨tokens, htokens⟩ := himp ⟨pattern, hschema⟩
          rw [he] at htokens
          cases htokens

/-- The schema crate drops the fourth component. -/
theorem not_agree_four : ¬ Agree "%{A:f:int:x}".toList := by
  rintro ⟨haccept, -⟩
  obtain ⟨-, tokens, -, htokens, -⟩ := haccept ⟨[.capture ⟨['A'], .int, true, some ['f']⟩]⟩ (by
    rw [tokenizePatternBytes_eq]
    decide)
  have herr : Compile.tokenize "%\x7bA:f:int:x\x7d".toList =
      .error (.badCapture "A:f:int:x".toList) := by decide
  rw [tokenizeBytes_eq, herr] at htokens
  cases htokens

end Agreement

end TptTelemetry.GrokEngine.Tokenizer
