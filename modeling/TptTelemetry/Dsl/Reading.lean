import TptTelemetry.Dsl.Print

namespace TptTelemetry.Dsl.Reading

open TptTelemetry.Lib TptTelemetry.Lib.Text TptTelemetry.Lib.Peg
open TptTelemetry.Dsl.Ast TptTelemetry.Dsl.Grammar TptTelemetry.Dsl.Parser TptTelemetry.Dsl.Print

section Skipping

def Solid : Str → Prop
  | [] => False
  | c :: _ => c ∉ [' ', '\t', '\r', '\n', '/']

instance : (t : Str) → Decidable (Solid t)
  | [] => inferInstanceAs (Decidable False)
  | c :: _ => inferInstanceAs (Decidable (c ∉ [' ', '\t', '\r', '\n', '/']))

theorem head_ne_of_solid {t : Str} {d : Char} (h : Solid t) (hd : d ∈ [' ', '\t', '\r', '\n', '/'])
    (s : Str) : (t ++ s).head? ≠ some d := by
  cases t with
  | nil => exact h.elim
  | cons e t =>
    rintro ⟨⟩
    exact h hd

theorem comment_solid {t : Str} (h : Solid t) (s : Str) : comment (t ++ s) = none :=
  seq_none (lit_none rfl (head_ne_of_solid h (by decide) s))

theorem whitespace_solid {t : Str} (h : Solid t) (s : Str) : whitespace (t ++ s) = none := by
  have hspace : word " " (t ++ s) = none := lit_none rfl (head_ne_of_solid h (by decide) s)
  have htab : word "\t" (t ++ s) = none := lit_none rfl (head_ne_of_solid h (by decide) s)
  have hcr : word "\r" (t ++ s) = none := lit_none rfl (head_ne_of_solid h (by decide) s)
  have hlf : word "\n" (t ++ s) = none := lit_none rfl (head_ne_of_solid h (by decide) s)
  simp only [whitespace, alts, List.foldr_cons, List.foldr_nil, alt, hspace, htab, hcr, hlf,
    comment_solid h]

theorem skipsTo_solid : SkipsTo skip Solid := by
  intro ts hts
  cases ts with
  | nil => exact ⟨rfl, rfl⟩
  | cons t ts =>
    have ht := hts t (by simp)
    have hstop := whitespace_solid ht (spaced ts)
    have hspace : Rounds whitespace 1 (' ' :: (t ++ spaced ts)) ([] ++ []) (t ++ spaced ts) :=
      Rounds.cons rfl (Rounds.nil _)
    have hcomments : star (seq comment (star whitespace)) (t ++ spaced ts) =
        some ([], t ++ spaced ts) := star_none (seq_none (comment_solid ht (spaced ts)))
    constructor
    · exact seq_some (star_of_rounds hspace hstop (by simp)) hcomments
    · exact seq_some (star_none hstop) hcomments

end Skipping

section Tokens

theorem reads_word {w : String} (h : Solid w.toList) : Reads Solid (word w) [w.toList] [] :=
  reads_lit h

def identPair (a : Str) : Pair Rule := ⟨.ident, a, []⟩

theorem satisfy_or_underscore (f : Char → Bool) :
    alt (satisfy f) (word "_") = satisfy (fun c => f c || c == '_') := by
  funext s
  cases s with
  | nil => rfl
  | cons c s =>
    by_cases hf : f c
    · simp [alt, satisfy, hf]
    · by_cases hc : c = '_'
      · subst hc
        simp [alt, satisfy, hf, word, lit]
      · have hw : word "_" (c :: s) = none := lit_none (c := '_') rfl (by simpa using hc)
        simp [alt, satisfy, hf, hc, hw]

theorem head_spaced {c : Char} {us : List Str} (h : c ∈ (spaced us).head?) : c = ' ' := by
  cases us with
  | nil => cases h
  | cons u us =>
    cases h
    rfl

theorem solid_ident {a : Str} (h : IsIdent a) : Solid a := by
  cases a with
  | nil => exact h.elim
  | cons c s =>
    intro hc
    simp only [List.mem_cons, List.not_mem_nil, or_false] at hc
    obtain rfl | rfl | rfl | rfl | rfl := hc <;> exact absurd h.1 (by decide)

theorem reads_ident {a : Str} (h : IsIdent a) : Reads Solid ident [a] [identPair a] where
  solid := by simpa using solid_ident h
  reads us _ := by
    cases a with
    | nil => exact h.elim
    | cons c s =>
      obtain ⟨hc, hs⟩ := h
      apply rule_some
      rw [satisfy_or_underscore, satisfy_or_underscore]
      have hfirst : satisfy (ρ := Rule) (fun c => c.isAlpha || c == '_') (c :: s ++ spaced us) =
          some ([], s ++ spaced us) := if_pos (by simpa using hc)
      apply seq_some hfirst
      apply star_satisfy
      · intro d hd
        simpa using hs d hd
      · intro d hd
        rw [head_spaced hd]
        decide

def stringPair (s : Str) : Pair Rule := ⟨.string, quoted s, [⟨.inner, s, []⟩]⟩

theorem not_quote_any : seq (notP (word "\"")) any = satisfy (fun c => c != '"') := by
  funext s
  cases s with
  | nil => rfl
  | cons c s =>
    by_cases hc : c = '"'
    · subst hc
      rfl
    · have hw : word "\"" (c :: s) = none := lit_none (c := '"') rfl (by simpa using hc)
      simp [seq, notP, hw, any, satisfy, hc]

theorem solid_quoted (s : Str) : Solid (quoted s) := by
  change '"' ∉ [' ', '\t', '\r', '\n', '/']
  decide

theorem reads_string {s : Str} (h : '"' ∉ s) : Reads Solid string [quoted s] [stringPair s] where
  solid := by simpa using solid_quoted s
  reads us _ := by
    have hinner : inner (s ++ '"' :: spaced us) = some ([⟨.inner, s, []⟩], '"' :: spaced us) := by
      apply rule_some
      rw [not_quote_any]
      apply star_satisfy
      · intro c hc
        simpa using ne_of_mem_of_not_mem hc h
      · simp
    have htext : joined ([quoted s] ++ us) = quoted s ++ spaced us := rfl
    rw [htext]
    apply rule_some
    have hq : quoted s ++ spaced us = '"' :: (s ++ '"' :: spaced us) := by simp [quoted]
    rw [hq]
    have hopen : word "\"" ('"' :: (s ++ '"' :: spaced us)) = some ([], s ++ '"' :: spaced us) :=
      rfl
    have hclose : word "\"" ('"' :: spaced us) = some ([], spaced us) := rfl
    exact seq_some hopen (seq_some hinner hclose)

def typePair (t : TypeName) : Pair Rule := ⟨.typeName, typeWord t, []⟩

/-- The choice of `type_name` takes `ip` where `ipv4` or `ipv6` is written. -/
theorem reads_typeName {t : TypeName} (h4 : t ≠ .ipv4) (h6 : t ≠ .ipv6) :
    Reads Solid typeName [typeWord t] [typePair t] where
  solid := by
    intro u hu
    cases List.mem_singleton.mp hu
    cases t <;> decide
  reads us _ := by
    have htext : joined ([typeWord t] ++ us) = typeWord t ++ spaced us := rfl
    rw [htext]
    apply rule_some
    cases t <;> first | contradiction | rfl

def modePair (m : RedactMode) : Pair Rule := ⟨.redactMode, modeWord m, []⟩

theorem reads_redactMode (m : RedactMode) : Reads Solid redactMode [modeWord m] [modePair m] where
  solid := by
    intro u hu
    cases List.mem_singleton.mp hu
    cases m <;> decide
  reads us _ := by
    have htext : joined ([modeWord m] ++ us) = modeWord m ++ spaced us := rfl
    rw [htext]
    apply rule_some
    cases m <;> rfl

end Tokens

section Statements

def patternPair (p : Pattern) : Pair Rule :=
  ⟨.patternDecl, joined (patternTokens p), [stringPair (patternText p)]⟩

theorem reads_patternDecl {p : Pattern} (h : '"' ∉ patternText p) :
    Reads Solid patternDecl (patternTokens p) [patternPair p] := by
  apply Reads.rule (by simp [patternTokens])
  have hend := (reads_string h).seq skipsTo_solid (reads_word (w := ";") (by decide))
  have hcolon := (reads_word (w := ":") (by decide)).seq skipsTo_solid hend
  exact (reads_word (w := "pattern") (by decide)).seq skipsTo_solid hcolon

def extractPair (e : Extract) : Pair Rule :=
  ⟨.extractDecl, joined (extractTokens e),
    [identPair e.field, identPair e.source, stringPair e.regex]⟩

theorem reads_extractDecl {e : Extract} (hf : IsIdent e.field) (hs : IsIdent e.source)
    (hr : '"' ∉ e.regex) : Reads Solid extractDecl (extractTokens e) [extractPair e] := by
  apply Reads.rule (by simp [extractTokens])
  have hend := (reads_string hr).seq skipsTo_solid (reads_word (w := ";") (by decide))
  have hregex := (reads_word (w := "regex") (by decide)).seq skipsTo_solid hend
  have husing := (reads_word (w := "using") (by decide)).seq skipsTo_solid hregex
  have hsource := (reads_ident hs).seq skipsTo_solid husing
  have hfrom := (reads_word (w := "from") (by decide)).seq skipsTo_solid hsource
  have hfield := (reads_ident hf).seq skipsTo_solid hfrom
  exact (reads_word (w := "extract") (by decide)).seq skipsTo_solid hfield

def enumPair (variants : List Str) : Pair Rule :=
  ⟨.enumDecl, joined (targetTokens (.enum variants)), variants.map identPair⟩

theorem reads_enumDecl {variants : List Str} (hne : variants ≠ [])
    (h : ∀ v ∈ variants, IsIdent v) :
    Reads Solid enumDecl (targetTokens (.enum variants)) [enumPair variants] := by
  cases variants with
  | nil => exact absurd rfl hne
  | cons v vs =>
    have hpairs : (v :: vs).map identPair =
        identPair v :: (vs.flatMap (fun w => [identPair w]) ++ []) := by
      simp [List.map_eq_flatMap]
    have hitem : ∀ w ∈ vs, Reads Solid (chain skip [word ",", ident]) [",".toList, w]
        [identPair w] := by
      intro w hw
      have hident := reads_ident (h w (by simp [hw]))
      exact (reads_word (w := ",") (by decide)).seq skipsTo_solid hident
    have hrest := Reads.repeats skipsTo_solid hitem (by simp) (reads_word (w := "\x7d") (by decide))
      (fun us => seq_none rfl)
    have hfirst := (reads_ident (h v (by simp))).seq skipsTo_solid hrest
    have hopen := (reads_word (w := "\x7b") (by decide)).seq skipsTo_solid hfirst
    apply Reads.rule (by simp [targetTokens])
    rw [hpairs]
    exact (reads_word (w := "enum") (by decide)).seq skipsTo_solid hopen

/-- The target is one that the ordered choice of `type_name` can read. -/
def Readable (target : CoercionTarget) : Prop := target ≠ .type .ipv4 ∧ target ≠ .type .ipv6

def targetPair (target : CoercionTarget) : Pair Rule :=
  ⟨.coerceTarget, joined (targetTokens target),
    [match target with
      | .type t => typePair t
      | .enum variants => enumPair variants]⟩

theorem reads_coerceTarget {target : CoercionTarget} (h : NormalTarget target)
    (hr : Readable target) :
    Reads Solid coerceTarget (targetTokens target) [targetPair target] := by
  cases target with
  | type t =>
    have ht := reads_typeName (fun h => hr.1 (congrArg _ h)) (fun h => hr.2 (congrArg _ h))
    apply Reads.rule (by simp [targetTokens])
    refine ⟨ht.solid, fun us hus => ?_⟩
    have hne : enumDecl (typeWord t ++ spaced us) = none :=
      rule_none (seq_none (by cases t <;> rfl))
    exact (alts_none hne).trans (alts_some (ht.reads us hus))
  | enum variants =>
    have he := reads_enumDecl h.1 h.2
    apply Reads.rule (by simp [targetTokens])
    exact ⟨he.solid, fun us hus => alts_some (he.reads us hus)⟩

def coercePair (c : Coercion) : Pair Rule :=
  ⟨.coerceDecl, joined (coerceTokens c), [identPair c.field, targetPair c.target]⟩

theorem reads_coerceDecl {c : Coercion} (hf : IsIdent c.field) (ht : NormalTarget c.target)
    (hr : Readable c.target) : Reads Solid coerceDecl (coerceTokens c) [coercePair c] := by
  apply Reads.rule (by simp [coerceTokens])
  have hend := (reads_coerceTarget ht hr).seq skipsTo_solid (reads_word (w := ";") (by decide))
  have hto := (reads_word (w := "to") (by decide)).seq skipsTo_solid hend
  have hfield := (reads_ident hf).seq skipsTo_solid hto
  exact (reads_word (w := "coerce") (by decide)).seq skipsTo_solid hfield

def redactPair (r : Redaction) : Pair Rule :=
  ⟨.redactDecl, joined (redactTokens r), [identPair r.field, modePair r.mode]⟩

theorem reads_redactDecl {r : Redaction} (hf : IsIdent r.field) :
    Reads Solid redactDecl (redactTokens r) [redactPair r] := by
  apply Reads.rule (by simp [redactTokens])
  have hend := (reads_redactMode r.mode).seq skipsTo_solid (reads_word (w := ";") (by decide))
  have hwith := (reads_word (w := "with") (by decide)).seq skipsTo_solid hend
  have hfield := (reads_ident hf).seq skipsTo_solid hwith
  exact (reads_word (w := "redact") (by decide)).seq skipsTo_solid hfield

inductive Stmt
  | pattern (p : Pattern)
  | extract (e : Extract)
  | coerce (c : Coercion)
  | redact (r : Redaction)

def Stmt.tokens : Stmt → List Str
  | .pattern p => patternTokens p
  | .extract e => extractTokens e
  | .coerce c => coerceTokens c
  | .redact r => redactTokens r

def Stmt.pair : Stmt → Pair Rule
  | .pattern p => patternPair p
  | .extract e => extractPair e
  | .coerce c => coercePair c
  | .redact r => redactPair r

def Stmt.Printable : Stmt → Prop
  | .pattern p => Template.Normal (p.parts.map partPiece) ∧ ∀ part ∈ p.parts, NormalPart part
  | .extract e => IsIdent e.field ∧ IsIdent e.source ∧ '"' ∉ e.regex
  | .coerce c => IsIdent c.field ∧ NormalTarget c.target ∧ Readable c.target
  | .redact r => IsIdent r.field

theorem Stmt.tokens_ne_nil (i : Stmt) : i.tokens ≠ [] := by
  cases i <;> simp [Stmt.tokens, patternTokens, extractTokens, coerceTokens, redactTokens]

theorem reads_stmt {i : Stmt} (h : i.Printable) : Reads Solid stmt i.tokens [i.pair] := by
  -- the alternatives before the one that reads the statement fail at its first letter
  cases i with
  | pattern p =>
    have hp := reads_patternDecl (not_mem_patternText h.2)
    exact ⟨hp.solid, fun us hus => alts_some (hp.reads us hus)⟩
  | extract e =>
    have he := reads_extractDecl h.1 h.2.1 h.2.2
    refine ⟨he.solid, fun us hus => ?_⟩
    have hp : patternDecl (joined (extractTokens e ++ us)) = none := rule_none (seq_none rfl)
    change stmt (joined (extractTokens e ++ us)) = _
    rw [stmt, alts_none hp, alts_some (he.reads us hus)]
    rfl
  | coerce c =>
    have hc := reads_coerceDecl h.1 h.2.1 h.2.2
    refine ⟨hc.solid, fun us hus => ?_⟩
    have hp : patternDecl (joined (coerceTokens c ++ us)) = none := rule_none (seq_none rfl)
    have he : extractDecl (joined (coerceTokens c ++ us)) = none := rule_none (seq_none rfl)
    change stmt (joined (coerceTokens c ++ us)) = _
    rw [stmt, alts_none hp, alts_none he, alts_some (hc.reads us hus)]
    rfl
  | redact r =>
    have hr := reads_redactDecl h
    refine ⟨hr.solid, fun us hus => ?_⟩
    have hp : patternDecl (joined (redactTokens r ++ us)) = none := rule_none (seq_none rfl)
    have he : extractDecl (joined (redactTokens r ++ us)) = none := rule_none (seq_none rfl)
    have hc : coerceDecl (joined (redactTokens r ++ us)) = none := rule_none (seq_none rfl)
    change stmt (joined (redactTokens r ++ us)) = _
    rw [stmt, alts_none hp, alts_none he, alts_none hc, alts_some (hr.reads us hus)]
    rfl

def statements (f : Format) : List Stmt :=
  .pattern f.pattern :: (f.extracts.map .extract ++
    (f.coercions.map .coerce ++ f.redactions.map .redact))

theorem formatTokens_eq (f : Format) : formatTokens f =
    ["format".toList, f.name, "\x7b".toList] ++
      ((statements f).flatMap Stmt.tokens ++ ["\x7d".toList]) := by
  simp [formatTokens, statements, Stmt.tokens, List.flatMap_map]

theorem printable_statements {f : Format} (h : NormalFormat f)
    (hr : ∀ c ∈ f.coercions, Readable c.target) : ∀ i ∈ statements f, i.Printable := by
  intro i hi
  simp only [statements, List.mem_cons, List.mem_append, List.mem_map] at hi
  obtain rfl | ⟨e, he, rfl⟩ | ⟨c, hc, rfl⟩ | ⟨r, hr', rfl⟩ := hi
  · exact ⟨h.pieces, h.parts⟩
  · exact h.extracts e he
  · exact ⟨(h.coercions c hc).1, (h.coercions c hc).2, hr c hc⟩
  · exact h.redactions r hr'

def formatPair (f : Format) : Pair Rule :=
  ⟨.formatBlock, joined (formatTokens f), identPair f.name :: (statements f).map Stmt.pair⟩

theorem reads_formatBlock {f : Format} (h : NormalFormat f)
    (hr : ∀ c ∈ f.coercions, Readable c.target) :
    Reads Solid formatBlock (formatTokens f) [formatPair f] := by
  have hstmts := Reads.repeats skipsTo_solid
    (fun i hi => reads_stmt (printable_statements h hr i hi))
    (fun i _ => Stmt.tokens_ne_nil i)
    (reads_word (w := "\x7d") (by decide)) (fun us => rfl)
  have hopen := (reads_word (w := "\x7b") (by decide)).seq skipsTo_solid hstmts
  have hname := (reads_ident h.name).seq skipsTo_solid hopen
  have hpairs : identPair f.name :: (statements f).map Stmt.pair =
      identPair f.name :: ((statements f).flatMap (fun i => [i.pair]) ++ []) := by
    simp [List.map_eq_flatMap]
  apply Reads.rule (by simp [formatTokens])
  rw [hpairs, formatTokens_eq]
  exact (reads_word (w := "format") (by decide)).seq skipsTo_solid hname

def eoiPair : Pair Rule := ⟨.eoi, [], []⟩

theorem schema_print {schema : Schema} (h : NormalSchema schema)
    (hr : ∀ f ∈ schema.formats, ∀ c ∈ f.coercions, Readable c.target) :
    ∃ text, Grammar.schema (print schema) =
      some ([⟨.schema, text, schema.formats.map formatPair ++ [eoiPair]⟩], []) := by
  have hblock : ∀ f ∈ schema.formats, Reads Solid formatBlock (formatTokens f) [formatPair f] :=
    fun f hf => reads_formatBlock (h.formats f hf) (hr f hf)
  have hsolid := solid_flatMap (fun f hf => (hblock f hf).solid)
  have hend : eoi Rule.eoi (joined []) = some ([eoiPair], []) := rfl
  have hblocks := repeats_items skipsTo_solid hblock (fun f _ => by simp [formatTokens])
    (by simp) rfl hend
  rw [List.append_nil, ← List.map_eq_flatMap] at hblocks
  have hstart := seq_some (skipsTo_solid _ hsolid).2 hblocks
  exact ⟨_, rule_eq_some.mpr ⟨_, seq_some rfl hstart, rfl⟩⟩

end Statements

end TptTelemetry.Dsl.Reading
