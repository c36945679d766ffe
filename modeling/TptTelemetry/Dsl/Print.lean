import TptTelemetry.Dsl.Parser

namespace TptTelemetry.Dsl.Print

open TptTelemetry.Lib TptTelemetry.Lib.Text TptTelemetry.Lib.Peg
open TptTelemetry.Dsl.Ast TptTelemetry.Dsl.Parser

def typeWord : TypeName → Str
  | .int => "int".toList
  | .uint => "uint".toList
  | .float => "float".toList
  | .bool => "bool".toList
  | .string => "string".toList
  | .ipv4 => "ipv4".toList
  | .ipv6 => "ipv6".toList
  | .ip => "ip".toList
  | .mac => "mac".toList
  | .timestamp => "timestamp".toList

/-- The inside of a capture's braces. A Grok capture has no type written when
it is the string type. -/
def captureText (c : PatternCapture) : Str :=
  if c.grok then
    match c.field with
    | none => c.name
    | some f =>
      if c.ty = .string then c.name ++ ':' :: f
      else c.name ++ ':' :: (f ++ ':' :: typeWord c.ty)
  else c.name ++ ':' :: typeWord c.ty

def partPiece : PatternPart → Template.Piece
  | .literal s => .literal s
  | .capture c => .capture (captureText c)

def patternText (p : Pattern) : Str := (p.parts.map partPiece).flatMap Template.Piece.text

def quoted (s : Str) : Str := '"' :: (s ++ ['"'])

section Tokens

def patternTokens (p : Pattern) : List Str :=
  ["pattern".toList, ":".toList, quoted (patternText p), ";".toList]

def extractTokens (e : Extract) : List Str :=
  ["extract".toList, e.field, "from".toList, e.source, "using".toList, "regex".toList,
    quoted e.regex, ";".toList]

def variantTokens : List Str → List Str
  | [] => []
  | v :: vs => v :: vs.flatMap (fun w => [",".toList, w])

def targetTokens : CoercionTarget → List Str
  | .type t => [typeWord t]
  | .enum variants =>
    ["enum".toList, "\x7b".toList] ++ variantTokens variants ++ ["\x7d".toList]

def coerceTokens (c : Coercion) : List Str :=
  ["coerce".toList, c.field, "to".toList] ++ targetTokens c.target ++ [";".toList]

def modeWord : RedactMode → Str
  | .hash => "hash".toList
  | .mask => "mask".toList

def redactTokens (r : Redaction) : List Str :=
  ["redact".toList, r.field, "with".toList, modeWord r.mode, ";".toList]

def formatTokens (f : Format) : List Str :=
  ["format".toList, f.name, "\x7b".toList] ++ patternTokens f.pattern ++
    f.extracts.flatMap extractTokens ++ f.coercions.flatMap coerceTokens ++
    f.redactions.flatMap redactTokens ++ ["\x7d".toList]

def print (schema : Schema) : Str := joined (schema.formats.flatMap formatTokens)

end Tokens

section NormalForm

def IsIdent : Str → Prop
  | [] => False
  | c :: s => (c.isAlpha ∨ c = '_') ∧ ∀ d ∈ s, d.isAlphanum ∨ d = '_'

instance : (s : Str) → Decidable (IsIdent s)
  | [] => inferInstanceAs (Decidable False)
  | c :: s =>
    have : Decidable (∀ d ∈ s, d.isAlphanum ∨ d = '_') := List.decidableBAll _ s
    inferInstanceAs (Decidable ((c.isAlpha ∨ c = '_') ∧ ∀ d ∈ s, d.isAlphanum ∨ d = '_'))

def Plain (s : Str) : Prop := ':' ∉ s ∧ '{' ∉ s ∧ '}' ∉ s ∧ '"' ∉ s

instance (s : Str) : Decidable (Plain s) :=
  inferInstanceAs (Decidable (':' ∉ s ∧ '{' ∉ s ∧ '}' ∉ s ∧ '"' ∉ s))

/-- The shapes of a capture: `name:type`, and for Grok patterns `P`, `P:field`
and `P:field:type`. -/
inductive NormalCapture : PatternCapture → Prop
  | native {name : Str} (ty : TypeName) (hn : Plain name) : NormalCapture ⟨name, ty, false, none⟩
  | grok {name : Str} (hn : Plain name) : NormalCapture ⟨name, .string, true, none⟩
  | grokField {name field : Str} (ty : TypeName) (hn : Plain name) (hf : Plain field)
      (ht : isType field = false) : NormalCapture ⟨name, ty, true, some field⟩

def NormalPart : PatternPart → Prop
  | .literal s => '"' ∉ s
  | .capture c => NormalCapture c

def NormalTarget : CoercionTarget → Prop
  | .type _ => True
  | .enum variants => variants ≠ [] ∧ ∀ v ∈ variants, IsIdent v

structure NormalFormat (f : Format) : Prop where
  name : IsIdent f.name
  pieces : Template.Normal (f.pattern.parts.map partPiece)
  parts : ∀ part ∈ f.pattern.parts, NormalPart part
  extracts : ∀ e ∈ f.extracts, IsIdent e.field ∧ IsIdent e.source ∧ '"' ∉ e.regex
  coercions : ∀ c ∈ f.coercions, IsIdent c.field ∧ NormalTarget c.target
  redactions : ∀ r ∈ f.redactions, IsIdent r.field
  distinct : (f.extracts.map Extract.field ++ f.coercions.map Coercion.field).Nodup

structure NormalSchema (schema : Schema) : Prop where
  distinct : (schema.formats.map Format.name).Nodup
  formats : ∀ f ∈ schema.formats, NormalFormat f

end NormalForm

section Patterns

theorem parseType_typeWord (t : TypeName) : parseType (typeWord t) = .ok t := by
  cases t <;> rfl

theorem isType_typeWord (t : TypeName) : isType (typeWord t) = true := by
  cases t <;> rfl

theorem parseType_eq_ok {s : Str} {t : TypeName} : parseType s = .ok t ↔ s = typeWord t := by
  refine ⟨fun h => ?_, fun h => h ▸ parseType_typeWord t⟩
  rw [parseType] at h
  iterate 10
    obtain ⟨hs, ht⟩ | ⟨-, h⟩ := ite_eq_iff.mp h
    · cases ht
      exact hs
  cases h

theorem isType_iff {s : Str} : isType s = true ↔ ∃ t, s = typeWord t := by
  constructor
  · intro h
    simp only [isType, List.map_cons, List.map_nil, List.mem_cons, List.not_mem_nil, or_false,
      decide_eq_true_eq] at h
    obtain h | h | h | h | h | h | h | h | h | h := h
    exacts [⟨.int, h⟩, ⟨.uint, h⟩, ⟨.float, h⟩, ⟨.bool, h⟩, ⟨.string, h⟩, ⟨.ipv4, h⟩, ⟨.ipv6, h⟩,
      ⟨.ip, h⟩, ⟨.mac, h⟩, ⟨.timestamp, h⟩]
  · rintro ⟨t, rfl⟩
    exact isType_typeWord t

theorem plain_typeWord (t : TypeName) : Plain (typeWord t) := by
  cases t <;> decide

theorem parseCapture_captureText {c : PatternCapture} (h : NormalCapture c) :
    parseCapture (captureText c) = .ok c := by
  cases h with
  | @grok name hn =>
    have hs : name.splitOn ':' = [name] := List.splitOn_eq_singleton hn.1
    simp only [captureText, if_true, parseCapture, hs]
  | @native name ty hn =>
    have hs : (name ++ ':' :: typeWord ty).splitOn ':' = [name, typeWord ty] := by
      rw [List.splitOn_append_cons_of_beq _ _ (by rfl), List.splitOn_eq_singleton hn.1,
        List.splitOn_eq_singleton (plain_typeWord ty).1]
      rfl
    simp only [captureText, Bool.false_eq_true, if_false, parseCapture, hs, isType_typeWord,
      if_true, parseType_typeWord]
    rfl
  | @grokField name field ty hn hf ht =>
    by_cases hty : ty = .string
    · have hs : (name ++ ':' :: field).splitOn ':' = [name, field] := by
        rw [List.splitOn_append_cons_of_beq _ _ (by rfl), List.splitOn_eq_singleton hn.1,
          List.splitOn_eq_singleton hf.1]
        rfl
      simp only [captureText, if_true, hty, parseCapture, hs, ht, Bool.false_eq_true, if_false]
    · have hs : (name ++ ':' :: (field ++ ':' :: typeWord ty)).splitOn ':' =
          [name, field, typeWord ty] := by
        rw [List.splitOn_append_cons_of_beq _ _ (by rfl), List.splitOn_eq_singleton hn.1,
          List.splitOn_append_cons_of_beq _ _ (by rfl), List.splitOn_eq_singleton hf.1,
          List.splitOn_eq_singleton (plain_typeWord ty).1]
        rfl
      simp only [captureText, if_true, hty, if_false, parseCapture, hs, parseType_typeWord]
      rfl

/-- Tokenizing the text of a pattern gives its parts back. -/
theorem tokenizePattern_patternText {p : Pattern} (hp : Template.Normal (p.parts.map partPiece))
    (h : ∀ part ∈ p.parts, NormalPart part) : tokenizePattern (patternText p) = .ok p := by
  have hparts : ∀ parts : List PatternPart, (∀ part ∈ parts, NormalPart part) →
      (parts.map partPiece).mapM (Template.Piece.part patternSyntax) = .ok parts := by
    intro parts hparts
    induction parts with
    | nil => rfl
    | cons part parts ih =>
      have hpart : Template.Piece.part patternSyntax (partPiece part) = .ok part := by
        cases part with
        | literal s => rfl
        | capture c =>
          have hc := parseCapture_captureText (hparts (.capture c) (by simp))
          simp only [partPiece, Template.Piece.part, patternSyntax, hc]
          rfl
      rw [List.map_cons, List.mapM_cons, hpart, ih (fun q hq => hparts q (by simp [hq]))]
      rfl
  rw [tokenizePattern, patternText, Template.tokenize_pieces patternSyntax hp, hparts p.parts h]
  rfl

theorem not_mem_captureText {c : PatternCapture} (h : NormalCapture c) : '"' ∉ captureText c := by
  cases h with
  | grok hn => exact hn.2.2.2
  | native ty hn =>
    have ht := (plain_typeWord ty).2.2.2
    simp [captureText, hn.2.2.2, ht]
  | grokField ty hn hf _ =>
    have ht := (plain_typeWord ty).2.2.2
    by_cases hty : ty = .string <;> simp [captureText, hn.2.2.2, hf.2.2.2, ht, hty]

theorem not_mem_patternText {p : Pattern} (h : ∀ part ∈ p.parts, NormalPart part) :
    '"' ∉ patternText p := by
  intro hmem
  obtain ⟨piece, hpiece, hc⟩ := List.mem_flatMap.mp hmem
  obtain ⟨part, hpart, rfl⟩ := List.mem_map.mp hpiece
  cases part with
  | literal s => exact h _ hpart hc
  | capture c =>
    have hnot := not_mem_captureText (h _ hpart)
    simp [partPiece, Template.Piece.text, hnot] at hc

end Patterns

end TptTelemetry.Dsl.Print
