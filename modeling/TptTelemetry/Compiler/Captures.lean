import TptTelemetry.Compiler.Generated
import TptTelemetry.GrokEngine.Tokenizer

namespace TptTelemetry.Compiler.Captures

open TptTelemetry.Lib.Text TptTelemetry.Lib.Template TptTelemetry.Lib.Traverse
open TptTelemetry.Dsl.Ast TptTelemetry.Dsl.Parser TptTelemetry.GrokEngine.Tokenizer
open TptTelemetry.Compiler.Compile TptTelemetry.Compiler.Codegen TptTelemetry.Compiler.Generated

section Types

/-- The schema is accepted, by the compiler or through the generated module, and
compiles to this. -/
def CompilesTo (printable : Char → Bool) (schema : Schema) (cs : CompiledSchema) : Prop :=
  compile schema = .ok cs ∨
    ∃ text, generateRust printable schema = .ok text ∧ evalModule text = some cs

theorem compile_of_compilesTo {printable : Char → Bool} {schema : Schema} {cs : CompiledSchema}
    (h : CompilesTo printable schema cs) : compile schema = .ok cs := by
  obtain h | ⟨text, htext, heval⟩ := h
  · exact h
  · rw [generateRust_eq] at htext
    cases hc : compile schema with
    | error e =>
      rw [hc] at htext
      cases htext
    | ok cs' =>
      rw [hc] at htext
      cases htext
      rw [evalModule_of_lexes (lexes_moduleText printable cs')] at heval
      cases heval
      rfl

theorem segments_of_compile {schema : Schema} {cs : CompiledSchema} (h : compile schema = .ok cs)
    {i : Nat} {fmt : Format} (hi : schema.formats[i]? = some fmt) :
    ∃ cf, cs.formats[i]? = some cf ∧
      List.Forall₂ (fun part seg => compilePart part = .ok seg) fmt.pattern.parts cf.segments := by
  obtain ⟨formats, hformats, h⟩ := bind_eq_ok.mp h
  cases h
  obtain ⟨cf, hcf, hfmt⟩ := getElem?_of_forall₂ (forall₂_of_mapM hformats) hi
  obtain ⟨segments, hsegments, h⟩ := bind_eq_ok.mp hfmt
  cases h
  exact ⟨_, hcf, forall₂_of_mapM hsegments⟩

theorem parseCapture_three {content P f tn : Str} {t : TypeName}
    (hc : components content = [P, f, tn]) (ht : parseType tn = .ok t) :
    parseCapture content = .ok ⟨P, t, true, some f⟩ := by
  rw [components] at hc
  simp only [parseCapture, hc, ht]
  rfl

theorem compileCapture_typed {P f : Str} {t : TypeName} {seg : Seg}
    (h : compileCapture ⟨P, t, true, some f⟩ = .ok seg) :
    seg = .capture f t ↔ t ≠ .string ∨ grokNativeType P = some .string := by
  rw [compileCapture, if_pos rfl] at h
  split at h
  · next hne =>
    cases h
    exact iff_of_true rfl (Or.inl hne)
  · next heq =>
    obtain rfl : t = .string := not_not.mp heq
    split at h
    · next ty hty =>
      cases h
      rw [hty]
      simp
    · cases h

/-- A capture that is written with a type has that type after compilation,
unless the type is `string` and the Grok pattern has another one. -/
theorem written_type_iff {printable : Char → Bool} {input : Str} {pattern : Pattern}
    {ps : List Piece} {k : Nat} {content P f tn : Str} {t : TypeName} {schema : Schema} {i : Nat}
    {fmt : Format} {cs : CompiledSchema} (htok : tokenizePattern input = .ok pattern)
    (hps : pieces input = some ps) (hk : ps[k]? = some (.capture content))
    (hc : components content = [P, f, tn]) (ht : parseType tn = .ok t)
    (hi : schema.formats[i]? = some fmt) (hpat : fmt.pattern = pattern)
    (hcs : CompilesTo printable schema cs) :
    (∃ cf, cs.formats[i]? = some cf ∧ cf.segments[k]? = some (.capture f t)) ↔
      t ≠ .string ∨ grokNativeType P = some .string := by
  obtain ⟨cf, hcf, hsegs⟩ := segments_of_compile (compile_of_compilesTo hcs) hi
  obtain ⟨part, hpart, hparse⟩ := getElem?_of_forall₂ (parses_of_pieces hps htok) hk
  cases hparse with
  | @capture _ c hparse =>
    rw [parseCapture_three hc ht] at hparse
    cases hparse
    rw [← hpat] at hpart
    obtain ⟨seg, hseg, hcompile⟩ := getElem?_of_forall₂ hsegs hpart
    rw [← compileCapture_typed hcompile]
    constructor
    · rintro ⟨cf', hcf', hseg'⟩
      rw [hcf] at hcf'
      cases hcf'
      rw [hseg] at hseg'
      exact Option.some.inj hseg'
    · rintro rfl
      exact ⟨cf, hcf, hseg⟩

/-- The schema of `format G { pattern: "%{P:n:t}"; }`. -/
def typedSchema (P : String) (t : TypeName) : Schema :=
  ⟨[⟨"G".toList, ⟨[.capture ⟨P.toList, t, true, some "n".toList⟩]⟩, [], [], []⟩]⟩

def typedCompiled (ty : TypeName) : CompiledSchema :=
  ⟨[⟨"G".toList, [.capture "n".toList ty], [], []⟩]⟩

theorem written_int : ∃ cf, (typedCompiled .int).formats[0]? = some cf ∧
    cf.segments[0]? = some (.capture "n".toList .int) := by
  have hcs : CompilesTo (fun _ => true) (typedSchema "NUMBER" .int) (typedCompiled .int) :=
    Or.inl (by decide)
  have htok : tokenizePattern "%\x7bNUMBER:n:int\x7d".toList =
      .ok ⟨[.capture ⟨"NUMBER".toList, .int, true, some "n".toList⟩]⟩ := by decide
  have hps : pieces "%\x7bNUMBER:n:int\x7d".toList = some [.capture "NUMBER:n:int".toList] := by
    decide
  have hc : components "NUMBER:n:int".toList = ["NUMBER".toList, "n".toList, "int".toList] := by
    decide
  have ht : parseType "int".toList = .ok .int := rfl
  exact (written_type_iff (i := 0) (k := 0) htok hps rfl hc ht rfl rfl hcs).mpr (Or.inl (by decide))

/-- A string capture of a numeric pattern is compiled as a number. -/
theorem written_string_lost :
    parse id "format G \x7b pattern: \"%\x7bINT:n:string\x7d\"; \x7d".toList =
        .ok (typedSchema "INT" .string) ∧
      tokenizePattern "%\x7bINT:n:string\x7d".toList =
        .ok ⟨[.capture ⟨"INT".toList, .string, true, some "n".toList⟩]⟩ ∧
      pieces "%\x7bINT:n:string\x7d".toList = some [.capture "INT:n:string".toList] ∧
      components "INT:n:string".toList = ["INT".toList, "n".toList, "string".toList] ∧
      parseType "string".toList = .ok .string ∧
      compile (typedSchema "INT" .string) = .ok (typedCompiled .int) ∧
      ¬ ∃ cf, (typedCompiled .int).formats[0]? = some cf ∧
        cf.segments[0]? = some (.capture "n".toList .string) := by
  refine ⟨by decide +kernel, by decide, by decide, by decide, rfl, by decide, ?_⟩
  rintro ⟨cf, hcf, hseg⟩
  cases hcf
  cases hseg

end Types

section Names

def Captured (schema : Schema) (c : PatternCapture) : Prop :=
  ∃ fmt ∈ schema.formats, .capture c ∈ fmt.pattern.parts

def UnknownGrok (c : PatternCapture) : Prop := c.grok = true ∧ grokNativeType c.name = none

theorem compileCapture_ok_iff {c : PatternCapture} :
    (∃ seg, compileCapture c = .ok seg) ↔ ¬ (UnknownGrok c ∧ c.ty = .string) := by
  rw [compileCapture, UnknownGrok]
  split
  · next hg =>
    split
    · next hne => exact iff_of_true ⟨_, rfl⟩ (fun h => hne h.2)
    · next heq =>
      have hty : c.ty = .string := not_not.mp heq
      split
      · next ty hn => exact iff_of_true ⟨_, rfl⟩ (by simp [hn])
      · next hn => exact iff_of_false (by simp) (by simp [hg, hn, hty])
  · next hg => exact iff_of_true ⟨_, rfl⟩ (by simp [hg])

theorem compilePart_ok_iff {part : PatternPart} : (∃ seg, compilePart part = .ok seg) ↔
    ∀ c, part = .capture c → ¬ (UnknownGrok c ∧ c.ty = .string) := by
  cases part with
  | literal s => exact iff_of_true ⟨_, rfl⟩ (fun c h => by cases h)
  | capture c =>
    rw [compilePart, compileCapture_ok_iff]
    constructor
    · rintro h c' hc'
      cases hc'
      exact h
    · intro h
      exact h c rfl

theorem compileFormat_ok_iff {f : Format} : (∃ cf, compileFormat f = .ok cf) ↔
    ∃ segments, f.pattern.parts.mapM compilePart = .ok segments := by
  rw [compileFormat]
  cases f.pattern.parts.mapM compilePart with
  | error e => exact iff_of_false (by rintro ⟨cf, h⟩; cases h) (by simp)
  | ok segments => exact iff_of_true ⟨_, rfl⟩ ⟨_, rfl⟩

theorem compile_ok_iff {schema : Schema} : (∃ cs, compile schema = .ok cs) ↔
    ∀ c, Captured schema c → ¬ (UnknownGrok c ∧ c.ty = .string) := by
  have hformats : (∃ cs, compile schema = .ok cs) ↔
      ∃ formats, schema.formats.mapM compileFormat = .ok formats := by
    rw [compile]
    cases schema.formats.mapM compileFormat with
    | error e => exact iff_of_false (by rintro ⟨cs, h⟩; cases h) (by simp)
    | ok formats => exact iff_of_true ⟨_, rfl⟩ ⟨_, rfl⟩
  rw [hformats, mapM_ok_iff]
  simp only [compileFormat_ok_iff, mapM_ok_iff, compilePart_ok_iff]
  constructor
  · rintro h c ⟨fmt, hfmt, hc⟩
    exact h fmt hfmt _ hc c rfl
  · rintro h fmt hfmt part hpart c rfl
    exact h c ⟨fmt, hfmt, hpart⟩

theorem rejected_iff (schema : Schema) :
    ((∃ c, Captured schema c ∧ UnknownGrok c) →
        ∃ name, compile schema = .error (.unsupportedGrok name)) ↔
      (∀ c, Captured schema c → ¬ UnknownGrok c) ∨
        ∃ c, Captured schema c ∧ UnknownGrok c ∧ c.ty = .string := by
  constructor
  · intro h
    by_cases hunknown : ∃ c, Captured schema c ∧ UnknownGrok c
    · obtain ⟨name, hname⟩ := h hunknown
      refine Or.inr ?_
      by_contra hno
      push Not at hno
      obtain ⟨cs, hcs⟩ := compile_ok_iff.mpr fun c hc h => hno c hc h.1 h.2
      rw [hname] at hcs
      cases hcs
    · push Not at hunknown
      exact Or.inl hunknown
  · rintro (hall | ⟨c, hc, hbad⟩) ⟨c', hc', hunknown⟩
    · exact absurd hunknown (hall c' hc')
    · cases hcompile : compile schema with
      | ok cs => exact absurd hbad (compile_ok_iff.mp ⟨cs, hcompile⟩ c hc)
      | error e =>
        obtain ⟨name, rfl⟩ := compile_error hcompile
        exact ⟨name, rfl⟩

/-- A source that refers to an unknown Grok pattern is rejected exactly when one
such reference is written without a type, or with the type `string`. -/
theorem unknown_rejected_iff (pestError : Str → Str) (input : Str) :
    (∀ schema, parse pestError input = .ok schema →
        (∃ c, Captured schema c ∧ UnknownGrok c) →
          ∃ name, compile schema = .error (.unsupportedGrok name)) ↔
      ∀ schema, parse pestError input = .ok schema →
        (∀ c, Captured schema c → ¬ UnknownGrok c) ∨
          ∃ c, Captured schema c ∧ UnknownGrok c ∧ c.ty = .string :=
  forall₂_congr fun schema _ => rejected_iff schema

/-- A type behind an unknown name lets it pass. -/
theorem unknown_accepted :
    parse id "format G \x7b pattern: \"%\x7bNOTREAL:n:int\x7d\"; \x7d".toList =
        .ok (typedSchema "NOTREAL" .int) ∧
      (∃ c, Captured (typedSchema "NOTREAL" .int) c ∧ UnknownGrok c) ∧
      ¬ ∃ name, compile (typedSchema "NOTREAL" .int) = .error (.unsupportedGrok name) := by
  refine ⟨by decide +kernel, ⟨_, ⟨_, by simp [typedSchema]; rfl, by simp; rfl⟩, rfl, by decide⟩, ?_⟩
  rintro ⟨name, h⟩
  have hok : compile (typedSchema "NOTREAL" .int) = .ok (typedCompiled .int) := by decide
  rw [hok] at h
  cases h

end Names

end TptTelemetry.Compiler.Captures
