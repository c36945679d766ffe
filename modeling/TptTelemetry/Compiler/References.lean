import TptTelemetry.Compiler.Compile

namespace TptTelemetry.Compiler.References

open TptTelemetry.Lib.Text TptTelemetry.Dsl.Ast TptTelemetry.Compiler.Compile

def outputField (c : PatternCapture) : Str := if c.grok then c.field.getD c.name else c.name

def outputFields (f : Format) : List Str :=
  f.pattern.parts.filterMap (fun part =>
    match part with
    | .literal _ => none
    | .capture c => some (outputField c))

def references (f : Format) : List Str :=
  f.coercions.map Coercion.field ++ f.redactions.map Redaction.field

def Resolved (f : Format) : Prop := ∀ field ∈ references f, field ∈ outputFields f

instance (f : Format) : Decidable (Resolved f) :=
  inferInstanceAs (Decidable (∀ field ∈ references f, field ∈ outputFields f))

/-- What compiles has its references resolved, and a reference to a field that
no capture produces is reported as such. -/
def ReferencesChecked (schema : Schema) : Prop :=
  (∀ cs, compile schema = .ok cs → ∀ f ∈ schema.formats, Resolved f) ∧
    ((∃ f ∈ schema.formats, ¬ Resolved f) →
      ∃ field format, compile schema = .error (.unknownField field format))

/-- The compiler never looks at the references, so they are checked only where
there is nothing to find. -/
theorem referencesChecked_iff (schema : Schema) :
    ReferencesChecked schema ↔ ∀ f ∈ schema.formats, Resolved f := by
  refine ⟨fun h f hf => ?_, fun h => ⟨fun _ _ => h, ?_⟩⟩
  · by_contra hr
    obtain ⟨field, format, hc⟩ := h.2 ⟨f, hf, hr⟩
    obtain ⟨name, hn⟩ := compile_error hc
    cases hn
  · rintro ⟨f, hf, hr⟩
    exact absurd (h f hf) hr

/-- The schema `format Typo { pattern: "%{user:string}"; redact usr with mask; }`. -/
def typoSchema : Schema :=
  ⟨[⟨"Typo".toList, ⟨[.capture ⟨"user".toList, .string, false, none⟩]⟩, [], [],
    [⟨"usr".toList, .mask⟩]⟩]⟩

/-- A misspelt redaction compiles, and has no effect. -/
theorem references_unchecked :
    compile typoSchema = .ok ⟨[⟨"Typo".toList, [.capture "user".toList .string], [],
        [("usr".toList, .mask)]⟩]⟩ ∧
      ¬ ReferencesChecked typoSchema := by
  have hc : compile typoSchema = .ok ⟨[⟨"Typo".toList, [.capture "user".toList .string], [],
      [("usr".toList, .mask)]⟩]⟩ := by decide +kernel
  refine ⟨hc, fun h => ?_⟩
  have hr : ∀ f ∈ typoSchema.formats, Resolved f := h.1 _ hc
  exact absurd hr (by decide +kernel)

end TptTelemetry.Compiler.References
