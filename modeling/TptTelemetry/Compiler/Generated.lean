import TptTelemetry.Compiler.Codegen

namespace TptTelemetry.Compiler.Generated

open TptTelemetry.Lib.Text TptTelemetry.Lib.Rust TptTelemetry.Dsl.Ast TptTelemetry.Compiler.Compile
open TptTelemetry.Compiler.Codegen

section Evaluation

def allTypes : List TypeName :=
  [.int, .uint, .float, .bool, .string, .ipv4, .ipv6, .ip, .mac, .timestamp]

def readType (ts : List Token) : Option (TypeName × List Token) := do
  match ← expect [kw "TypeName", sym ':', sym ':'] ts with
  | .ident name :: ts =>
    let ty ← allTypes.find? (fun t => typeVariant t = name)
    some (ty, ts)
  | _ => none

def readSeg (ts : List Token) : Option (Seg × List Token) := do
  let ts ← expect [kw "Seg", sym ':', sym ':'] ts
  match expect [kw "Literal", sym '('] ts with
  | some ts =>
    let (s, ts) ← readString ts
    let ts ← expect [sym ')'] ts
    some (.literal s, ts)
  | none =>
    let ts ← expect [kw "Capture", sym '{', kw "field", sym ':'] ts
    let (field, ts) ← readString ts
    let ts ← expect [sym ',', kw "ty", sym ':'] ts
    let (ty, ts) ← readType ts
    let ts ← expect [sym '}'] ts
    some (.capture field ty, ts)

def readTarget (ts : List Token) : Option (CoercionTarget × List Token) := do
  let ts ← expect [kw "CoercionTarget", sym ':', sym ':'] ts
  match expect [kw "Type", sym '('] ts with
  | some ts =>
    let (t, ts) ← readType ts
    let ts ← expect [sym ')'] ts
    some (.type t, ts)
  | none =>
    let ts ← expect [kw "Enum", sym '('] ts
    let (variants, ts) ← readVec readString ts
    let ts ← expect [sym ')'] ts
    some (.enum variants, ts)

def readMode (ts : List Token) : Option (RedactMode × List Token) := do
  let ts ← expect [kw "RedactMode", sym ':', sym ':'] ts
  match expect [kw "Hash"] ts with
  | some ts => some (.hash, ts)
  | none =>
    let ts ← expect [kw "Mask"] ts
    some (.mask, ts)

def readPair {β : Type} (item : List Token → Option (β × List Token)) (ts : List Token) :
    Option ((Str × β) × List Token) := do
  let ts ← expect [sym '('] ts
  let (field, ts) ← readString ts
  let ts ← expect [sym ','] ts
  let (x, ts) ← item ts
  let ts ← expect [sym ')'] ts
  some ((field, x), ts)

def readFormat (ts : List Token) : Option (CompiledFormat × List Token) := do
  let ts ← expect [kw "CompiledFormat", sym ':', sym ':', kw "new", sym '('] ts
  let (name, ts) ← readString ts
  let ts ← expect [sym ','] ts
  let (segments, ts) ← readVec readSeg ts
  let ts ← expect [sym ','] ts
  let (coercions, ts) ← readVec (readPair readTarget) ts
  let ts ← expect [sym ','] ts
  let (redactions, ts) ← readVec (readPair readMode) ts
  let ts ← expect [sym ',', sym ')'] ts
  some (⟨name, segments, coercions, redactions⟩, ts)

def moduleOpen : List Token :=
  [kw "use", kw "tpt_telemetry_compiler", sym ':', sym ':', sym '{', kw "CompiledSchema",
    sym ',', kw "CompiledFormat", sym ',', kw "Seg", sym ',', kw "TypeName", sym ',',
    kw "CoercionTarget", sym ',', kw "RedactMode", sym '}', sym ';', kw "pub", kw "fn",
    kw "compiled_schema", sym '(', sym ')', sym '-', sym '>', kw "CompiledSchema",
    sym '{', kw "let", kw "formats", sym ':', kw "Vec", sym '<', kw "CompiledFormat",
    sym '>', sym '=']

def moduleClose : List Token :=
  [sym ';', kw "CompiledSchema", sym ':', sym ':', kw "new", sym '(', kw "formats",
    sym ')', sym '}']

/-- The value that `compiled_schema()` of a generated module returns. -/
def evalModule (text : Str) : Option CompiledSchema :=
  match scan .start text with
  | (ts, .start) => do
    let ts ← expect moduleOpen ts
    let (formats, ts) ← readVec readFormat ts
    let ts ← expect moduleClose ts
    if ts = [] then some ⟨formats⟩ else none
  | _ => none

end Evaluation

section Tokens

def stringTokens (s : Str) : List Token :=
  [.str s, sym '.', kw "to_string", sym '(', sym ')']

def typeTokens (ty : TypeName) : List Token :=
  [kw "TypeName", sym ':', sym ':', .ident (typeVariant ty)]

def vecTokens {α : Type} (f : α → List Token) (xs : List α) : List Token :=
  vecOpen ++ xs.flatMap (fun x => f x ++ [sym ',']) ++ [sym ']']

def segTokens : Seg → List Token
  | .literal s =>
    [kw "Seg", sym ':', sym ':', kw "Literal", sym '('] ++ stringTokens s ++ [sym ')']
  | .capture field ty =>
    [kw "Seg", sym ':', sym ':', kw "Capture", sym '{', kw "field", sym ':'] ++
      stringTokens field ++ [sym ',', kw "ty", sym ':'] ++ typeTokens ty ++ [sym '}']

def targetTokens : CoercionTarget → List Token
  | .type t =>
    [kw "CoercionTarget", sym ':', sym ':'] ++ [kw "Type", sym '('] ++ typeTokens t ++
      [sym ')']
  | .enum variants =>
    [kw "CoercionTarget", sym ':', sym ':'] ++ [kw "Enum", sym '('] ++
      vecTokens stringTokens variants ++ [sym ')']

def modeTokens : RedactMode → List Token
  | .hash => [kw "RedactMode", sym ':', sym ':', kw "Hash"]
  | .mask => [kw "RedactMode", sym ':', sym ':', kw "Mask"]

def pairTokens {β : Type} (f : β → List Token) (p : Str × β) : List Token :=
  [sym '('] ++ stringTokens p.1 ++ [sym ','] ++ f p.2 ++ [sym ')']

def formatTokens (fmt : CompiledFormat) : List Token :=
  [kw "CompiledFormat", sym ':', sym ':', kw "new", sym '('] ++ stringTokens fmt.name ++
    [sym ','] ++ vecTokens segTokens fmt.segments ++ [sym ','] ++
    vecTokens (pairTokens targetTokens) fmt.coercions ++ [sym ','] ++
    vecTokens (pairTokens modeTokens) fmt.redactions ++ [sym ',', sym ')']

theorem reads_type (ty : TypeName) : Reads readType (typeTokens ty) ty := by
  cases ty <;> exact fun _ => rfl

theorem reads_seg (seg : Seg) : Reads readSeg (segTokens seg) seg := by
  cases seg with
  | literal s => exact fun _ => rfl
  | capture field ty => cases ty <;> exact fun _ => rfl

theorem reads_mode (mode : RedactMode) : Reads readMode (modeTokens mode) mode := by
  cases mode <;> exact fun _ => rfl

theorem reads_strings (ss : List Str) : Reads (readVec readString) (vecTokens stringTokens ss) ss :=
  reads_vec reads_string (fun _ _ => rfl) ss

theorem reads_target (target : CoercionTarget) : Reads readTarget (targetTokens target) target := by
  cases target with
  | type t =>
    intro rest
    have ht := reads_type t
    simp only [targetTokens, List.append_assoc, readTarget, expect_append, Option.bind_eq_bind,
      Option.bind_some, ht ([sym ')'] ++ rest)]
  | enum variants =>
    intro rest
    have hne : ∀ ts, expect [kw "Type", sym '('] ([kw "Enum", sym '('] ++ ts) = none :=
      fun _ => rfl
    have hv := reads_strings variants
    simp only [targetTokens, List.append_assoc, readTarget, expect_append, Option.bind_eq_bind,
      Option.bind_some, hne, hv ([sym ')'] ++ rest)]

theorem reads_pair {β : Type} {item : List Token → Option (β × List Token)} {f : β → List Token}
    (hr : ∀ x, Reads item (f x) x) (p : Str × β) : Reads (readPair item) (pairTokens f p) p := by
  intro rest
  have hs := reads_string p.1
  have hx := hr p.2
  simp only [pairTokens, stringTokens, List.append_assoc, readPair, expect_append,
    Option.bind_eq_bind, Option.bind_some, hs ([sym ','] ++ _), hx ([sym ')'] ++ rest)]

theorem reads_format (fmt : CompiledFormat) : Reads readFormat (formatTokens fmt) fmt := by
  intro rest
  have hn := reads_string fmt.name
  have hseg : Reads (readVec readSeg) (vecTokens segTokens fmt.segments) fmt.segments :=
    reads_vec reads_seg (fun seg _ => by cases seg <;> rfl) fmt.segments
  have hco : Reads (readVec (readPair readTarget))
      (vecTokens (pairTokens targetTokens) fmt.coercions) fmt.coercions :=
    reads_vec (reads_pair reads_target) (fun _ _ => rfl) fmt.coercions
  have hred : Reads (readVec (readPair readMode)) (vecTokens (pairTokens modeTokens) fmt.redactions)
      fmt.redactions := reads_vec (reads_pair reads_mode) (fun _ _ => rfl) fmt.redactions
  simp only [formatTokens, stringTokens, List.append_assoc, readFormat, expect_append,
    Option.bind_eq_bind, Option.bind_some, hn ([sym ','] ++ _), hseg ([sym ','] ++ _),
    hco ([sym ','] ++ _), hred ([sym ',', sym ')'] ++ rest)]

def moduleTokens (cs : CompiledSchema) : List Token :=
  moduleOpen ++ vecTokens formatTokens cs.formats ++ moduleClose

theorem evalModule_of_lexes {text : Str} {cs : CompiledSchema}
    (h : Lexes text (moduleTokens cs)) : evalModule text = some cs := by
  have hv : Reads (readVec readFormat) (vecTokens formatTokens cs.formats) cs.formats :=
    reads_vec reads_format (fun _ _ => rfl) cs.formats
  have hclose : expect moduleClose moduleClose = some [] := rfl
  rw [evalModule, h.scan_eq]
  simp only [moduleTokens, List.append_assoc, expect_append, Option.bind_eq_bind, Option.bind_some,
    hv moduleClose, hclose, if_true]

end Tokens

section Text

variable (printable : Char → Bool)

def segLine : Seg → Str
  | .literal s => literalLine printable s
  | .capture field ty => captureLine printable field ty

def targetLines (p : Str × CoercionTarget) : Str := coercionLines printable ⟨p.1, p.2⟩

def modeLine (p : Str × RedactMode) : Str := redactionLine printable p.1 p.2

def formatText (fmt : CompiledFormat) : Str :=
  formatLines printable fmt.name (fmt.segments.flatMap (segLine printable))
    (fmt.coercions.flatMap (targetLines printable)) (fmt.redactions.flatMap (modeLine printable))

def moduleText (cs : CompiledSchema) : Str :=
  moduleHeader ++ cs.formats.flatMap (formatText printable) ++ moduleFooter

def toStringTokens : List Token := [sym '.', kw "to_string", sym '(', sym ')']

theorem lexes_typeVariant (ty : TypeName) :
    Lexes (typeVariant ty ++ " \x7d,\n".toList)
        [.ident (typeVariant ty), sym '}', sym ','] ∧
      Lexes (typeVariant ty ++ ")),\n".toList)
        [.ident (typeVariant ty), sym ')', sym ')', sym ','] := by
  cases ty <;> decide +kernel

theorem lexes_segLine (seg : Seg) : Lexes (segLine printable seg) (segTokens seg ++ [sym ',']) := by
  cases seg with
  | literal s =>
    have ho : Lexes "                Seg::Literal(".toList
        [kw "Seg", sym ':', sym ':', kw "Literal", sym '('] := by decide +kernel
    have hc : Lexes ".to_string()),\n".toList (toStringTokens ++ [sym ')', sym ',']) := by
      decide +kernel
    exact (ho.append (lexes_debug printable s)).append hc
  | capture field ty =>
    have ho : Lexes "                Seg::Capture \x7b field: ".toList
        [kw "Seg", sym ':', sym ':', kw "Capture", sym '{', kw "field", sym ':'] := by
      decide +kernel
    have hm : Lexes ".to_string(), ty: TypeName::".toList
        (toStringTokens ++ [sym ',', kw "ty", sym ':', kw "TypeName", sym ':',
          sym ':']) := by
      decide +kernel
    exact (ho.append (lexes_debug printable field)).append (hm.append (lexes_typeVariant ty).1)

theorem lexes_variantLine (v : Str) :
    Lexes (variantLine printable v) (stringTokens v ++ [sym ',']) := by
  have ho : Lexes "                    ".toList [] := by decide +kernel
  have hc : Lexes ".to_string(),\n".toList (toStringTokens ++ [sym ',']) := by decide +kernel
  exact (ho.append (lexes_debug printable v)).append hc

theorem lexes_pair {β : Type} {f : β → List Token} {x : β} {text : Str} (field : Str)
    (h : Lexes text (toStringTokens ++ [sym ','] ++ f x ++ [sym ')', sym ','])) :
    Lexes ("                (".toList ++ debug printable field ++ text)
      (pairTokens f (field, x) ++ [sym ',']) := by
  have ho : Lexes "                (".toList [sym '('] := by decide +kernel
  have htokens : pairTokens f (field, x) ++ [sym ','] = [sym '('] ++ [.str field] ++
      (toStringTokens ++ [sym ','] ++ f x ++ [sym ')', sym ',']) := by
    simp only [pairTokens, stringTokens, toStringTokens, List.append_assoc, List.cons_append,
      List.nil_append]
  rw [htokens]
  exact (ho.append (lexes_debug printable field)).append h

theorem lexes_targetLines (p : Str × CoercionTarget) :
    Lexes (targetLines printable p) (pairTokens targetTokens p ++ [sym ',']) := by
  obtain ⟨field, target⟩ := p
  cases target with
  | type t =>
    have hm : Lexes ".to_string(), CoercionTarget::Type(TypeName::".toList
        (toStringTokens ++ [sym ',', kw "CoercionTarget", sym ':', sym ':', kw "Type",
          sym '(', kw "TypeName", sym ':', sym ':']) := by
      decide +kernel
    apply lexes_pair printable field
    exact hm.append (lexes_typeVariant t).2
  | enum variants =>
    have hm : Lexes ".to_string(), CoercionTarget::Enum(vec![\n".toList
        (toStringTokens ++ [sym ',', kw "CoercionTarget", sym ':', sym ':', kw "Enum",
          sym '('] ++ vecOpen) := by
      decide +kernel
    have hc : Lexes "                ])),\n".toList
        [sym ']', sym ')', sym ')', sym ','] := by decide +kernel
    have htokens : toStringTokens ++ [sym ','] ++ targetTokens (.enum variants) ++
        [sym ')', sym ','] =
        toStringTokens ++ [sym ',', kw "CoercionTarget", sym ':', sym ':', kw "Enum",
          sym '('] ++ vecOpen ++ variants.flatMap (fun v => stringTokens v ++ [sym ',']) ++
          [sym ']', sym ')', sym ')', sym ','] := by
      simp only [targetTokens, vecTokens, List.append_assoc, List.cons_append, List.nil_append]
    apply lexes_pair printable field
    rw [htokens]
    exact (hm.append (Lexes.flatMap (lexes_variantLine printable) variants)).append hc

theorem lexes_modeLine (p : Str × RedactMode) :
    Lexes (modeLine printable p) (pairTokens modeTokens p ++ [sym ',']) := by
  obtain ⟨field, mode⟩ := p
  have hm : Lexes (".to_string(), RedactMode::".toList ++
      (match mode with
        | .hash => "Hash".toList
        | .mask => "Mask".toList) ++ "),\n".toList)
      (toStringTokens ++ [sym ','] ++ modeTokens mode ++ [sym ')', sym ',']) := by
    cases mode <;> decide +kernel
  exact lexes_pair printable field hm

theorem formatTokens_comma (fmt : CompiledFormat) :
    formatTokens fmt ++ [sym ','] =
      [kw "CompiledFormat", sym ':', sym ':', kw "new", sym '('] ++ [.str fmt.name] ++
        (toStringTokens ++ [sym ','] ++ vecOpen) ++
        fmt.segments.flatMap (fun seg => segTokens seg ++ [sym ',']) ++
        ([sym ']', sym ','] ++ vecOpen) ++
        fmt.coercions.flatMap (fun p => pairTokens targetTokens p ++ [sym ',']) ++
        ([sym ']', sym ','] ++ vecOpen) ++
        fmt.redactions.flatMap (fun p => pairTokens modeTokens p ++ [sym ',']) ++
        [sym ']', sym ',', sym ')', sym ','] := by
  simp only [formatTokens, vecTokens, stringTokens, toStringTokens, List.append_assoc,
    List.cons_append, List.nil_append]

theorem lexes_formatText (fmt : CompiledFormat) :
    Lexes (formatText printable fmt) (formatTokens fmt ++ [sym ',']) := by
  have h₁ : Lexes "        CompiledFormat::new(\n            ".toList
      [kw "CompiledFormat", sym ':', sym ':', kw "new", sym '('] := by decide +kernel
  have h₂ : Lexes ".to_string(),\n            vec![\n".toList
      (toStringTokens ++ [sym ','] ++ vecOpen) := by decide +kernel
  have h₃ : Lexes "            ],\n            vec![\n".toList
      ([sym ']', sym ','] ++ vecOpen) := by decide +kernel
  have h₄ : Lexes "            ],\n        ),\n".toList
      [sym ']', sym ',', sym ')', sym ','] := by decide +kernel
  have hn := lexes_debug printable fmt.name
  have hs := Lexes.flatMap (lexes_segLine printable) fmt.segments
  have hco := Lexes.flatMap (lexes_targetLines printable) fmt.coercions
  have hr := Lexes.flatMap (lexes_modeLine printable) fmt.redactions
  rw [formatTokens_comma]
  exact (((((((h₁.append hn).append h₂).append hs).append h₃).append hco).append h₃).append
    hr).append h₄

theorem lexes_moduleText (cs : CompiledSchema) :
    Lexes (moduleText printable cs) (moduleTokens cs) := by
  have ho : Lexes moduleHeader (moduleOpen ++ vecOpen) := by
    unfold moduleHeader moduleOpen vecOpen kw
    -- the kernel is slow to decode string literals, so they are spelled out first
    repeat rw [String.toList_ofList]
    decide +kernel
  have hc : Lexes moduleFooter ([sym ']'] ++ moduleClose) := by decide +kernel
  have htokens : moduleTokens cs = moduleOpen ++ vecOpen ++
      cs.formats.flatMap (fun fmt => formatTokens fmt ++ [sym ',']) ++
      ([sym ']'] ++ moduleClose) := by
    simp only [moduleTokens, vecTokens, List.append_assoc]
  rw [htokens]
  exact (ho.append (Lexes.flatMap (lexes_formatText printable) cs.formats)).append hc

end Text

section Agreement

variable (printable : Char → Bool)

theorem partLine_eq (part : PatternPart) :
    partLine printable part = (compilePart part).map (segLine printable) := by
  cases part with
  | literal s => rfl
  | capture c =>
    rw [partLine, captureType, compilePart, compileCapture]
    split
    · split
      · rfl
      · rw [nativeForGrok]
        cases grokNativeType c.name <;> rfl
    · rfl

theorem generateFormat_eq (f : Format) :
    generateFormat printable f = (compileFormat f).map (formatText printable) := by
  rw [generateFormat, compileFormat, mapM_eq_map (partLine_eq printable)]
  cases f.pattern.parts.mapM compilePart with
  | error e => rfl
  | ok segments =>
    simp only [Except.map, bind, Except.bind, formatText, ← List.flatMap_def, List.flatMap_map]
    rfl

theorem generateRust_eq (schema : Schema) :
    generateRust printable schema = (compile schema).map (moduleText printable) := by
  rw [generateRust, compile, mapM_eq_map (generateFormat_eq printable)]
  cases schema.formats.mapM compileFormat with
  | error e => rfl
  | ok formats =>
    simp only [Except.map, bind, Except.bind, moduleText, ← List.flatMap_def]

/-- A module is generated exactly for the schemas that compile, and its value
is what they compile to. The two fail with the same unsupported pattern. -/
theorem generateRust_agrees (schema : Schema) :
    ((∃ text, generateRust printable schema = .ok text) ↔ ∃ cs, compile schema = .ok cs) ∧
      (∀ text cs, generateRust printable schema = .ok text → compile schema = .ok cs →
        evalModule text = some cs) ∧
      ∀ e, compile schema = .error e →
        (∃ name, e = .unsupportedGrok name) ∧ generateRust printable schema = .error e := by
  rw [generateRust_eq]
  cases hc : compile schema with
  | error e =>
    refine ⟨⟨?_, ?_⟩, ?_, ?_⟩
    · rintro ⟨text, h⟩
      cases h
    · rintro ⟨cs, h⟩
      cases h
    · intro text cs h
      cases h
    · intro e' h
      cases h
      exact ⟨compile_error hc, rfl⟩
  | ok cs =>
    refine ⟨⟨fun _ => ⟨cs, rfl⟩, fun _ => ⟨_, rfl⟩⟩, ?_, ?_⟩
    · intro text cs' h h'
      cases h
      cases h'
      exact evalModule_of_lexes (lexes_moduleText printable cs)
    · intro e h
      cases h

end Agreement

end TptTelemetry.Compiler.Generated
