import TptTelemetry.Compiler.Compile
import TptTelemetry.Lib.Rust

namespace TptTelemetry.Compiler.Codegen

open TptTelemetry.Lib.Text TptTelemetry.Lib.Rust TptTelemetry.Dsl.Ast TptTelemetry.Compiler.Compile

def typeVariant : TypeName → Str
  | .int => "Int".toList
  | .uint => "Uint".toList
  | .float => "Float".toList
  | .bool => "Bool".toList
  | .string => "String".toList
  | .ipv4 => "Ipv4".toList
  | .ipv6 => "Ipv6".toList
  | .ip => "Ip".toList
  | .mac => "Mac".toList
  | .timestamp => "Timestamp".toList

def nativeForGrok (name : Str) : Option TypeName := grokNativeType name

section Lines

variable (printable : Char → Bool)

def literalLine (s : Str) : Str :=
  "                Seg::Literal(".toList ++ debug printable s ++ ".to_string()),\n".toList

def captureLine (field : Str) (ty : TypeName) : Str :=
  "                Seg::Capture \x7b field: ".toList ++ debug printable field ++
    (".to_string(), ty: TypeName::".toList ++ (typeVariant ty ++ " \x7d,\n".toList))

def typeLine (field : Str) (ty : TypeName) : Str :=
  "                (".toList ++ debug printable field ++
    (".to_string(), CoercionTarget::Type(TypeName::".toList ++ (typeVariant ty ++ ")),\n".toList))

def variantLine (v : Str) : Str :=
  "                    ".toList ++ debug printable v ++ ".to_string(),\n".toList

def enumLines (field : Str) (variants : List Str) : Str :=
  "                (".toList ++ debug printable field ++
    (".to_string(), CoercionTarget::Enum(vec![\n".toList ++
      variants.flatMap (variantLine printable) ++ "                ])),\n".toList)

def redactionLine (field : Str) (mode : RedactMode) : Str :=
  "                (".toList ++ debug printable field ++
    (".to_string(), RedactMode::".toList ++
      (match mode with
        | .hash => "Hash".toList
        | .mask => "Mask".toList) ++ "),\n".toList)

end Lines

def captureType (c : PatternCapture) : Except CompileError (Str × TypeName) :=
  if c.grok then do
    let field := c.field.getD c.name
    let ty ←
      if c.ty ≠ .string then .ok c.ty
      else
        match nativeForGrok c.name with
        | some ty => .ok ty
        | none => .error (.unsupportedGrok c.name)
    .ok (field, ty)
  else .ok (c.name, c.ty)

def partLine (printable : Char → Bool) : PatternPart → Except CompileError Str
  | .literal s => .ok (literalLine printable s)
  | .capture c => do
    let (field, ty) ← captureType c
    .ok (captureLine printable field ty)

def coercionLines (printable : Char → Bool) (co : Coercion) : Str :=
  match co.target with
  | .type t => typeLine printable co.field t
  | .enum variants => enumLines printable co.field variants

def formatLines (printable : Char → Bool) (name segments coercions redactions : Str) : Str :=
  "        CompiledFormat::new(\n            ".toList ++ debug printable name ++
    ".to_string(),\n            vec![\n".toList ++ segments ++
    "            ],\n            vec![\n".toList ++ coercions ++
    "            ],\n            vec![\n".toList ++ redactions ++
    "            ],\n        ),\n".toList

def generateFormat (printable : Char → Bool) (f : Format) : Except CompileError Str := do
  let segments ← f.pattern.parts.mapM (partLine printable)
  .ok (formatLines printable f.name segments.flatten (f.coercions.flatMap (coercionLines printable))
    (f.redactions.flatMap (fun r => redactionLine printable r.field r.mode)))

def moduleHeader : Str :=
  "// @generated by tpt-telemetry-compiler. Do not edit.\n".toList ++
    "use tpt_telemetry_compiler::\x7bCompiledSchema, CompiledFormat, Seg, TypeName, ".toList ++
    "CoercionTarget, RedactMode\x7d;\n\n".toList ++
    "/// Build the compiled schema from generated segment data.\n".toList ++
    "pub fn compiled_schema() -> CompiledSchema \x7b\n".toList ++
    "    let formats: Vec<CompiledFormat> = vec![\n".toList

def moduleFooter : Str :=
  "    ];\n".toList ++ "    CompiledSchema::new(formats)\n".toList ++ "\x7d\n".toList

/-- The Rust module that rebuilds the compiled schema. -/
def generateRust (printable : Char → Bool) (schema : Schema) : Except CompileError Str := do
  let formats ← schema.formats.mapM (generateFormat printable)
  .ok (moduleHeader ++ formats.flatten ++ moduleFooter)

end TptTelemetry.Compiler.Codegen
