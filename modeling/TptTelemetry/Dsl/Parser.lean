import TptTelemetry.Dsl.Ast
import TptTelemetry.Dsl.Grammar
import TptTelemetry.Lib.Template

namespace TptTelemetry.Dsl.Parser

open TptTelemetry.Lib TptTelemetry.Lib.Text TptTelemetry.Lib.Peg
open TptTelemetry.Dsl.Ast TptTelemetry.Dsl.Grammar

inductive SchemaError
  | parse (message : Str)
  | duplicateFormat (name : Str)
  | duplicateField (field format : Str)
  | unknownType (name : Str)
  | unknownRedactMode (mode : Str)
  | missingPattern (format : Str)
  | malformedAst (message : Str)
  deriving DecidableEq, Repr

def SchemaError.display : SchemaError → Str
  | .parse message => "parse error: ".toList ++ message
  | .duplicateFormat name => "duplicate format block: `".toList ++ name ++ "`".toList
  | .duplicateField field format =>
    "duplicate field `".toList ++ field ++ "` in format `".toList ++ format ++ "`".toList
  | .unknownType name => "unknown scalar type `".toList ++ name ++ "`".toList
  | .unknownRedactMode mode => "unknown redaction mode `".toList ++ mode ++ "`".toList
  | .missingPattern format =>
    "format `".toList ++ format ++ "` is missing a `pattern:` declaration".toList
  | .malformedAst message => "malformed schema AST: ".toList ++ message

def parseType (s : Str) : Except SchemaError TypeName :=
  if s = "int".toList then .ok .int
  else if s = "uint".toList then .ok .uint
  else if s = "float".toList then .ok .float
  else if s = "bool".toList then .ok .bool
  else if s = "string".toList then .ok .string
  else if s = "ipv4".toList then .ok .ipv4
  else if s = "ipv6".toList then .ok .ipv6
  else if s = "ip".toList then .ok .ip
  else if s = "mac".toList then .ok .mac
  else if s = "timestamp".toList then .ok .timestamp
  else .error (.unknownType s)

def isType (s : Str) : Bool :=
  s ∈ ["int", "uint", "float", "bool", "string", "ipv4", "ipv6", "ip", "mac", "timestamp"].map
    String.toList

def parseCapture (content : Str) : Except SchemaError PatternCapture :=
  match content.splitOn ':' with
  | [] => .ok ⟨[], .string, true, none⟩
  | [name] => .ok ⟨name, .string, true, none⟩
  | [name, x] =>
    if isType x then do
      let ty ← parseType x
      .ok ⟨name, ty, false, none⟩
    else .ok ⟨name, .string, true, some x⟩
  | name :: field :: x :: _ => do
    let ty ← parseType x
    .ok ⟨name, ty, true, some field⟩

def patternSyntax : Template.Syntax SchemaError PatternPart where
  literal := .literal
  capture content := (parseCapture content).map .capture
  unbalanced := .parse "unbalanced `%\x7b` in pattern".toList

def tokenizePattern (input : Str) : Except SchemaError Pattern :=
  (Template.tokenize patternSyntax input).map Pattern.mk

/-- Take one double quote off both ends, if they are there. -/
def unquote (pair : Pair Rule) : Str :=
  match pair.str with
  | '"' :: s => if s.getLast? = some '"' then s.dropLast else pair.str
  | s => s

def checkField (seen : List Str) (field fmt : Str) : Except SchemaError (List Str) :=
  if field ∈ seen then .error (.duplicateField field fmt) else .ok (field :: seen)

def malformed (message : String) : SchemaError := .malformedAst message.toList

def parseExtract (pair : Pair Rule) : Except SchemaError Extract :=
  match pair.inner with
  | [] => .error (malformed "extract: missing field")
  | [_] => .error (malformed "extract: missing source")
  | [_, _] => .error (malformed "extract: missing regex")
  | field :: source :: regex :: _ => .ok ⟨field.str, source.str, unquote regex⟩

def parseCoerce (pair : Pair Rule) : Except SchemaError Coercion :=
  match pair.inner with
  | [] => .error (malformed "coerce: missing field")
  | [_] => .error (malformed "coerce: missing target")
  | field :: target :: _ =>
    match target.inner with
    | [] => .error (malformed "coerce: empty target")
    | item :: _ =>
      if item.rule = .typeName then do
        let t ← parseType item.str
        .ok ⟨field.str, .type t⟩
      else if item.rule = .enumDecl then .ok ⟨field.str, .enum (item.inner.map Pair.str)⟩
      else .error (malformed "invalid coercion target")

def parseRedact (pair : Pair Rule) : Except SchemaError Redaction :=
  match pair.inner with
  | [] => .error (malformed "redact: missing field")
  | [_] => .error (malformed "redact: missing mode")
  | field :: mode :: _ =>
    if mode.str = "hash".toList then .ok ⟨field.str, .hash⟩
    else if mode.str = "mask".toList then .ok ⟨field.str, .mask⟩
    else .error (.unknownRedactMode mode.str)

structure Block where
  name : Option Str
  pattern : Option Pattern
  extracts : List Extract
  coercions : List Coercion
  redactions : List Redaction
  seenFields : List Str

def Block.new : Block := ⟨none, none, [], [], [], []⟩

def Block.label (b : Block) : Str := b.name.getD "?".toList

def parseItem (b : Block) (item : Pair Rule) : Except SchemaError Block :=
  match item.rule with
  | .ident => .ok { b with name := some item.str }
  | .patternDecl =>
    match item.inner with
    | [] => .error (malformed "empty pattern")
    | string :: _ => do
      let pattern ← tokenizePattern (unquote string)
      .ok { b with pattern := some pattern }
  | .extractDecl => do
    let ex ← parseExtract item
    let seen ← checkField b.seenFields ex.field b.label
    .ok { b with extracts := b.extracts ++ [ex], seenFields := seen }
  | .coerceDecl => do
    let co ← parseCoerce item
    let seen ← checkField b.seenFields co.field b.label
    .ok { b with coercions := b.coercions ++ [co], seenFields := seen }
  | .redactDecl => do
    let rd ← parseRedact item
    .ok { b with redactions := b.redactions ++ [rd] }
  | _ => .ok b

def parseBlock (formats : List Format) (block : Pair Rule) : Except SchemaError (List Format) :=
  if block.rule = .formatBlock then do
    let b ← block.inner.foldlM parseItem Block.new
    match b.name with
    | none => .error (.parse "missing format name".toList)
    | some name =>
      if name ∈ formats.map Format.name then .error (.duplicateFormat name)
      else
        match b.pattern with
        | none => .error (.missingPattern name)
        | some pattern =>
          .ok (formats ++ [⟨name, pattern, b.extracts, b.coercions, b.redactions⟩])
  else .ok formats

/-- The text of the error that `pest` reports is a parameter. -/
def parse (pestError : Str → Str) (input : Str) : Except SchemaError Schema :=
  match Grammar.schema input with
  | none => .error (.parse (pestError input))
  | some (pairs, _) => do
    let formats ← (pairs.flatMap Pair.inner).foldlM parseBlock []
    .ok ⟨formats⟩

end TptTelemetry.Dsl.Parser
