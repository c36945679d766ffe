import TptTelemetry.Lib.Peg

namespace TptTelemetry.Dsl.Grammar

open TptTelemetry.Lib.Text TptTelemetry.Lib.Peg

inductive Rule
  | schema
  | formatBlock
  | patternDecl
  | extractDecl
  | coerceDecl
  | coerceTarget
  | enumDecl
  | redactDecl
  | redactMode
  | typeName
  | ident
  | string
  | inner
  | eoi
  deriving DecidableEq, Repr

def word (w : String) : Parser Rule := lit w.toList

def newline : Parser Rule := alts [word "\n", word "\r\n", word "\r"]

def comment : Parser Rule := seq (word "//") (star (seq (notP newline) any))

def whitespace : Parser Rule := alts [word " ", word "\t", word "\r", word "\n", comment]

def skip : Parser Rule := seq (star whitespace) (star (seq comment (star whitespace)))

def ident : Parser Rule :=
  rule .ident (seq (alt (satisfy Char.isAlpha) (word "_"))
    (star (alt (satisfy Char.isAlphanum) (word "_"))))

def inner : Parser Rule := rule .inner (star (seq (notP (word "\"")) any))

/-- Nothing is skipped inside a string. -/
def string : Parser Rule := rule .string (seq (word "\"") (seq inner (word "\"")))

def typeName : Parser Rule :=
  rule .typeName (alts [word "int", word "uint", word "float", word "bool", word "string",
    word "ip", word "ipv4", word "ipv6", word "mac", word "timestamp"])

def redactMode : Parser Rule := rule .redactMode (alts [word "hash", word "mask"])

def redactDecl : Parser Rule :=
  rule .redactDecl (chain skip [word "redact", ident, word "with", redactMode, word ";"])

def enumDecl : Parser Rule :=
  rule .enumDecl (chain skip [word "enum", word "\x7b", ident,
    repeats skip (chain skip [word ",", ident]), word "\x7d"])

def coerceTarget : Parser Rule := rule .coerceTarget (alts [enumDecl, typeName])

def coerceDecl : Parser Rule :=
  rule .coerceDecl (chain skip [word "coerce", ident, word "to", coerceTarget, word ";"])

def extractDecl : Parser Rule :=
  rule .extractDecl (chain skip [word "extract", ident, word "from", ident, word "using",
    word "regex", string, word ";"])

def patternDecl : Parser Rule :=
  rule .patternDecl (chain skip [word "pattern", word ":", string, word ";"])

def stmt : Parser Rule := alts [patternDecl, extractDecl, coerceDecl, redactDecl]

def formatBlock : Parser Rule :=
  rule .formatBlock (chain skip [word "format", ident, word "\x7b", repeats skip stmt, word "\x7d"])

/-- The rule is only used at the start of the input, where `SOI` holds. -/
def schema : Parser Rule :=
  rule .schema (chain skip [fun s => some ([], s), repeats skip formatBlock, eoi .eoi])

end TptTelemetry.Dsl.Grammar
