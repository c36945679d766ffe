import TptTelemetry.Lib.Text

namespace TptTelemetry.Dsl.Ast

open TptTelemetry.Lib.Text

inductive TypeName
  | int
  | uint
  | float
  | bool
  | string
  | ipv4
  | ipv6
  | ip
  | mac
  | timestamp
  deriving DecidableEq, Repr

/-- A `%{ ... }` capture. For a Grok capture `name` is the Grok pattern, and
the output field is `field`, or `name` when there is none. -/
structure PatternCapture where
  name : Str
  ty : TypeName
  grok : Bool
  field : Option Str
  deriving DecidableEq, Repr

inductive PatternPart
  | literal (s : Str)
  | capture (c : PatternCapture)
  deriving DecidableEq, Repr

structure Pattern where
  parts : List PatternPart
  deriving DecidableEq, Repr

structure Extract where
  field : Str
  source : Str
  regex : Str
  deriving DecidableEq, Repr

inductive CoercionTarget
  | type (t : TypeName)
  | enum (variants : List Str)
  deriving DecidableEq, Repr

structure Coercion where
  field : Str
  target : CoercionTarget
  deriving DecidableEq, Repr

inductive RedactMode
  | hash
  | mask
  deriving DecidableEq, Repr

structure Redaction where
  field : Str
  mode : RedactMode
  deriving DecidableEq, Repr

structure Format where
  name : Str
  pattern : Pattern
  extracts : List Extract
  coercions : List Coercion
  redactions : List Redaction
  deriving DecidableEq, Repr

structure Schema where
  formats : List Format
  deriving DecidableEq, Repr

end TptTelemetry.Dsl.Ast
