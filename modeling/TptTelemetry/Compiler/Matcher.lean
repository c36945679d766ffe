import TptTelemetry.Compiler.Compile
import TptTelemetry.Lib.Pattern

namespace TptTelemetry.Compiler.Matcher

open TptTelemetry.Lib TptTelemetry.Lib.Text TptTelemetry.Dsl.Ast
open TptTelemetry.Compiler.Scalar TptTelemetry.Compiler.Compile

structure Cap where
  si : Nat
  start : Nat
  stop : Nat
  deriving DecidableEq, Repr

structure MatchCtx where
  caps : List Cap
  deriving DecidableEq, Repr

/-- The loop that shrinks a capture: `stop` counts down from one past the last
end to try, and `next` matches the segments behind the capture. -/
def captureLoop (C : Chrono) (line : Str) (ty : TypeName) (si pos : Nat)
    (next : Nat → List Cap → Except Panic (Bool × List Cap)) :
    Nat → List Cap → Except Panic (Bool × List Cap)
  | 0, caps => .ok (false, caps)
  | stop + 1, caps =>
    if stop + 1 > pos then do
      let sub ← slice line pos stop
      if typeMatches C ty sub then
        let (found, caps) ← next stop (caps ++ [⟨si, pos, stop⟩])
        if found then .ok (true, caps) else captureLoop C line ty si pos next stop caps.dropLast
      else captureLoop C line ty si pos next stop caps
    else .ok (false, caps)

/-- Match the segments, of which the first has index `si`, against the line
from `pos` on, pushing the captured ranges. -/
def matchSegments (C : Chrono) (line : Str) :
    List Seg → Nat → Nat → List Cap → Except Panic (Bool × List Cap)
  | [], _, pos, caps => .ok (pos = byteLen line, caps)
  | .literal l :: segs, si, pos, caps => do
    let tail ← sliceFrom line pos
    if l.isPrefixOf tail then matchSegments C line segs (si + 1) (pos + byteLen l) caps
    else .ok (false, caps)
  | .capture _ ty :: segs, si, pos, caps => do
    let (found, caps) ← captureLoop C line ty si pos (matchSegments C line segs (si + 1))
      (byteLen line + 1) caps
    if found then .ok (true, caps)
    else if ty = .string ∧ pos ≤ byteLen line then
      let (found, caps) ← matchSegments C line segs (si + 1) pos (caps ++ [⟨si, pos, pos⟩])
      if found then .ok (true, caps) else .ok (false, caps.dropLast)
    else .ok (false, caps)

structure RawField where
  name : Str
  value : Str
  deriving DecidableEq, Repr

structure RawMatch where
  format : Str
  fields : List RawField
  deriving DecidableEq, Repr

def MatchCtx.new : MatchCtx := ⟨[]⟩

def MatchCtx.reset (_ctx : MatchCtx) : MatchCtx := ⟨[]⟩

def rawFields (line : Str) (segs : List Seg) : List Cap → Except Panic (List RawField)
  | [] => .ok []
  | c :: caps => do
    match segs[c.si]? with
    | some (.capture field _) =>
      let value ← slice line c.start c.stop
      let fields ← rawFields line segs caps
      .ok (⟨field, value⟩ :: fields)
    | some (.literal _) => rawFields line segs caps
    | none => .error .seqIndex

def MatchCtx.intoRaw (ctx : MatchCtx) (line name : Str) (segs : List Seg) :
    Except Panic RawMatch := do
  let fields ← rawFields line segs ctx.caps
  .ok ⟨name, fields⟩

def matchInto (C : Chrono) (fmt : CompiledFormat) (line : Str) (ctx : MatchCtx) :
    Except Panic (Bool × MatchCtx) := do
  let (found, caps) ← matchSegments C line fmt.segments 0 0 ctx.reset.caps
  .ok (found, ⟨caps⟩)

def matchRaw (C : Chrono) (fmt : CompiledFormat) (line : Str) : Except Panic (Option RawMatch) := do
  let (found, ctx) ← matchInto C fmt line MatchCtx.new
  if found then
    let raw ← ctx.intoRaw line fmt.name fmt.segments
    .ok (some raw)
  else .ok none

end TptTelemetry.Compiler.Matcher
