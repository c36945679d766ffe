import TptTelemetry.Dsl.Patterns
import TptTelemetry.Lib.Template

namespace TptTelemetry.GrokEngine.Compile

open TptTelemetry.Lib TptTelemetry.Lib.Text TptTelemetry.Dsl.Patterns

inductive Token
  | literal (s : Str)
  | capture (name : Str) (field ty : Option Str)
  deriving DecidableEq, Repr

/-- The errors of a compilation; the last one wraps that of the `regex` crate. -/
inductive GrokError (ε : Type)
  | unbalancedBrace (pattern : Str)
  | badCapture (content : Str)
  | unknownPattern (name : Str)
  | tooDeep (name : Str)
  | cycle (name : Str)
  | invalidGroupName (name : Str)
  | regex (e : ε)
  deriving DecidableEq, Repr

abbrev CompileError := GrokError Empty

def parseCapture (content : Str) : Except CompileError Token :=
  match content.splitOn ':' with
  | [name] => .ok (.capture name none none)
  | [name, field] => .ok (.capture name (some field) none)
  | [name, field, ty] => .ok (.capture name (some field) (some ty))
  | _ => .error (.badCapture content)

def tokenize (pattern : Str) : Except CompileError (List Token) :=
  Template.tokenize ⟨.literal, parseCapture, .unbalancedBrace pattern⟩ pattern

def maxDepth : Nat := 64

def nonCapturing (body : Str) : Str := ['(', '?', ':'] ++ body ++ [')']

def capturing (name body : Str) : Str := ['(', '?', '<'] ++ name ++ ['>'] ++ body ++ [')']

/-- Expand a reference, with the names that are being expanded and the room
that they leave below the depth limit. -/
def expandRef (lookup : Str → Option Str) (room : Nat) (stack : List Str) (name : Str) :
    Except CompileError Str :=
  if name ∈ stack then .error (.cycle name)
  else
    match room with
    | 0 => .error (.tooDeep name)
    | room + 1 =>
      match lookup name with
      | none => .error (.unknownPattern name)
      | some regex => do
        let tokens ← tokenize regex
        let parts ← tokens.mapM (fun
          | .literal s => .ok s
          | .capture sub _ _ => (expandRef lookup room (name :: stack) sub).map nonCapturing)
        .ok parts.flatten

def expand (name : Str) : Except CompileError Str := expandRef lookup maxDepth [] name

def isValidGroupName : Str → Bool
  | [] => false
  | c :: s => (c == '_' || c.isAlpha) && s.all (fun d => d == '_' || d.isAlphanum)

def compileToken (escape : Str → Str) : Token → Except CompileError Str
  | .literal s => .ok (escape s)
  | .capture name field _ => do
    let sub ← expand name
    match field with
    | some f => if isValidGroupName f then .ok (capturing f sub) else .error (.invalidGroupName f)
    | none => .ok (nonCapturing sub)

def compile (escape : Str → Str) (pattern : Str) : Except CompileError Str := do
  let tokens ← tokenize pattern
  let parts ← tokens.mapM (compileToken escape)
  .ok parts.flatten

def better (minLen : Nat) (best : Option Str) (s : Str) : Bool :=
  minLen ≤ byteLen s && best.all (fun b => byteLen b < byteLen s) &&
    s.any (fun c => c != '\\' && c != ' ')

def fastLiteral (pattern : Str) (minLen : Nat) : Option Str :=
  match tokenize pattern with
  | .error _ => none
  | .ok tokens =>
    tokens.foldl (fun best tok =>
      match tok with
      | .literal s => if better minLen best s then some s else best
      | .capture _ _ _ => best) none

section Literals

theorem mem_of_fastLiteral {pattern needle : Str} {minLen : Nat} {tokens : List Token}
    (ht : tokenize pattern = .ok tokens) (h : fastLiteral pattern minLen = some needle) :
    .literal needle ∈ tokens := by
  have hfold : ∀ (toks : List Token) (best : Option Str), toks ⊆ tokens →
      (∀ s ∈ best, .literal s ∈ tokens) → ∀ s ∈ toks.foldl (fun best tok =>
        match tok with
        | .literal s => if better minLen best s then some s else best
        | .capture _ _ _ => best) best, .literal s ∈ tokens := by
    intro toks
    induction toks with
    | nil =>
      intro best _ hbest
      exact hbest
    | cons tok toks ih =>
      intro best hsub hbest
      have htoks : toks ⊆ tokens := fun x hx => hsub (List.mem_cons_of_mem _ hx)
      rw [List.foldl_cons]
      apply ih _ htoks
      cases tok with
      | capture _ _ _ => exact hbest
      | literal t =>
        intro s hs
        dsimp only at hs
        split at hs
        · cases hs
          exact hsub (by simp)
        · exact hbest s hs
  rw [fastLiteral, ht] at h
  exact hfold tokens none (fun _ hx => hx) (by simp) needle h

end Literals

section Expansion

variable {lookup : Str → Option Str}

theorem lookup_of_expandRef {room : Nat} {stack : List Str} {name body : Str}
    (h : expandRef lookup room stack name = .ok body) : ∃ regex, lookup name = some regex := by
  rw [expandRef.eq_def] at h
  split at h
  · cases h
  · split at h
    · cases h
    · split at h
      · cases h
      · next regex hregex => exact ⟨regex, hregex⟩

end Expansion

end TptTelemetry.GrokEngine.Compile
