import TptTelemetry.Framing.Decoder

namespace TptTelemetry.Core.Stream

open TptTelemetry.Lib TptTelemetry.Lib.Utf8
open TptTelemetry.Framing.Decoder (LF CR)

inductive ErrorKind
  | interrupted
  | invalidData
  | other (code : Nat)
  deriving DecidableEq, Repr

structure IoError where
  kind : ErrorKind
  message : String
  deriving DecidableEq, Repr

/-- A source of bytes, as the trait `Read` has it: a call is offered room for
some bytes, and gives back at most that many. No bytes mean end of input. -/
structure Reader (ρ : Type) where
  read : ρ → Nat → Except IoError Bytes × ρ
  read_le : ∀ {r : ρ} {n : Nat} {bs : Bytes} {r' : ρ}, read r n = (.ok bs, r') → bs.length ≤ n

structure StreamReader (ρ : Type) where
  reader : ρ
  buf : Bytes
  start : Nat
  stop : Nat
  done : Bool
  lastError : Option IoError
  maxLineLen : Nat

def defaultMaxLineLen : Nat := 64 * 1024 * 1024

variable {ρ : Type}

def withCapacity (reader : ρ) (cap : Nat) : StreamReader ρ :=
  ⟨reader, List.replicate cap 0, 0, 0, false, none, defaultMaxLineLen⟩

def withMaxLineLen (s : StreamReader ρ) (maxLineLen : Nat) : StreamReader ρ :=
  { s with maxLineLen := max maxLineLen 1 }

def unread (s : StreamReader ρ) : Bytes := (s.buf.take s.stop).drop s.start

def compact (s : StreamReader ρ) : StreamReader ρ :=
  if s.start > 0 then
    { s with
      buf := unread s ++ s.buf.drop (s.stop - s.start)
      start := 0
      stop := s.stop - s.start }
  else s

def grow (s : StreamReader ρ) : StreamReader ρ :=
  if s.stop = s.buf.length then
    { s with buf := s.buf ++ List.replicate (s.buf.length + 1) 0 }
  else s

def fill (s : StreamReader ρ) (bs : Bytes) : StreamReader ρ :=
  { s with
    buf := s.buf.take s.stop ++ bs ++ s.buf.drop (s.stop + bs.length)
    stop := s.stop + bs.length }

def overlong : IoError := ⟨.invalidData, "line exceeds max_line_len without a delimiter"⟩

/-- What the result of a read makes of the reader: an interrupted read is
retried, and any other error ends the input. -/
def absorb (s : StreamReader ρ) : Except IoError Bytes × ρ → StreamReader ρ
  | (.ok [], r) => { s with reader := r, done := true }
  | (.ok (b :: bs), r) => { fill s (b :: bs) with reader := r }
  | (.error e, r) =>
    if e.kind = .interrupted then { s with reader := r }
    else { s with reader := r, lastError := some e, done := true }

inductive Step (ρ : Type)
  | ret (line : Option Bytes) (s : StreamReader ρ)
  | cont (s : StreamReader ρ)

def lineStep (R : Reader ρ) (s : StreamReader ρ) : Step ρ :=
  match (unread s).idxOf? LF with
  | some i =>
    let lineEnd := s.start + i
    let e := if lineEnd > s.start ∧ s.buf[lineEnd - 1]? = some CR then lineEnd - 1 else lineEnd
    .ret (some ((s.buf.take e).drop s.start)) { s with start := lineEnd + 1 }
  | none =>
    if s.done then
      if s.start < s.stop then .ret (some (unread s)) { s with start := s.stop } else .ret none s
    else if s.stop - s.start > s.maxLineLen then
      .ret none { s with lastError := some overlong, done := true }
    else
      let s' := grow (compact s)
      .cont (absorb s' (R.read s'.reader (s'.buf.length - s'.stop)))

/-- `next_line`, run for at most `fuel` iterations. A reader that is always
interrupted keeps the loop going. -/
def nextLine (R : Reader ρ) : Nat → StreamReader ρ → Option (Option Bytes × StreamReader ρ)
  | 0, _ => none
  | fuel + 1, s =>
    match lineStep R s with
    | .ret line s' => some (line, s')
    | .cont s' => nextLine R fuel s'

def nextLines (R : Reader ρ) (fuel : Nat) :
    Nat → StreamReader ρ → Option (List (Option Bytes) × StreamReader ρ)
  | 0, s => some ([], s)
  | n + 1, s => do
    let (line, s) ← nextLine R fuel s
    let (lines, s) ← nextLines R fuel n s
    some (line :: lines, s)

theorem nextLine_mono {R : Reader ρ} {fuel fuel' : Nat} (hle : fuel ≤ fuel') {s : StreamReader ρ}
    {x : Option Bytes × StreamReader ρ} (h : nextLine R fuel s = some x) :
    nextLine R fuel' s = some x := by
  induction fuel generalizing fuel' s with
  | zero => cases h
  | succ fuel ih =>
    obtain ⟨fuel', rfl⟩ := Nat.exists_eq_add_of_lt hle
    simp only [nextLine] at h ⊢
    cases hs : lineStep R s with
    | ret line s' => simpa only [hs] using h
    | cont s' =>
      rw [hs] at h
      exact ih (by omega) h

end TptTelemetry.Core.Stream
