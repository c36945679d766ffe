import TptTelemetry.Lib.Incremental
import TptTelemetry.Lib.Lines
import TptTelemetry.Lib.Numeral
import Mathlib.Tactic.Tauto

namespace TptTelemetry.Framing.Decoder

open TptTelemetry.Lib TptTelemetry.Lib.Incremental TptTelemetry.Lib.Utf8 TptTelemetry.Lib.Numeral

abbrev SP : UInt8 := 0x20
abbrev LF : UInt8 := 0x0A
abbrev CR : UInt8 := 0x0D

def usizeBound : Nat := 2 ^ 64

inductive TcpFraming
  | auto
  | octetCounting
  | nonTransparent
  deriving DecidableEq, Repr

inductive Mode
  | octet
  | lf
  deriving DecidableEq, Repr

inductive FrameError
  | frameTooLarge (len max : Nat)
  deriving DecidableEq, Repr

structure TcpDecoder where
  mode : TcpFraming
  maxFrameLen : Nat
  buf : Bytes
  maxFrameLen_pos : 0 < maxFrameLen
  deriving DecidableEq, Repr

def TcpDecoder.new (mode : TcpFraming) (maxFrameLen : Nat) : TcpDecoder :=
  ⟨mode, max maxFrameLen 1, [], by omega⟩

def isAsciiDigit (b : UInt8) : Bool := 0x30 ≤ b && b ≤ 0x39

def detect (d : TcpDecoder) : Option Mode :=
  match d.buf.idxOf? SP with
  | none => none
  | some space =>
    if space = 0 then some .lf
    else if (d.buf.take space).all isAsciiDigit then some .octet
    else some .lf

def parseLen (bytes : Bytes) : Option Nat :=
  (fromUtf8 bytes).bind (parseUnsigned 10 usizeBound)

def octetStep (d : TcpDecoder) : Verdict TcpDecoder Bytes FrameError :=
  match d.buf.idxOf? SP with
  | none => .wait
  | some space =>
    match parseLen (d.buf.take space) with
    | none => if d.mode = .auto then .next { d with mode := .nonTransparent } [] else .wait
    | some len =>
      if len > d.maxFrameLen then .fail { d with buf := [] } (.frameTooLarge len d.maxFrameLen)
      else
        match checkedAdd usizeBound (space + 1) len with
        | none => .fail { d with buf := [] } (.frameTooLarge len d.maxFrameLen)
        | some stop =>
          if d.buf.length < stop then .wait
          else .next { d with buf := d.buf.drop stop } [(d.buf.take stop).drop (space + 1)]

def stripCr (frame : Bytes) : Bytes :=
  if frame.getLast? = some CR then frame.dropLast else frame

def lfStep (d : TcpDecoder) : Verdict TcpDecoder Bytes FrameError :=
  match d.buf.idxOf? LF with
  | some lf => .next { d with buf := d.buf.drop (lf + 1) } [stripCr (d.buf.take lf)]
  | none =>
    if d.buf.length ≥ d.maxFrameLen then
      .fail { d with buf := [] } (.frameTooLarge d.buf.length d.maxFrameLen)
    else .wait

def drainStep (d : TcpDecoder) : Verdict TcpDecoder Bytes FrameError :=
  match d.mode with
  | .octetCounting => octetStep d
  | .nonTransparent => lfStep d
  | .auto =>
    match detect d with
    | some .octet => octetStep d
    | some .lf => lfStep d
    | none => .wait

def extend (d : TcpDecoder) (chunk : Bytes) : TcpDecoder := { d with buf := d.buf ++ chunk }

def drainSize (d : TcpDecoder) : Nat := 2 * d.buf.length + if d.mode = .auto then 1 else 0

/-- The text before the first space announces an octet count. -/
def Announces (d : TcpDecoder) (p : Bytes) : Prop :=
  d.mode = .octetCounting ∨ d.mode = .auto ∧ p ≠ [] ∧ p.all isAsciiDigit

/-- The LF branch is taken: it is configured, or the text before the first
space does not announce a length. -/
def ByLine (d : TcpDecoder) : Prop :=
  d.mode = .nonTransparent ∨
    d.mode = .auto ∧ ∃ p r, d.buf = p ++ SP :: r ∧ SP ∉ p ∧ (p = [] ∨ ¬ p.all isAsciiDigit)

theorem detect_eq {d : TcpDecoder} {p r : Bytes} (hb : d.buf = p ++ SP :: r) (hp : SP ∉ p) :
    detect d = if p ≠ [] ∧ p.all isAsciiDigit then some .octet else some .lf := by
  rw [detect, hb, Lines.idxOf?_append hp]
  cases p with
  | nil => rfl
  | cons b p => simp

theorem octetStep_eq {d : TcpDecoder} {p r : Bytes} (hb : d.buf = p ++ SP :: r) (hp : SP ∉ p) :
    octetStep d =
      match parseLen p with
      | none => if d.mode = .auto then .next { d with mode := .nonTransparent } [] else .wait
      | some len =>
        if len > d.maxFrameLen ∨ usizeBound ≤ p.length + 1 + len then
          .fail { d with buf := [] } (.frameTooLarge len d.maxFrameLen)
        else if r.length < len then .wait
        else .next { d with buf := r.drop len } [r.take len] := by
  simp only [octetStep, hb, Lines.idxOf?_append hp, List.take_left]
  cases parseLen p with
  | none => rfl
  | some len =>
    have hskip : (p ++ SP :: r).drop (p.length + 1) = r := by
      rw [← List.drop_drop, List.drop_left, List.drop_one, List.tail_cons]
    have hstop : (p ++ SP :: r).drop (p.length + 1 + len) = r.drop len := by
      rw [← List.drop_drop, hskip]
    have hframe : ((p ++ SP :: r).take (p.length + 1 + len)).drop (p.length + 1) = r.take len := by
      rw [List.drop_take, hskip, Nat.add_sub_cancel_left]
    have hlen : (p ++ SP :: r).length < p.length + 1 + len ↔ r.length < len := by
      rw [List.length_append, List.length_cons]
      omega
    by_cases hmax : len > d.maxFrameLen
    · simp only [hmax, true_or, if_true]
    · by_cases hov : p.length + 1 + len < usizeBound
      · have hov' : ¬ usizeBound ≤ p.length + 1 + len := by omega
        simp only [hmax, hov', or_self, if_false, checkedAdd, hov, if_true, hlen, hstop, hframe]
      · have hov' : usizeBound ≤ p.length + 1 + len := by omega
        simp only [hmax, hov', or_true, if_false, checkedAdd, hov, if_true]

/-- A length within the ceiling whose frame ends within the address space. -/
theorem octetStep_fits {d : TcpDecoder} {p r : Bytes} {len : Nat} (hb : d.buf = p ++ SP :: r)
    (hp : SP ∉ p) (hlen : parseLen p = some len) (hmax : len ≤ d.maxFrameLen)
    (hfit : p.length + 1 + len < usizeBound) :
    octetStep d =
      if r.length < len then .wait else .next { d with buf := r.drop len } [r.take len] := by
  have hbig : ¬ (len > d.maxFrameLen ∨ usizeBound ≤ p.length + 1 + len) := by omega
  simp only [octetStep_eq hb hp, hlen, hbig, if_false]

theorem octetStep_undecided {d : TcpDecoder} (hb : SP ∉ d.buf) : octetStep d = .wait := by
  rw [octetStep, List.idxOf?_eq_none_iff.mpr hb]

theorem lfStep_eq {d : TcpDecoder} {line r : Bytes} (hb : d.buf = line ++ LF :: r)
    (hl : LF ∉ line) : lfStep d = .next { d with buf := r } [stripCr line] := by
  rw [lfStep, hb, Lines.idxOf?_append hl]
  simp

theorem lfStep_open {d : TcpDecoder} (hb : LF ∉ d.buf) :
    lfStep d = if d.maxFrameLen ≤ d.buf.length then
      .fail { d with buf := [] } (.frameTooLarge d.buf.length d.maxFrameLen) else .wait := by
  rw [lfStep, List.idxOf?_eq_none_iff.mpr hb]

theorem not_announces {d : TcpDecoder} (hm : d.mode = .nonTransparent) (p : Bytes) :
    ¬ Announces d p := by
  simp [Announces, hm]

theorem not_byLine {d : TcpDecoder} (hm : d.mode = .octetCounting) : ¬ ByLine d := by
  simp [ByLine, hm]

theorem with_buf {d : TcpDecoder} {b : Bytes} (hb : d.buf = b) : { d with buf := b } = d := by
  cases hb
  rfl

theorem drainStep_announces {d : TcpDecoder} {p r : Bytes} (hb : d.buf = p ++ SP :: r)
    (hp : SP ∉ p) (ha : Announces d p) : drainStep d = octetStep d := by
  obtain hm | ⟨hm, hd⟩ := ha
  · simp only [drainStep, hm]
  · simp only [drainStep, hm, detect_eq hb hp, hd, ne_eq, not_false_eq_true, and_self, if_true]

theorem drainStep_byLine {d : TcpDecoder} (h : ByLine d) : drainStep d = lfStep d := by
  obtain hm | ⟨hm, p, r, hb, hp, hd⟩ := h
  · simp only [drainStep, hm]
  · have hn : ¬ (p ≠ [] ∧ p.all isAsciiDigit) := by tauto
    simp only [drainStep, hm, detect_eq hb hp, hn, if_false]

theorem drainStep_undecided {d : TcpDecoder} (hm : d.mode ≠ .nonTransparent) (hb : SP ∉ d.buf) :
    drainStep d = .wait := by
  cases hmode : d.mode with
  | auto => simp only [drainStep, hmode, detect, List.idxOf?_eq_none_iff.mpr hb]
  | octetCounting => simp only [drainStep, hmode, octetStep_undecided hb]
  | nonTransparent => exact absurd hmode hm

/-- The three situations of the loop: a length is announced, the LF branch
is taken, or the framing of the buffered bytes is still open. -/
theorem situation (d : TcpDecoder) :
    (∃ p r, d.buf = p ++ SP :: r ∧ SP ∉ p ∧ Announces d p) ∨ ByLine d ∨
      d.mode ≠ .nonTransparent ∧ SP ∉ d.buf := by
  by_cases hm : d.mode = .nonTransparent
  · exact Or.inr (Or.inl (Or.inl hm))
  by_cases hs : SP ∈ d.buf
  · obtain ⟨p, r, hb, hp⟩ := List.eq_append_cons_of_mem hs
    by_cases ha : Announces d p
    · exact Or.inl ⟨p, r, hb, hp, ha⟩
    · refine Or.inr (Or.inl (Or.inr ?_))
      cases hmode : d.mode with
      | auto => exact ⟨rfl, p, r, hb, hp, by simp only [Announces, hmode] at ha; tauto⟩
      | octetCounting => exact absurd (Or.inl hmode) ha
      | nonTransparent => exact absurd hmode hm
  · exact Or.inr (Or.inr ⟨hm, hs⟩)

end TptTelemetry.Framing.Decoder
