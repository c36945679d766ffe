import TptTelemetry.Framing.Wire

namespace TptTelemetry.Framing.Dedicated

open TptTelemetry.Lib TptTelemetry.Lib.Incremental TptTelemetry.Lib.Utf8
open TptTelemetry.Framing.Decoder TptTelemetry.Framing.Steps TptTelemetry.Framing.Wire

/-- A line and how its sender ends it. -/
structure Line where
  payload : Bytes
  crlf : Bool

def Line.body (l : Line) : Bytes := if l.crlf then l.payload ++ [CR] else l.payload

def Line.wire (l : Line) : Bytes := l.body ++ [LF]

def Countable (maxFrameLen : Nat) (m : Bytes) : Prop := m.length ≤ maxFrameLen ∧ m.length < 2 ^ 63

/-- What a sender of lines must observe. -/
def Line.Plain (maxFrameLen : Nat) (l : Line) : Prop :=
  LF ∉ l.payload ∧ l.payload.getLast? ≠ some CR ∧ l.body.length < maxFrameLen

instance (maxFrameLen : Nat) (m : Bytes) : Decidable (Countable maxFrameLen m) :=
  inferInstanceAs (Decidable (_ ∧ _))

instance (maxFrameLen : Nat) (l : Line) : Decidable (l.Plain maxFrameLen) :=
  inferInstanceAs (Decidable (_ ∧ _ ∧ _))

variable {d : TcpDecoder}

theorem framed_counted {m : Bytes} (hm : d.mode = .octetCounting)
    (hx : Countable d.maxFrameLen m) :
    Framed loop (fun b => { d with buf := b }) counted id m where
  whole r := step_of_moves
    (moves_counted (d := { d with buf := counted m ++ r }) (by simp [hm]) hx.1 hx.2 rfl)
  part p hp hne := step_of_waits
    (waits_counted (d := { d with buf := p }) (by simp [hm]) hx.1 hx.2 hp hne)

theorem stripCr_body {l : Line} (hcr : l.payload.getLast? ≠ some CR) :
    stripCr l.body = l.payload := by
  cases hl : l.crlf with
  | false =>
    rw [Line.body, hl, if_neg Bool.false_ne_true]
    exact stripCr_of_ne hcr
  | true =>
    rw [Line.body, hl, if_pos rfl]
    simp [stripCr]

theorem not_mem_body {l : Line} (hlf : LF ∉ l.payload) : LF ∉ l.body := by
  rw [Line.body]
  split
  · have hne : LF ≠ CR := by decide
    simpa [hne] using hlf
  · exact hlf

theorem framed_line {l : Line} (hm : d.mode = .nonTransparent) (hx : l.Plain d.maxFrameLen) :
    Framed loop (fun b => { d with buf := b }) Line.wire Line.payload l where
  whole r := by
    obtain ⟨hlf, hcr, -⟩ := hx
    have hb : l.wire ++ r = l.body ++ LF :: r := by simp [Line.wire]
    have hline := Moves.line (d := { d with buf := l.wire ++ r }) (Or.inl hm) hb (not_mem_body hlf)
    rw [stripCr_body hcr] at hline
    exact step_of_moves hline
  part p hp hne := by
    obtain ⟨hlf, -, hlt⟩ := hx
    have hpb : p <+: l.body := (List.prefix_concat_iff.mp hp).resolve_left hne
    exact step_of_waits (.unterminated (Or.inl hm) (fun h => not_mem_body hlf (hpb.subset h))
      (Nat.lt_of_le_of_lt hpb.length_le hlt))

/-- In each of the dedicated modes decoding undoes encoding, however the stream
is cut. -/
theorem dedicated_round_trip (maxFrameLen : Nat) (chunks : List Bytes) :
    (∀ msgs : List Bytes,
      (∀ m ∈ msgs, Countable (TcpDecoder.new .octetCounting maxFrameLen).maxFrameLen m) →
      chunks.flatten = msgs.flatMap counted →
      (pushAll (.new .octetCounting maxFrameLen) chunks).error = none ∧
        (pushAll (.new .octetCounting maxFrameLen) chunks).out = msgs ∧
        (pushAll (.new .octetCounting maxFrameLen) chunks).state.buf = []) ∧
    ∀ lines : List Line,
      (∀ l ∈ lines, l.Plain (TcpDecoder.new .nonTransparent maxFrameLen).maxFrameLen) →
      chunks.flatten = lines.flatMap Line.wire →
      (pushAll (.new .nonTransparent maxFrameLen) chunks).error = none ∧
        (pushAll (.new .nonTransparent maxFrameLen) chunks).out = lines.map Line.payload ∧
        (pushAll (.new .nonTransparent maxFrameLen) chunks).state.buf = [] := by
  refine ⟨fun msgs hx hc => ?_, fun lines hx hc => ?_⟩
  · have hrun : pushAll (.new .octetCounting maxFrameLen) chunks =
        ⟨msgs.map id, .new .octetCounting maxFrameLen, none⟩ :=
      run_framed (new_waits .octetCounting maxFrameLen) (fun _ _ => rfl)
        (fun m h => framed_counted (d := .new .octetCounting maxFrameLen) rfl (hx m h)) hc
    rw [hrun, List.map_id]
    exact ⟨rfl, rfl, rfl⟩
  · have hrun : pushAll (.new .nonTransparent maxFrameLen) chunks =
        ⟨lines.map Line.payload, .new .nonTransparent maxFrameLen, none⟩ :=
      run_framed (new_waits .nonTransparent maxFrameLen) (fun _ _ => rfl)
        (fun l h => framed_line (d := .new .nonTransparent maxFrameLen) rfl (hx l h)) hc
    rw [hrun]
    exact ⟨rfl, rfl, rfl⟩

theorem dedicated_round_trip_cut :
    (pushAll (.new .octetCounting 16) [encode "1".toList, encode " a0 2 \n".toList, [0x39]]).out =
        [encode "a".toList, [], encode "\n9".toList] ∧
      (pushAll (.new .nonTransparent 16) [encode "3 a\r".toList, encode "\n\nb\n".toList]).out =
        [encode "3 a".toList, [], encode "b".toList] :=
  ⟨((dedicated_round_trip 16 [encode "1".toList, encode " a0 2 \n".toList, [0x39]]).1
      [encode "a".toList, [], encode "\n9".toList] (by decide +kernel) (by decide +kernel)).2.1,
    ((dedicated_round_trip 16 [encode "3 a\r".toList, encode "\n\nb\n".toList]).2
      [⟨encode "3 a".toList, true⟩, ⟨[], false⟩, ⟨encode "b".toList, false⟩]
      (by decide +kernel) (by decide +kernel)).2.1⟩

end TptTelemetry.Framing.Dedicated
