import TptTelemetry.Framing.Wire

namespace TptTelemetry.Framing.Mixed

open TptTelemetry.Lib TptTelemetry.Lib.Incremental TptTelemetry.Lib.Utf8
open TptTelemetry.Framing.Decoder TptTelemetry.Framing.Steps TptTelemetry.Framing.Wire

inductive Sent
  | octet (m : Bytes)
  | line (m : Bytes)

def Sent.payload : Sent → Bytes
  | .octet m | .line m => m

def Sent.wire : Sent → Bytes
  | .octet m => header m.length ++ SP :: m
  | .line m => m ++ [LF]

/-- What a sender must observe so that the receiver can tell the framing.
No byte string in memory is longer than `isize::MAX`. -/
def Sent.Plain (maxFrameLen : Nat) : Sent → Prop
  | .octet m => m.length ≤ maxFrameLen ∧ m.length < 2 ^ 63
  | .line m => LF ∉ m ∧ m.getLast? ≠ some CR ∧ m.length < maxFrameLen ∧ SP ∈ m ∧ NoCount m

instance (maxFrameLen : Nat) : (x : Sent) → Decidable (x.Plain maxFrameLen)
  | .octet _ => inferInstanceAs (Decidable (_ ∧ _))
  | .line _ => inferInstanceAs (Decidable (_ ∧ _ ∧ _ ∧ _ ∧ _))

variable {d : TcpDecoder}

theorem moves_sent {x : Sent} {r : Bytes} (hm : d.mode = .auto) (hx : x.Plain d.maxFrameLen)
    (hb : d.buf = x.wire ++ r) : Moves d { d with buf := r } [x.payload] := by
  cases x with
  | octet m =>
    obtain ⟨hmax, hlen⟩ := hx
    exact moves_counted (by simp [hm]) hmax hlen hb
  | line m =>
    obtain ⟨hlf, hcr, -, hsp, hnc⟩ := hx
    have hb' : d.buf = m ++ LF :: r := by simpa [Sent.wire] using hb
    have hline := Moves.line (byLine_of_space hm hb' hsp hnc) hb' hlf
    rwa [stripCr_of_ne hcr] at hline

theorem waits_sent {x : Sent} (hm : d.mode = .auto) (hx : x.Plain d.maxFrameLen)
    (hp : d.buf <+: x.wire) (hne : d.buf ≠ x.wire) : Waits d := by
  cases x with
  | octet m =>
    obtain ⟨hmax, hlen⟩ := hx
    exact waits_counted (by simp [hm]) hmax hlen hp hne
  | line m =>
    by_cases hs : SP ∈ d.buf
    · obtain ⟨hlf, -, hlt, -, hnc⟩ := hx
      have hpm : d.buf <+: m := (List.prefix_concat_iff.mp hp).resolve_left hne
      refine .unterminated ?_ (fun h => hlf (hpm.subset h)) (Nat.lt_of_le_of_lt hpm.length_le hlt)
      exact byLine_of_space hm (List.append_nil _).symm hs (noCount_start hnc hpm)
    · exact .undecided (by simp [hm]) hs

theorem framed_sent {x : Sent} (hm : d.mode = .auto) (hx : x.Plain d.maxFrameLen) :
    Framed loop (fun b => { d with buf := b }) Sent.wire Sent.payload x where
  whole r := step_of_moves (moves_sent (d := { d with buf := x.wire ++ r }) hm hx rfl)
  part p hp hne := step_of_waits (waits_sent (d := { d with buf := p }) hm hx hp hne)

/-- Decoding undoes encoding for streams that mix the two framings, however
the stream is cut. -/
theorem auto_decodes_mixed (maxFrameLen : Nat) (msgs : List Sent) (chunks : List Bytes)
    (hx : ∀ x ∈ msgs, x.Plain (TcpDecoder.new .auto maxFrameLen).maxFrameLen)
    (hc : chunks.flatten = msgs.flatMap Sent.wire) :
    (pushAll (.new .auto maxFrameLen) chunks).error = none ∧
      (pushAll (.new .auto maxFrameLen) chunks).out = msgs.map Sent.payload ∧
      (pushAll (.new .auto maxFrameLen) chunks).state.buf = [] ∧
      (flush (pushAll (.new .auto maxFrameLen) chunks).state).1 = [] := by
  have hrun : pushAll (.new .auto maxFrameLen) chunks =
      ⟨msgs.map Sent.payload, .new .auto maxFrameLen, none⟩ :=
    run_framed (new_waits .auto maxFrameLen) (fun _ _ => rfl)
      (fun x h => framed_sent (d := .new .auto maxFrameLen) rfl (hx x h)) hc
  rw [hrun]
  exact ⟨rfl, rfl, rfl, rfl⟩

theorem auto_decodes_mixed_example :
    (pushAll (.new .auto 16) [encode "2 a".toList, encode "\nx y\n0".toList, encode " ".toList]).out =
      [encode "a\n".toList, encode "x y".toList, []] :=
  (auto_decodes_mixed 16
    [.octet (encode "a\n".toList), .line (encode "x y".toList), .octet []]
    [encode "2 a".toList, encode "\nx y\n0".toList, encode " ".toList]
    (by decide +kernel) (by decide +kernel)).2.1

end TptTelemetry.Framing.Mixed
