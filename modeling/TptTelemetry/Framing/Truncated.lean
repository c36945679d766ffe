import TptTelemetry.Framing.Dedicated
import TptTelemetry.Framing.Sender

namespace TptTelemetry.Framing.Truncated

open TptTelemetry.Lib TptTelemetry.Lib.Incremental TptTelemetry.Lib.Utf8
open TptTelemetry.Framing.Decoder TptTelemetry.Framing.Steps TptTelemetry.Framing.Wire
open TptTelemetry.Framing.Dedicated TptTelemetry.Framing.Sender

def completeIn : List Bytes → Bytes → List Bytes
  | [], _ => []
  | m :: msgs, p =>
    if counted m <+: p then m :: completeIn msgs (p.drop (counted m).length) else []

theorem completeIn_append {past rest : List Bytes} {b : Bytes}
    (hb : ∀ m ∈ rest.head?, b <+: counted m ∧ b ≠ counted m) :
    completeIn (past ++ rest) (past.flatMap counted ++ b) = past := by
  induction past with
  | nil =>
    cases rest with
    | nil => rfl
    | cons m rest =>
      obtain ⟨hpre, hne⟩ := hb m rfl
      refine if_neg fun hle => hne ?_
      exact hpre.eq_of_length_le hle.length_le
  | cons m past ih =>
    have htext : (m :: past).flatMap counted ++ b = counted m ++ (past.flatMap counted ++ b) := by
      simp
    rw [htext, List.cons_append, completeIn, if_pos (List.prefix_append _ _), List.drop_left, ih]

theorem boundary_iff {past rest : List Bytes} {b : Bytes}
    (hb : ∀ m ∈ rest.head?, b <+: counted m ∧ b ≠ counted m) :
    (∃ k, past.flatMap counted ++ b = ((past ++ rest).take k).flatMap counted) ↔ b = [] := by
  constructor
  · rintro ⟨k, hk⟩
    rw [List.take_append, List.flatMap_append] at hk
    by_cases hle : k ≤ past.length
    · have hlen := ((List.take_prefix k past).flatMap counted).length_le
      have htotal := congrArg List.length hk
      rw [Nat.sub_eq_zero_of_le hle, List.take_zero, List.flatMap_nil, List.append_nil,
        List.length_append] at htotal
      exact List.length_eq_zero_iff.mp (by omega)
    · obtain ⟨j, hj⟩ : ∃ j, k - past.length = j + 1 := ⟨k - past.length - 1, by omega⟩
      rw [hj, List.take_of_length_le (by omega), List.append_cancel_left_eq] at hk
      cases rest with
      | nil => simpa using hk
      | cons m rest =>
        obtain ⟨hpre, hne⟩ := hb m rfl
        rw [List.take_succ_cons, List.flatMap_cons] at hk
        have hle : counted m <+: b := ⟨_, hk.symm⟩
        exact absurd (hpre.eq_of_length_le hle.length_le) hne
  · rintro rfl
    exact ⟨past.length, by simp⟩

/-- A stream of octet-counted messages that is cut off anywhere gives the
messages that are complete, and no more, exactly when it is cut between two of
them. -/
theorem truncated_iff {maxFrameLen : Nat} {msgs chunks : List Bytes}
    (hx : ∀ m ∈ msgs, Countable (TcpDecoder.new .octetCounting maxFrameLen).maxFrameLen m)
    (hc : chunks.flatten <+: msgs.flatMap counted) :
    allFrames (pushAll (.new .octetCounting maxFrameLen) chunks) =
        completeIn msgs chunks.flatten ↔
      ∃ k, chunks.flatten = (msgs.take k).flatMap counted := by
  have hempty := new_waits .octetCounting maxFrameLen
  have hframed : ∀ m ∈ msgs, Framed loop
      (fun b => { TcpDecoder.new .octetCounting maxFrameLen with buf := b }) counted id m :=
    fun m hm => framed_counted rfl (hx m hm)
  have hrun := run_eq_drain hempty (fun _ _ => rfl) hframed hc
  obtain ⟨past, rest, b, rfl, hsplit, hdrain, -, hb⟩ := drain_framed_part hempty hframed hc
  have hall : pushAll (.new .octetCounting maxFrameLen) chunks =
      ⟨past, { TcpDecoder.new .octetCounting maxFrameLen with buf := b }, none⟩ := by
    rw [pushAll]
    exact hrun.trans (hdrain.trans (by rw [List.map_id]))
  rw [allFrames, hall, hsplit, completeIn_append hb, boundary_iff hb, flush]
  by_cases hnil : b = []
  · simp [hnil]
  · simp [hnil]

theorem truncated_between :
    allFrames (pushAll (.new .octetCounting 16) [encode "2 a".toList, encode "b".toList]) =
      completeIn [encode "ab".toList, encode "cde".toList]
        [encode "2 a".toList, encode "b".toList].flatten := by
  have hx : ∀ m ∈ [encode "ab".toList, encode "cde".toList],
      Countable (TcpDecoder.new .octetCounting 16).maxFrameLen m := by decide +kernel
  have hc : [encode "2 a".toList, encode "b".toList].flatten <+:
      [encode "ab".toList, encode "cde".toList].flatMap counted := by decide +kernel
  exact (truncated_iff hx hc).mpr ⟨1, by decide +kernel⟩

/-- A connection that is closed within a message passes on the header and the
part of the message as a frame. -/
theorem truncated_within :
    (∀ m ∈ [encode "ab".toList, encode "cde".toList],
        Countable (TcpDecoder.new .octetCounting 16).maxFrameLen m) ∧
      [encode "2 ab3 c".toList].flatten <+:
        [encode "ab".toList, encode "cde".toList].flatMap counted ∧
      completeIn [encode "ab".toList, encode "cde".toList] [encode "2 ab3 c".toList].flatten =
        [encode "ab".toList] ∧
      allFrames (pushAll (.new .octetCounting 16) [encode "2 ab3 c".toList]) ≠
        [encode "ab".toList] := by
  refine ⟨by decide +kernel, by decide +kernel, by decide +kernel, ?_⟩
  have hframes : allFrames (pushAll (.new .octetCounting 16) [encode "2 ab3 c".toList]) =
      [encode "ab".toList, encode "3 c".toList] := by decide +kernel
  rw [hframes]
  decide

end TptTelemetry.Framing.Truncated
