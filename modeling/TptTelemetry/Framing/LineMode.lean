import TptTelemetry.Framing.Wire

namespace TptTelemetry.Framing.LineMode

open TptTelemetry.Lib TptTelemetry.Lib.Incremental TptTelemetry.Lib.Utf8
open TptTelemetry.Framing.Decoder TptTelemetry.Framing.Steps TptTelemetry.Framing.Wire

variable {d : TcpDecoder}

/-- The LF decoder splits its buffer into lines. It fails only on the part
after the last LF, when that part has reached the ceiling. -/
theorem drain_lines (hm : d.mode = .nonTransparent) :
    drain loop d =
      if (Lines.split LF d.buf).2.length < d.maxFrameLen then
        ⟨(Lines.split LF d.buf).1.map stripCr, { d with buf := (Lines.split LF d.buf).2 }, none⟩
      else
        ⟨(Lines.split LF d.buf).1.map stripCr, { d with buf := [] },
          some (.frameTooLarge (Lines.split LF d.buf).2.length d.maxFrameLen)⟩ := by
  induction hb : d.buf using Lines.pieces_induction LF generalizing d with
  | hlast t ht =>
    have hl : LF ∉ d.buf := hb ▸ ht
    rw [Lines.split_of_not_mem ht, ← hb]
    by_cases hlt : d.buf.length < d.maxFrameLen
    · rw [drain_waits (.unterminated (Or.inl hm) hl hlt), if_pos hlt, hb, with_buf hb]
      rfl
    · rw [drain_rejects (.line (Or.inl hm) hl (Nat.not_lt.mp hlt)), if_neg hlt]
      rfl
  | hpiece a b ha ih =>
    rw [Lines.split_append ha, drain_moves (.line (Or.inl hm) hb ha),
      ih (d := { d with buf := b }) hm rfl]
    split <;> rfl

theorem drain_lines_ok (hm : d.mode = .nonTransparent)
    (ht : (Lines.split LF d.buf).2.length < d.maxFrameLen) :
    drain loop d = ⟨(Lines.split LF d.buf).1.map stripCr,
      { d with buf := (Lines.split LF d.buf).2 }, none⟩ := by
  rw [drain_lines hm, if_pos ht]

theorem drain_lines_error (hm : d.mode = .nonTransparent)
    (ht : ¬ (Lines.split LF d.buf).2.length < d.maxFrameLen) :
    drain loop d = ⟨(Lines.split LF d.buf).1.map stripCr, { d with buf := [] },
      some (.frameTooLarge (Lines.split LF d.buf).2.length d.maxFrameLen)⟩ := by
  rw [drain_lines hm, if_neg ht]

end TptTelemetry.Framing.LineMode
