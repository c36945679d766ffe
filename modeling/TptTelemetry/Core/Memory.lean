import TptTelemetry.Core.Rejection

namespace TptTelemetry.Core.Memory

open TptTelemetry.Lib TptTelemetry.Lib.Utf8 TptTelemetry.Core.Stream TptTelemetry.Core.LineReader
open TptTelemetry.Core.Rejection
open TptTelemetry.Framing.Decoder (LF)

variable {ρ : Type} {R : Reader ρ}

/-- The iteration gets to the read: there is no line to hand out, the input has
not ended, and the ceiling is kept. -/
def Reads (s : StreamReader ρ) : Prop :=
  LF ∉ unread s ∧ s.done = false ∧ s.stop - s.start ≤ s.maxLineLen

def offered (s : StreamReader ρ) : Nat := (grow (compact s)).buf.length - (grow (compact s)).stop

/-- The states that an iteration goes through: the one it starts in, the one
after the compaction, the one after the growth, and the last one. -/
inductive Moment (R : Reader ρ) (s : StreamReader ρ) : StreamReader ρ → Prop
  | head : Moment R s s
  | compacted (h : Reads s) : Moment R s (compact s)
  | grown (h : Reads s) : Moment R s (grow (compact s))
  | last : Moment R s (Step.state (lineStep R s))

def Throughout (R : Reader ρ) (s₀ : StreamReader ρ) (P : StreamReader ρ → Prop) : Prop :=
  ∀ s t, Iterates R s₀ s → Moment R s t → P t

def EveryRead (R : Reader ρ) (s₀ : StreamReader ρ) (P : Nat → Prop) : Prop :=
  ∀ s, Iterates R s₀ s → Reads s → P (offered s)

/-- The indices are in order, and the buffer is as large as it was made, or as a
line within the ceiling can make it grow. -/
structure Bounded (cap maxLineLen : Nat) (s : StreamReader ρ) : Prop where
  start_le : s.start ≤ s.stop
  stop_le : s.stop ≤ s.buf.length
  memory : s.buf.length ≤ max cap (2 * maxLineLen + 1)
  ceiling : s.maxLineLen = maxLineLen

section Steps

variable {cap maxLineLen : Nat} {s : StreamReader ρ}

theorem Bounded.inBounds (h : Bounded cap maxLineLen s) : InBounds s := ⟨h.start_le, h.stop_le⟩

theorem Bounded.frame {s' : StreamReader ρ} (h : Bounded cap maxLineLen s) (hb : InBounds s')
    (hbuf : s'.buf.length = s.buf.length) (hmax : s'.maxLineLen = s.maxLineLen) :
    Bounded cap maxLineLen s' :=
  ⟨hb.1, hb.2, hbuf ▸ h.memory, hmax.trans h.ceiling⟩

theorem maxLineLen_compact (s : StreamReader ρ) : (compact s).maxLineLen = s.maxLineLen := by
  rw [compact]
  split <;> rfl

theorem bounded_compact (h : Bounded cap maxLineLen s) : Bounded cap maxLineLen (compact s) := by
  obtain ⟨hb, -, -, -, hbuf⟩ := compact_spec h.inBounds
  exact h.frame hb hbuf (maxLineLen_compact s)

/-- The growth comes after the compaction and the test of the ceiling, so that
a full buffer holds no more than a line within the ceiling. -/
theorem bounded_grow (h : Bounded cap maxLineLen s) (hr : Reads s) :
    Bounded cap maxLineLen (grow (compact s)) := by
  have hc := bounded_compact h
  obtain ⟨-, -, -, hstop, -⟩ := compact_spec h.inBounds
  obtain ⟨hb, -⟩ := room_spec h.inBounds
  have hlen := length_unread h.inBounds
  have hmax := h.ceiling
  have hle := hr.2.2
  refine ⟨hb.1, hb.2, ?_, (room_frame s).2.2.2.trans hmax⟩
  by_cases hfull : (compact s).stop = (compact s).buf.length
  · rw [grow, if_pos hfull, List.length_append, List.length_replicate]
    apply Nat.le_trans _ (Nat.le_max_right _ _)
    omega
  · rw [grow, if_neg hfull]
    exact hc.memory

theorem bounded_absorb (h : Bounded cap maxLineLen s) {x : Except IoError Bytes × ρ}
    (hx : ∀ bs r, x = (.ok bs, r) → bs.length ≤ s.buf.length - s.stop) :
    Bounded cap maxLineLen (absorb s x) := by
  obtain ⟨res, r⟩ := x
  cases res with
  | ok bs =>
    cases bs with
    | nil => exact h.frame h.inBounds rfl rfl
    | cons b bs =>
      obtain ⟨hb, -, hbuf⟩ := fill_spec h.inBounds (hx _ _ rfl)
      exact h.frame hb hbuf rfl
  | error e =>
    rw [absorb]
    split <;> exact h.frame h.inBounds rfl rfl

theorem bounded_step (h : Bounded cap maxLineLen s) :
    Bounded cap maxLineLen (Step.state (lineStep R s)) := by
  by_cases hl : LF ∈ unread s
  · obtain ⟨l, rest, hu, hl⟩ := List.eq_append_cons_of_mem hl
    rw [lineStep_line h.inBounds hu hl]
    exact h.frame (unread_advance h.inBounds hu).1 rfl rfl
  have hi := List.idxOf?_eq_none_iff.mpr hl
  cases hd : s.done with
  | true =>
    by_cases hlt : s.start < s.stop
    · simp only [lineStep, hi, hd, if_true, hlt]
      exact h.frame ⟨Nat.le_refl _, h.stop_le⟩ rfl rfl
    · simp only [lineStep, hi, hd, if_true, hlt, if_false]
      exact h
  | false =>
    by_cases hm : s.stop - s.start ≤ s.maxLineLen
    · have hm' : (unread s).length ≤ s.maxLineLen := by rwa [length_unread h.inBounds]
      rw [lineStep_read h.inBounds hl hd hm']
      exact bounded_absorb (bounded_grow h ⟨hl, hd, hm⟩) (fun bs r hx => R.read_le hx)
    · simp only [lineStep, hi, hd, Bool.false_eq_true, if_false, Nat.not_le.mp hm, if_true]
      exact h.frame h.inBounds rfl rfl

theorem bounded_moment {t : StreamReader ρ} (h : Bounded cap maxLineLen s) (ht : Moment R s t) :
    Bounded cap maxLineLen t := by
  cases ht with
  | head => exact h
  | compacted hr => exact bounded_compact h
  | grown hr => exact bounded_grow h hr
  | last => exact bounded_step h

theorem bounded_iterates {s₀ : StreamReader ρ} (h : Bounded cap maxLineLen s₀)
    (hs : Iterates R s₀ s) : Bounded cap maxLineLen s := by
  induction hs with
  | refl => exact h
  | step _ ih => exact bounded_step ih

end Steps

theorem bounded_new (r : ρ) (cap maxLineLen : Nat) :
    Bounded cap (max maxLineLen 1) (withMaxLineLen (withCapacity r cap) maxLineLen) :=
  ⟨Nat.le_refl _, Nat.zero_le _, by simp [withMaxLineLen, withCapacity], rfl⟩

/-- The memory of a reader stays bounded, whatever its source does: the buffer is
never larger than it was made or than twice the ceiling and one byte, and every
read is offered some room. -/
theorem memory_bounded (R : Reader ρ) (r : ρ) (cap maxLineLen : Nat) :
    Throughout R (withMaxLineLen (withCapacity r cap) maxLineLen) (fun s =>
        s.start ≤ s.stop ∧ s.stop ≤ s.buf.length ∧
          s.buf.length ≤ max cap (2 * max maxLineLen 1 + 1)) ∧
      EveryRead R (withMaxLineLen (withCapacity r cap) maxLineLen) (fun room => 0 < room) := by
  have hnew := bounded_new r cap maxLineLen
  constructor
  · intro s t hs ht
    have hb := bounded_moment (bounded_iterates hnew hs) ht
    exact ⟨hb.start_le, hb.stop_le, hb.memory⟩
  · intro s hs _
    exact (room_spec (bounded_iterates hnew hs).inBounds).2.2

end TptTelemetry.Core.Memory
