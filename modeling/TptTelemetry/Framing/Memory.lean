import TptTelemetry.Framing.LineMode

namespace TptTelemetry.Framing.Memory

open TptTelemetry.Lib TptTelemetry.Lib.Utf8
open TptTelemetry.Lib.Incremental hiding push
open TptTelemetry.Framing.Decoder TptTelemetry.Framing.Steps TptTelemetry.Framing.Wire
open TptTelemetry.Framing.LineMode

def IsCount (p : Bytes) : Prop := p ≠ [] ∧ p.all isAsciiDigit

/-- Read message by message, the stream comes to a count that is no `usize`. -/
inductive Overflows : Bytes → Prop
  | here {p r : Bytes} (hp : IsCount p) (hlen : parseLen p = none) : Overflows (p ++ SP :: r)
  | octet {p frame rest : Bytes} (hp : IsCount p) (hlen : parseLen p = some frame.length)
      (h : Overflows rest) : Overflows (p ++ SP :: (frame ++ rest))
  | line {l rest : Bytes} (hl : LF ∉ l) (hn : NoCount l) (hs : SP ∈ l ++ LF :: rest)
      (h : Overflows rest) : Overflows (l ++ LF :: rest)

/-- Read message by message, the stream is made of lines: each has a space
somewhere ahead and does not begin with a count, and what follows the last LF
holds no complete message. Behind a count that is no `usize` all are lines. -/
inductive Lined : Bytes → Prop
  | rest {t : Bytes} (hl : LF ∉ t)
      (hn : ∀ p r len, t = p ++ SP :: r → IsCount p → parseLen p = some len → r.length < len) :
      Lined t
  | line {l rest : Bytes} (hl : LF ∉ l) (hn : NoCount l) (hs : SP ∈ l ++ LF :: rest)
      (h : Lined rest) : Lined (l ++ LF :: rest)
  | overflow {p r : Bytes} (hp : IsCount p) (hlen : parseLen p = none) : Lined (p ++ SP :: r)

variable {d : TcpDecoder}

theorem isCount_of_announces {p : Bytes} (hm : d.mode = .auto) (h : Announces d p) : IsCount p := by
  obtain ho | ⟨-, hp⟩ := h
  · cases hm.symm.trans ho
  · exact hp

theorem IsCount.inj {p q r s : Bytes} (hp : IsCount p) (hq : IsCount q)
    (h : p ++ SP :: r = q ++ SP :: s) : p = q ∧ r = s :=
  Lines.append_cons_inj (not_mem_of_digits hp.2) (not_mem_of_digits hq.2) h

theorem not_isCount {m p r : Bytes} (hn : NoCount m) (h : m = p ++ SP :: r) :
    ¬ IsCount p := by
  rintro ⟨hne, hd⟩
  exact (hn p r h).elim hne (fun hnd => hnd hd)

theorem noCount_of_byLine (hm : d.mode = .auto) (h : ByLine d) : SP ∈ d.buf ∧ NoCount d.buf := by
  obtain hn | ⟨-, p, r, hb, hp, hd⟩ := h
  · cases hm.symm.trans hn
  · have hs : SP ∈ d.buf := by simp [hb]
    refine ⟨hs, noCount_iff.mpr fun _ => ?_⟩
    rwa [hb, takeWhile_space hp]

section Reading

theorem not_overflows_undecided {b : Bytes} (hs : SP ∉ b) : ¬ Overflows b := by
  intro h
  cases h with
  | here => exact hs (by simp)
  | octet => exact hs (by simp)
  | line _ _ h => exact hs h

theorem overflows_octet {p frame rest : Bytes} (hp : IsCount p)
    (hlen : parseLen p = some frame.length) :
    Overflows (p ++ SP :: (frame ++ rest)) ↔ Overflows rest := by
  refine ⟨fun h => ?_, .octet hp hlen⟩
  generalize hb : p ++ SP :: (frame ++ rest) = b at h
  cases h with
  | here hq hnone =>
    obtain ⟨rfl, -⟩ := hp.inj hq hb
    cases hlen.symm.trans hnone
  | octet hq hlen' h =>
    obtain ⟨rfl, hr⟩ := hp.inj hq hb
    have hl : frame.length = _ := Option.some.inj (hlen.symm.trans hlen')
    obtain ⟨-, rfl⟩ := List.append_inj hr hl
    exact h
  | line _ hn => exact absurd hp (not_isCount (noCount_line hn _) hb.symm)

theorem overflows_line {l rest : Bytes} (hl : LF ∉ l) (hn : NoCount l)
    (hs : SP ∈ l ++ LF :: rest) : Overflows (l ++ LF :: rest) ↔ Overflows rest := by
  refine ⟨fun h => ?_, .line hl hn hs⟩
  generalize hb : l ++ LF :: rest = b at h
  cases h with
  | here hq => exact absurd hq (not_isCount (noCount_line hn _) hb)
  | octet hq => exact absurd hq (not_isCount (noCount_line hn _) hb)
  | line hl' _ _ h =>
    obtain ⟨-, rfl⟩ := Lines.append_cons_inj hl hl' hb
    exact h

theorem lined_line {l rest : Bytes} (hl : LF ∉ l) (hn : NoCount l) (hs : SP ∈ l ++ LF :: rest) :
    Lined (l ++ LF :: rest) ↔ Lined rest := by
  refine ⟨fun h => ?_, .line hl hn hs⟩
  generalize hb : l ++ LF :: rest = b at h
  cases h with
  | rest hl' => exact absurd (by simp [← hb]) hl'
  | line hl' _ _ h =>
    obtain ⟨-, rfl⟩ := Lines.append_cons_inj hl hl' hb
    exact h
  | overflow hq => exact absurd hq (not_isCount (noCount_line hn _) hb)

theorem not_lined_octet {p frame rest : Bytes} (hp : IsCount p)
    (hlen : parseLen p = some frame.length) : ¬ Lined (p ++ SP :: (frame ++ rest)) := by
  intro h
  generalize hb : p ++ SP :: (frame ++ rest) = b at h
  cases h with
  | rest _ hn =>
    have hlt := hn p _ _ hb.symm hp hlen
    rw [List.length_append] at hlt
    omega
  | line _ hn => exact absurd hp (not_isCount (noCount_line hn _) hb.symm)
  | overflow hq hnone =>
    obtain ⟨rfl, -⟩ := hp.inj hq hb
    cases hlen.symm.trans hnone

end Reading

def lines (b : Bytes) : List Bytes := (Lines.split LF b).1.map stripCr

theorem lines_append {l : Bytes} (hl : LF ∉ l) (rest : Bytes) :
    lines (l ++ LF :: rest) = stripCr l :: lines rest := by
  rw [lines, Lines.split_append hl]
  rfl

theorem lines_eq_nil {b : Bytes} : lines b = [] ↔ LF ∉ b := by
  refine ⟨fun h hl => ?_, fun h => by rw [lines, Lines.split_of_not_mem h]; rfl⟩
  obtain ⟨l, rest, rfl, hn⟩ := List.eq_append_cons_of_mem hl
  rw [lines_append hn] at h
  cases h

theorem drain_lines_out (hm : d.mode = .nonTransparent) : (drain loop d).out = lines d.buf := by
  rw [drain_lines hm]
  split <;> rfl

theorem drain_lines_state (hm : d.mode = .nonTransparent) :
    ∃ b, (drain loop d).state = { d with buf := b } := by
  rw [drain_lines hm]
  split
  · exact ⟨_, rfl⟩
  · exact ⟨_, rfl⟩

theorem stripCr_cases (l : Bytes) : stripCr l = l ∨ l = stripCr l ++ [CR] := by
  by_cases h : l.getLast? = some CR
  · obtain ⟨l', rfl⟩ := List.getLast?_eq_some_iff.mp h
    exact Or.inr (by simp [stripCr])
  · exact Or.inl (if_neg h)

/-- The frame of a counted message is not the line it stands in: it would reach
over the end of that line. -/
theorem octet_ne_line {p frame rest l after : Bytes} (hp : IsCount p)
    (hb : p ++ SP :: (frame ++ rest) = l ++ LF :: after) (hl : LF ∉ l) : frame ≠ stripCr l := by
  intro hf
  have hlf : LF ∉ frame ∧ l.length ≤ frame.length + 1 := by
    obtain h | h := stripCr_cases l
    · rw [hf, h]
      exact ⟨hl, Nat.le_succ _⟩
    · rw [← hf] at h
      rw [h] at hl ⊢
      exact ⟨fun hm => hl (by simp [hm]), by simp⟩
  have hpl : LF ∉ p ++ [SP] := by
    have hne : LF ≠ SP := by decide
    simpa [hne] using not_lf_of_digits hp.2
  obtain ⟨l', rfl, hr⟩ : ∃ l', l = p ++ [SP] ++ l' ∧ frame ++ rest = l' ++ LF :: after := by
    have hb' : p ++ [SP] ++ (frame ++ rest) = l ++ LF :: after := by simpa using hb
    obtain ⟨l', hl', hr⟩ | ⟨c, hc, hr⟩ := List.append_eq_append_iff.mp hb'
    · exact ⟨l', hl', hr⟩
    · cases c with
      | nil => exact ⟨[], by simpa using hc.symm, hr.symm⟩
      | cons b c =>
        obtain ⟨rfl, -⟩ := List.cons.inj hr
        exact absurd (by simp [hc]) hpl
  have hle : frame.length ≤ l'.length := by
    obtain ⟨a, rfl, -⟩ | ⟨c, rfl, hc⟩ := List.append_eq_append_iff.mp hr
    · simp
    · cases c with
      | nil => simp
      | cons b c =>
        obtain ⟨rfl, -⟩ := List.cons.inj hc
        exact absurd (by simp) hlf.1
  have hpos : 0 < p.length := List.length_pos_iff.mpr hp.1
  have hlen := hlf.2
  simp only [List.length_append, List.length_singleton] at hlen
  omega

/-- A decoder that waits holds no line, unless the framing is still open. -/
theorem lined_of_waits (hm : d.mode = .auto) (hw : Waits d) : Lined d.buf ↔ LF ∉ d.buf := by
  constructor
  · intro h
    generalize hb : d.buf = b at h
    cases h with
    | rest hl => exact hl
    | line hl hn hs =>
      exfalso
      have hs' : SP ∈ d.buf := hb ▸ hs
      have hby := byLine_of_space hm (List.append_nil _).symm hs' (hb ▸ noCount_line hn _)
      have hmv := step_of_moves (Moves.line hby hb hl)
      rw [step_of_waits hw] at hmv
      cases hmv
    | overflow hp hlen =>
      exfalso
      have hmv := step_of_moves (Moves.fallback hm hb (not_mem_of_digits hp.2)
        (Or.inr ⟨hm, hp⟩) hlen)
      rw [step_of_waits hw] at hmv
      cases hmv
  · intro hl
    refine .rest hl fun p r len hb hp hlen => ?_
    cases hw with
    | undecided _ hs => exact absurd (by simp [hb]) hs
    | unusable hm' => cases hm.symm.trans hm'
    | incomplete hb' hp' _ hlen' _ _ hr =>
      obtain ⟨rfl, rfl⟩ := Lines.append_cons_inj hp' (not_mem_of_digits hp.2) (hb'.symm.trans hb)
      rwa [Option.some.inj (hlen.symm.trans hlen')]
    | unterminated hby => exact absurd hp (not_isCount (noCount_of_byLine hm hby).2 hb)

/-- As long as the decoder does not fail, it gives the lines of the stream
exactly when the stream is made of lines. -/
theorem drain_auto_lines (d : TcpDecoder) : d.mode = .auto → (drain loop d).error = none →
    ((drain loop d).out = lines d.buf ↔ Lined d.buf) := by
  refine drain_induction (D := loop) (P := fun d o => d.mode = .auto → o.error = none →
    (o.out = lines d.buf ↔ Lined d.buf)) ?_ ?_ ?_ d
  · intro d hw hm _
    rw [lined_of_waits hm (step_wait_iff.mp hw), eq_comm, lines_eq_nil]
  · intro d d' e _ _ he
    cases he
  · intro d d' out hs ih hm he
    cases step_next_iff.mp hs with
    | @octet p frame rest hb _ ha hlen =>
      have hp := isCount_of_announces hm ha
      rw [hb, iff_false_right (not_lined_octet hp hlen)]
      intro hout
      have hlf : LF ∈ p ++ SP :: (frame ++ rest) := by
        by_contra hlf
        rw [lines_eq_nil.mpr hlf] at hout
        cases hout
      obtain ⟨l, after, hline, hl⟩ := List.eq_append_cons_of_mem hlf
      rw [hline, lines_append hl] at hout
      exact octet_ne_line hp hline hl (List.cons.inj hout).1
    | line hby hb hl =>
      obtain ⟨hsp, hn⟩ := noCount_of_byLine hm hby
      rw [hb] at hsp hn ⊢
      rw [lines_append hl, lined_line hl (noCount_start hn (List.prefix_append _ _)) hsp,
        ← ih hm he]
      simp [Outcome.prepend]
    | fallback _ hb _ ha hlen =>
      have hp := isCount_of_announces hm ha
      refine iff_of_true ?_ (hb ▸ .overflow hp hlen)
      exact drain_lines_out (d := { d with mode := .nonTransparent }) rfl

/-- A decoder that has consumed its buffer is in auto mode as before, unless it
has come to a count that is no `usize`. -/
theorem drain_auto_state (d : TcpDecoder) : d.mode = .auto → (drain loop d).error = none →
    (drain loop d).state.buf = [] →
    (¬ Overflows d.buf ∧ (drain loop d).state = { d with buf := [] }) ∨
      (Overflows d.buf ∧ (drain loop d).state = { d with mode := .nonTransparent, buf := [] }) := by
  refine drain_induction (D := loop) (P := fun d o => d.mode = .auto → o.error = none →
    o.state.buf = [] → (¬ Overflows d.buf ∧ o.state = { d with buf := [] }) ∨
      (Overflows d.buf ∧ o.state = { d with mode := .nonTransparent, buf := [] })) ?_ ?_ ?_ d
  · intro d _ _ _ hnil
    refine Or.inl ⟨?_, (with_buf hnil).symm⟩
    rw [hnil]
    exact not_overflows_undecided (by simp)
  · intro d d' e _ _ he
    cases he
  · intro d d' out hs ih hm he hnil
    cases step_next_iff.mp hs with
    | octet hb _ ha hlen =>
      rw [hb, overflows_octet (isCount_of_announces hm ha) hlen]
      exact ih hm he hnil
    | line hby hb hl =>
      obtain ⟨hsp, hn⟩ := noCount_of_byLine hm hby
      rw [hb] at hsp hn ⊢
      rw [overflows_line hl (noCount_start hn (List.prefix_append _ _)) hsp]
      exact ih hm he hnil
    | fallback _ hb _ ha hlen =>
      refine Or.inr ⟨hb ▸ .here (isCount_of_announces hm ha) hlen, ?_⟩
      obtain ⟨b, hst⟩ := drain_lines_state (d := { d with mode := .nonTransparent }) rfl
      rw [Outcome.prepend] at hnil ⊢
      rw [hst] at hnil ⊢
      rw [show b = [] from hnil]

/-- Auto detection goes by the message alone, without memory of the stream
before it, exactly if that stream has no count beyond `usize`, or the next one
is made of lines. -/
theorem memoryless_iff (maxFrameLen : Nat) (s₁ s₂ : Bytes)
    (h₁ : (push (.new .auto maxFrameLen) s₁).error = none)
    (hb : (push (.new .auto maxFrameLen) s₁).state.buf = [])
    (h₂ : (push (.new .auto maxFrameLen) s₂).error = none) :
    (pushAll (.new .auto maxFrameLen) [s₁, s₂]).out =
        (push (.new .auto maxFrameLen) s₁).out ++ (push (.new .auto maxFrameLen) s₂).out ↔
      ¬ Overflows s₁ ∨ Lined s₂ := by
  have hout : (pushAll (.new .auto maxFrameLen) [s₁, s₂]).out =
      (push (.new .auto maxFrameLen) s₁).out ++
        (push (push (.new .auto maxFrameLen) s₁).state s₂).out := by
    rw [pushAll_cons_ok _ h₁]
    cases h : (push (push (.new .auto maxFrameLen) s₁).state s₂).error with
    | none =>
      rw [pushAll_cons_ok _ h]
      simp [Outcome.prepend, pushAll, run]
    | some e =>
      rw [pushAll_cons_error _ h]
      rfl
  rw [hout, List.append_cancel_left_eq]
  obtain ⟨hno, hst⟩ | ⟨hov, hst⟩ := drain_auto_state (extend (.new .auto maxFrameLen) s₁) rfl h₁ hb
  · refine iff_of_true ?_ (Or.inl hno)
    rw [push_eq_drain _ s₁, hst]
    rfl
  · have hl := drain_auto_lines (extend (.new .auto maxFrameLen) s₂) rfl h₂
    have hn : (push (push (.new .auto maxFrameLen) s₁).state s₂).out = lines s₂ := by
      rw [push_eq_drain _ s₁, hst]
      exact drain_lines_out (d := { TcpDecoder.new .auto maxFrameLen with
        mode := .nonTransparent, buf := s₂ }) rfl
    rw [hn, eq_comm]
    refine hl.trans ⟨Or.inr, fun h => h.resolve_left fun hno => hno hov⟩

theorem memoryless_octets :
    (pushAll (.new .auto 64) [encode "2 up".toList, encode "1 a".toList]).out =
      (push (.new .auto 64) (encode "2 up".toList)).out ++
        (push (.new .auto 64) (encode "1 a".toList)).out := by
  have hno : ¬ Overflows (encode "2 up".toList) := by
    have hcount : IsCount (encode "2".toList) := ⟨by decide, by decide⟩
    have hoctet : Overflows (encode "2".toList ++ SP :: (encode "up".toList ++ [])) ↔
        Overflows [] := overflows_octet hcount (by decide +kernel)
    exact mt hoctet.mp (not_overflows_undecided (by simp))
  exact (memoryless_iff 64 (encode "2 up".toList) (encode "1 a".toList) (by decide +kernel)
    (by decide +kernel) (by decide +kernel)).mpr (Or.inl hno)

/-- A count of twenty-one digits makes the decoder treat all that follows as
lines. -/
theorem memory_kept :
    ¬ ((push (.new .auto 64) (encode "100000000000000000000 x\n".toList)).error = none →
      (push (.new .auto 64) (encode "100000000000000000000 x\n".toList)).state.buf = [] →
      (push (.new .auto 64) (encode "3 abc".toList)).error = none →
      (pushAll (.new .auto 64)
          [encode "100000000000000000000 x\n".toList, encode "3 abc".toList]).out =
        (push (.new .auto 64) (encode "100000000000000000000 x\n".toList)).out ++
          (push (.new .auto 64) (encode "3 abc".toList)).out) := by
  decide +kernel

end TptTelemetry.Framing.Memory
