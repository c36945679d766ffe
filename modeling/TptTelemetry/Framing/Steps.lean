import TptTelemetry.Framing.Decoder

namespace TptTelemetry.Framing.Steps

open TptTelemetry.Lib TptTelemetry.Lib.Incremental TptTelemetry.Lib.Utf8
open TptTelemetry.Framing.Decoder

/-- What an iteration that goes on has found: a complete octet frame, a
complete line, or a run of digits too long for a length. -/
inductive Moves (d : TcpDecoder) : TcpDecoder → List Bytes → Prop
  | octet {p frame rest : Bytes} (hb : d.buf = p ++ SP :: (frame ++ rest)) (hp : SP ∉ p)
      (ha : Announces d p) (hlen : parseLen p = some frame.length)
      (hmax : frame.length ≤ d.maxFrameLen) (hfit : p.length + 1 + frame.length < usizeBound) :
      Moves d { d with buf := rest } [frame]
  | line {l rest : Bytes} (hby : ByLine d) (hb : d.buf = l ++ LF :: rest) (hl : LF ∉ l) :
      Moves d { d with buf := rest } [stripCr l]
  | fallback {p r : Bytes} (hm : d.mode = .auto) (hb : d.buf = p ++ SP :: r) (hp : SP ∉ p)
      (ha : Announces d p) (hlen : parseLen p = none) :
      Moves d { d with mode := .nonTransparent } []

inductive Rejects (d : TcpDecoder) : FrameError → Prop
  | octet {p r : Bytes} {len : Nat} (hb : d.buf = p ++ SP :: r) (hp : SP ∉ p)
      (ha : Announces d p) (hlen : parseLen p = some len)
      (hbig : d.maxFrameLen < len ∨ usizeBound ≤ p.length + 1 + len) :
      Rejects d (.frameTooLarge len d.maxFrameLen)
  | line (hby : ByLine d) (hb : LF ∉ d.buf) (hbig : d.maxFrameLen ≤ d.buf.length) :
      Rejects d (.frameTooLarge d.buf.length d.maxFrameLen)

/-- The states in which the loop stops until more bytes arrive. -/
inductive Waits (d : TcpDecoder) : Prop
  | undecided (hm : d.mode ≠ .nonTransparent) (hb : SP ∉ d.buf)
  | unusable {p r : Bytes} (hm : d.mode = .octetCounting) (hb : d.buf = p ++ SP :: r)
      (hp : SP ∉ p) (hlen : parseLen p = none)
  | incomplete {p r : Bytes} {len : Nat} (hb : d.buf = p ++ SP :: r) (hp : SP ∉ p)
      (ha : Announces d p) (hlen : parseLen p = some len) (hmax : len ≤ d.maxFrameLen)
      (hfit : p.length + 1 + len < usizeBound) (hr : r.length < len)
  | unterminated (hby : ByLine d) (hb : LF ∉ d.buf) (hlt : d.buf.length < d.maxFrameLen)

theorem step_of_moves {d d' : TcpDecoder} {out : List Bytes} (h : Moves d d' out) :
    drainStep d = .next d' out := by
  cases h with
  | octet hb hp ha hlen hmax hfit =>
    rw [drainStep_announces hb hp ha, octetStep_fits hb hp hlen hmax hfit]
    simp
  | line hby hb hl => rw [drainStep_byLine hby, lfStep_eq hb hl]
  | fallback hm hb hp ha hlen =>
    rw [drainStep_announces hb hp ha, octetStep_eq hb hp, hlen]
    simp only [hm, if_true]

theorem step_of_rejects {d : TcpDecoder} {e : FrameError} (h : Rejects d e) :
    drainStep d = .fail { d with buf := [] } e := by
  cases h with
  | octet hb hp ha hlen hbig =>
    rw [drainStep_announces hb hp ha, octetStep_eq hb hp, hlen]
    simp only [gt_iff_lt, hbig, if_true]
  | line hby hb hbig =>
    rw [drainStep_byLine hby, lfStep_open hb, if_pos hbig]

theorem step_of_waits {d : TcpDecoder} (h : Waits d) : drainStep d = .wait := by
  cases h with
  | undecided hm hb => exact drainStep_undecided hm hb
  | unusable hm hb hp hlen =>
    rw [drainStep_announces hb hp (Or.inl hm), octetStep_eq hb hp, hlen]
    simp [hm]
  | incomplete hb hp ha hlen hmax hfit hr =>
    rw [drainStep_announces hb hp ha, octetStep_fits hb hp hlen hmax hfit, if_pos hr]
  | unterminated hby hb hlt =>
    rw [drainStep_byLine hby, lfStep_open hb, if_neg (Nat.not_le.mpr hlt)]

def Explains (d : TcpDecoder) : Verdict TcpDecoder Bytes FrameError → Prop
  | .next d' out => Moves d d' out
  | .fail d' e => Rejects d e ∧ d' = { d with buf := [] }
  | .wait => Waits d

theorem explains_moves {d d' : TcpDecoder} {out : List Bytes} (h : Moves d d' out) :
    Explains d (drainStep d) := by
  rw [step_of_moves h]
  exact h

theorem explains_rejects {d : TcpDecoder} {e : FrameError} (h : Rejects d e) :
    Explains d (drainStep d) := by
  rw [step_of_rejects h]
  exact ⟨h, rfl⟩

theorem explains_waits {d : TcpDecoder} (h : Waits d) : Explains d (drainStep d) := by
  rw [step_of_waits h]
  exact h

theorem drainStep_explained (d : TcpDecoder) : Explains d (drainStep d) := by
  obtain ⟨p, r, hb, hp, ha⟩ | hby | ⟨hm, hs⟩ := situation d
  · cases hlen : parseLen p with
    | none =>
      obtain hm | ⟨hm, -⟩ := id ha
      · exact explains_waits (.unusable hm hb hp hlen)
      · exact explains_moves (.fallback hm hb hp ha hlen)
    | some len =>
      by_cases hbig : d.maxFrameLen < len ∨ usizeBound ≤ p.length + 1 + len
      · exact explains_rejects (.octet hb hp ha hlen hbig)
      · obtain ⟨hmax, hfit⟩ := not_or.mp hbig
        by_cases hr : r.length < len
        · exact explains_waits (.incomplete hb hp ha hlen (by omega) (by omega) hr)
        · have hl : (r.take len).length = len := by rw [List.length_take]; omega
          have hb' : d.buf = p ++ SP :: (r.take len ++ r.drop len) := by
            rw [List.take_append_drop, hb]
          exact explains_moves (.octet hb' hp ha (by rw [hl, hlen]) (by omega) (by omega))
  · by_cases hl : LF ∈ d.buf
    · obtain ⟨l, rest, hb, hn⟩ := List.eq_append_cons_of_mem hl
      exact explains_moves (.line hby hb hn)
    · by_cases hbig : d.maxFrameLen ≤ d.buf.length
      · exact explains_rejects (.line hby hl hbig)
      · exact explains_waits (.unterminated hby hl (by omega))
  · exact explains_waits (.undecided hm hs)

theorem step_next_iff {d d' : TcpDecoder} {out : List Bytes} :
    drainStep d = .next d' out ↔ Moves d d' out := by
  refine ⟨fun h => ?_, step_of_moves⟩
  have he := drainStep_explained d
  rwa [h] at he

theorem step_fail_iff {d d' : TcpDecoder} {e : FrameError} :
    drainStep d = .fail d' e ↔ Rejects d e ∧ d' = { d with buf := [] } := by
  refine ⟨fun h => ?_, fun ⟨hr, hd⟩ => hd ▸ step_of_rejects hr⟩
  have he := drainStep_explained d
  rwa [h] at he

theorem fails_iff {d : TcpDecoder} :
    (∃ d' e, drainStep d = .fail d' e) ↔ ∃ e, Rejects d e := by
  constructor
  · rintro ⟨d', e, h⟩
    exact ⟨e, (step_fail_iff.mp h).1⟩
  · rintro ⟨e, h⟩
    exact ⟨_, e, step_of_rejects h⟩

theorem step_wait_iff {d : TcpDecoder} : drainStep d = .wait ↔ Waits d := by
  refine ⟨fun h => ?_, step_of_waits⟩
  have he := drainStep_explained d
  rwa [h] at he

theorem moves_drainSize {d d' : TcpDecoder} {out : List Bytes} (h : Moves d d' out) :
    drainSize d' < drainSize d := by
  cases h with
  | octet hb | line _ hb =>
    simp only [drainSize, hb, List.length_append, List.length_cons]
    omega
  | fallback hm => simp [drainSize, hm]

theorem byLine_extend {d : TcpDecoder} (h : ByLine d) (c : Bytes) : ByLine (extend d c) := by
  obtain hm | ⟨hm, p, r, hb, hp⟩ := h
  · exact Or.inl hm
  · exact Or.inr ⟨hm, p, r ++ c, by simp [extend, hb], hp⟩

theorem moves_extend {d d' : TcpDecoder} {out : List Bytes} (h : Moves d d' out) (c : Bytes) :
    Moves (extend d c) (extend d' c) out := by
  cases h with
  | octet hb hp ha hlen hmax hfit =>
    exact .octet (d := extend d c) (by simp [extend, hb]) hp ha hlen hmax hfit
  | line hby hb hl =>
    exact .line (d := extend d c) (byLine_extend hby c) (by simp [extend, hb]) hl
  | fallback hm hb hp ha hlen =>
    exact .fallback (d := extend d c) hm (by simp [extend, hb]; rfl) hp ha hlen

/-- The drain loop as an incremental decoder. -/
def loop : Incremental.Decoder TcpDecoder UInt8 Bytes FrameError where
  step := drainStep
  feed := extend
  size := drainSize
  next_size h := moves_drainSize (step_next_iff.mp h)
  feed_nil d := by simp [extend]
  feed_feed d a b := by simp [extend]
  step_feed c h := step_next_iff.mpr (moves_extend (step_next_iff.mp h) c)

theorem drain_moves {d d' : TcpDecoder} {out : List Bytes} (h : Moves d d' out) :
    drain loop d = (drain loop d').prepend out := drain_next (D := loop) (step_of_moves h)

theorem drain_rejects {d : TcpDecoder} {e : FrameError} (h : Rejects d e) :
    drain loop d = ⟨[], { d with buf := [] }, some e⟩ := drain_fail (D := loop) (step_of_rejects h)

theorem drain_waits {d : TcpDecoder} (h : Waits d) : drain loop d = ⟨[], d, none⟩ :=
  drain_wait (D := loop) (step_of_waits h)

/-- `TcpDecoder::push`: the frames appended, the decoder after it, and the
error if there was one. -/
def push (d : TcpDecoder) (chunk : Bytes) : Outcome TcpDecoder Bytes FrameError :=
  Incremental.push loop d chunk

theorem push_eq_drain (d : TcpDecoder) (chunk : Bytes) :
    push d chunk = drain loop (extend d chunk) := rfl

def flush (d : TcpDecoder) : List Bytes × TcpDecoder :=
  if d.buf = [] then ([], d) else ([d.buf], { d with buf := [] })

def pushAll (d : TcpDecoder) (chunks : List Bytes) : Outcome TcpDecoder Bytes FrameError :=
  Incremental.run loop d chunks

theorem pushAll_cons_ok {d : TcpDecoder} {c : Bytes} (cs : List Bytes)
    (h : (push d c).error = none) :
    pushAll d (c :: cs) = (pushAll (push d c).state cs).prepend (push d c).out := run_cons_ok cs h

theorem pushAll_cons_error {d : TcpDecoder} {c : Bytes} {e : FrameError} (cs : List Bytes)
    (h : (push d c).error = some e) : pushAll d (c :: cs) = push d c := run_cons_error cs h

/-- The loop body runs on `t` in the course of the pushes, with the chunks
`rest` still to come. -/
def Visited (d : TcpDecoder) (chunks : List Bytes) (t : TcpDecoder) (rest : List Bytes) : Prop :=
  Visits loop d chunks t rest

theorem visited_cons {d t : TcpDecoder} {c : Bytes} {cs rest : List Bytes} :
    Visited d (c :: cs) t rest ↔
      (rest = cs ∧ ∃ out, Reaches loop (extend d c) out t) ∨
        ((push d c).error = none ∧ Visited (push d c).state cs t rest) := visits_cons

theorem new_waits (mode : TcpFraming) (maxFrameLen : Nat) :
    loop.step (TcpDecoder.new mode maxFrameLen) = .wait := by
  refine step_wait_iff.mpr ?_
  by_cases hm : mode = .nonTransparent
  · exact .unterminated (Or.inl hm) (by simp [TcpDecoder.new])
      (TcpDecoder.new mode maxFrameLen).maxFrameLen_pos
  · exact .undecided hm (by simp [TcpDecoder.new])

end TptTelemetry.Framing.Steps
