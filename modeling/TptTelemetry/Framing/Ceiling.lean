import TptTelemetry.Framing.LineMode

namespace TptTelemetry.Framing.Ceiling

open TptTelemetry.Lib TptTelemetry.Lib.Utf8
open TptTelemetry.Lib.Incremental hiding push
open TptTelemetry.Framing.Decoder TptTelemetry.Framing.Steps TptTelemetry.Framing.Wire
open TptTelemetry.Framing.LineMode

/-- The length of the frame at the front of the stream. An octet-counted
frame has the length it announces; a line may still be without its LF. -/
def frameLen (mode : TcpFraming) (stream : Bytes) : Nat :=
  match mode with
  | .octetCounting => (parseLen (stream.takeWhile (· ≠ SP))).getD 0
  | _ =>
    match (Lines.split LF stream).1 with
    | l :: _ => (stripCr l).length
    | [] => stream.length

/-- No frame above the ceiling is emitted, and an iteration gives up only on
a frame above it. `rest` is what the peer sends after the current chunk. -/
def Exact (d : TcpDecoder) (chunks : List Bytes) : Prop :=
  (∀ f ∈ (pushAll d chunks).out, f.length ≤ d.maxFrameLen) ∧
    ∀ t rest, Visited d chunks t rest → (∃ d' e, drainStep t = .fail d' e) →
      d.maxFrameLen < frameLen d.mode (t.buf ++ rest.flatten)

/-- Every header that announces a frame within the ceiling leaves the end of
that frame within the address space. -/
def HeadersFit (d : TcpDecoder) (chunks : List Bytes) : Prop :=
  ∀ t rest, Visited d chunks t rest → ∀ p r len, t.buf = p ++ SP :: r → SP ∉ p →
    parseLen p = some len → len ≤ d.maxFrameLen → p.length + 1 + len < usizeBound

/-- How the stream must be cut for the LF decoder: no chunk completes a line
above the ceiling, and a chunk that ends with the ceiling reached ends inside
a line above it. `p` is the unfinished line so far. -/
def LinesCut (maxFrameLen : Nat) : Bytes → List Bytes → Prop
  | _, [] => True
  | p, c :: cs =>
    (∀ l ∈ (Lines.split LF (p ++ c)).1, (stripCr l).length ≤ maxFrameLen) ∧
      if (Lines.split LF (p ++ c)).2.length < maxFrameLen then
        LinesCut maxFrameLen (Lines.split LF (p ++ c)).2 cs
      else maxFrameLen < frameLen .nonTransparent ((Lines.split LF (p ++ c)).2 ++ cs.flatten)

def decideLinesCut (maxFrameLen : Nat) :
    (p : Bytes) → (chunks : List Bytes) → Decidable (LinesCut maxFrameLen p chunks)
  | _, [] => isTrue trivial
  | p, c :: cs =>
    have := decideLinesCut maxFrameLen (Lines.split LF (p ++ c)).2 cs
    inferInstanceAs (Decidable
      ((∀ l ∈ (Lines.split LF (p ++ c)).1, (stripCr l).length ≤ maxFrameLen) ∧
        if (Lines.split LF (p ++ c)).2.length < maxFrameLen then
          LinesCut maxFrameLen (Lines.split LF (p ++ c)).2 cs
        else maxFrameLen < frameLen .nonTransparent ((Lines.split LF (p ++ c)).2 ++ cs.flatten)))

instance (maxFrameLen : Nat) (p : Bytes) (chunks : List Bytes) :
    Decidable (LinesCut maxFrameLen p chunks) := decideLinesCut maxFrameLen p chunks

/-- The iterations of one push, in LF framing, walk over the lines. -/
theorem reaches_lines {d t : TcpDecoder} {out : List Bytes} (hr : Reaches loop d out t)
    (hm : d.mode = .nonTransparent) :
    t.mode = .nonTransparent ∧ (Lines.split LF t.buf).2 = (Lines.split LF d.buf).2 := by
  induction hr with
  | refl s => exact ⟨hm, rfl⟩
  | step hs _ ih =>
    cases step_next_iff.mp hs with
    | octet _ _ ha => exact absurd ha (not_announces hm _)
    | line _ hb hl =>
      obtain ⟨hmode, htail⟩ := ih hm
      refine ⟨hmode, ?_⟩
      rw [htail, hb, Lines.split_append hl]
    | fallback h => cases hm.symm.trans h

theorem reaches_rejects_lines {d t : TcpDecoder} {out : List Bytes} {e : FrameError}
    (hm : d.mode = .nonTransparent) (hr : Reaches loop d out t) (hrej : Rejects t e) :
    t.buf = (Lines.split LF d.buf).2 := by
  obtain ⟨hmode, htail⟩ := reaches_lines hr hm
  cases hrej with
  | octet _ _ ha => exact absurd ha (not_announces hmode _)
  | line _ hb _ => rw [← htail, Lines.split_of_not_mem hb]

theorem exact_cons_ok {d : TcpDecoder} {c : Bytes} {cs out : List Bytes} {buf : Bytes}
    (h : push d c = ⟨out, { d with buf := buf }, none⟩) :
    Exact d (c :: cs) ↔
      (∀ f ∈ out, f.length ≤ d.maxFrameLen) ∧ Exact { d with buf := buf } cs := by
  have he : (push d c).error = none := by rw [h]
  have hv : ∀ t rest, (∃ e, Rejects t e) →
      (Visited d (c :: cs) t rest ↔ Visited { d with buf := buf } cs t rest) := by
    rintro t rest ⟨e, hrej⟩
    rw [visited_cons]
    constructor
    · rintro (⟨-, o, hr⟩ | ⟨-, hv⟩)
      · have hf := drain_reaches_fail (D := loop) hr (step_of_rejects hrej)
        rw [push_eq_drain, hf] at he
        cases he
      · rwa [h] at hv
    · intro hv
      exact Or.inr ⟨he, by rwa [h]⟩
  rw [Exact, Exact, pushAll_cons_ok cs he, h]
  simp only [fails_iff, Outcome.prepend, List.mem_append, or_imp, forall_and, and_assoc]
  refine and_congr_right fun _ => and_congr_right fun _ => ?_
  constructor
  · intro hx t rest hvis hrej
    exact hx t rest ((hv t rest hrej).mpr hvis) hrej
  · intro hx t rest hvis hrej
    exact hx t rest ((hv t rest hrej).mp hvis) hrej

theorem exact_cons_error {d : TcpDecoder} {c : Bytes} {cs out : List Bytes} {d' : TcpDecoder}
    {e : FrameError} (h : push d c = ⟨out, d', some e⟩) :
    Exact d (c :: cs) ↔ (∀ f ∈ out, f.length ≤ d.maxFrameLen) ∧
      ∀ t o, Reaches loop (extend d c) o t → (∃ e, Rejects t e) →
        d.maxFrameLen < frameLen d.mode (t.buf ++ cs.flatten) := by
  have he : (push d c).error = some e := by rw [h]
  rw [Exact, pushAll_cons_error cs he, h]
  simp only [fails_iff]
  refine and_congr_right fun _ => ?_
  constructor
  · intro hx t o hr hrej
    exact hx t cs (visited_cons.mpr (Or.inl ⟨rfl, o, hr⟩)) hrej
  · intro hx t rest hv hrej
    obtain ⟨rfl, o, hr⟩ | ⟨hn, -⟩ := visited_cons.mp hv
    · exact hx t o hr hrej
    · rw [he] at hn
      cases hn

theorem exact_lines_iff (chunks : List Bytes) {d : TcpDecoder} (hm : d.mode = .nonTransparent) :
    Exact d chunks ↔ LinesCut d.maxFrameLen d.buf chunks := by
  induction chunks generalizing d with
  | nil =>
    refine ⟨fun _ => trivial, fun _ => ⟨by simp [pushAll, run], ?_⟩⟩
    intro t rest hv
    exact absurd hv not_visits_nil
  | cons c cs ih =>
    have hx : (extend d c).mode = .nonTransparent := hm
    have hmap : ∀ ls : List Bytes, (∀ f ∈ ls.map stripCr, f.length ≤ d.maxFrameLen) ↔
        ∀ l ∈ ls, (stripCr l).length ≤ d.maxFrameLen := fun ls => by simp
    by_cases ht : (Lines.split LF (d.buf ++ c)).2.length < d.maxFrameLen
    · have hpush : push d c = ⟨(Lines.split LF (d.buf ++ c)).1.map stripCr,
          { d with buf := (Lines.split LF (d.buf ++ c)).2 }, none⟩ :=
        drain_lines_ok (d := extend d c) hx ht
      rw [exact_cons_ok hpush, hmap, LinesCut, if_pos ht,
        ih (d := { d with buf := (Lines.split LF (d.buf ++ c)).2 }) hm]
    · have hpush : push d c = ⟨(Lines.split LF (d.buf ++ c)).1.map stripCr, { d with buf := [] },
          some (.frameTooLarge (Lines.split LF (d.buf ++ c)).2.length d.maxFrameLen)⟩ :=
        drain_lines_error (d := extend d c) hx ht
      rw [exact_cons_error hpush, hmap, LinesCut, if_neg ht, hm]
      refine and_congr_right fun _ => ?_
      constructor
      · intro h
        obtain ⟨t, hr, ⟨hn, -, -⟩ | ⟨e, -, hf⟩⟩ := drain_reaches (D := loop) (extend d c)
        · have hok := congrArg Outcome.error hpush
          rw [push_eq_drain, hn] at hok
          cases hok
        · have hrej := (step_fail_iff.mp hf).1
          have hlt := h t _ hr ⟨e, hrej⟩
          rwa [reaches_rejects_lines hx hr hrej] at hlt
      · rintro h t o hr ⟨e, hrej⟩
        rwa [reaches_rejects_lines hx hr hrej]

def Counting (d : TcpDecoder) (_stream : Bytes) (frames : List Bytes) (t : TcpDecoder) : Prop :=
  t.mode = .octetCounting ∧ t.maxFrameLen = d.maxFrameLen ∧
    ∀ f ∈ frames, f.length ≤ d.maxFrameLen

theorem counting_feed (d : TcpDecoder) (stream : Bytes) (frames : List Bytes) (t : TcpDecoder)
    (c : Bytes) (h : Counting d stream frames t) :
    Counting d (stream ++ c) frames (loop.feed t c) := h

theorem counting_next (d : TcpDecoder) (stream : Bytes) (frames : List Bytes) (t t' : TcpDecoder)
    (out : List Bytes) (hs : loop.step t = .next t' out) (h : Counting d stream frames t) :
    Counting d stream (frames ++ out) t' := by
  obtain ⟨hm, hmax, hf⟩ := h
  cases step_next_iff.mp hs with
  | octet _ _ _ _ hle =>
    refine ⟨hm, hmax, ?_⟩
    intro f hmem
    obtain hmem | hmem := List.mem_append.mp hmem
    · exact hf f hmem
    · rw [List.mem_singleton.mp hmem, ← hmax]
      exact hle
  | line hby => exact absurd hby (not_byLine hm)
  | fallback h => cases hm.symm.trans h

theorem frameLen_octet {p r s : Bytes} {len : Nat} (hp : SP ∉ p) (hlen : parseLen p = some len) :
    frameLen .octetCounting (p ++ SP :: r ++ s) = len := by
  rw [List.append_assoc, List.cons_append, frameLen, takeWhile_space hp, hlen]
  rfl

theorem exact_octet_iff (chunks : List Bytes) {d : TcpDecoder} (hm : d.mode = .octetCounting) :
    Exact d chunks ↔ HeadersFit d chunks := by
  have hstart : Counting d [] [] d := ⟨hm, rfl, by simp⟩
  have hvisit : ∀ t rest, Visited d chunks t rest →
      t.mode = .octetCounting ∧ t.maxFrameLen = d.maxFrameLen := by
    intro t rest hv
    obtain ⟨_, _, hmode, hmax, -⟩ :=
      visits_rule (Counting d) (counting_feed d) (counting_next d) hstart hv
    exact ⟨hmode, hmax⟩
  rw [Exact, HeadersFit]
  simp only [fails_iff, hm]
  constructor
  · rintro ⟨-, h⟩ t rest hv p r len hb hp hlen hle
    obtain ⟨hmode, hmax⟩ := hvisit t rest hv
    by_contra hov
    have hlt := h t rest hv ⟨_, .octet hb hp (Or.inl hmode) hlen (Or.inr (Nat.not_lt.mp hov))⟩
    rw [hb, frameLen_octet hp hlen] at hlt
    omega
  · intro h
    obtain ⟨_, t, -, -, -, hout⟩ :=
      run_rule_out (Counting d) (counting_feed d) (counting_next d) chunks hstart
    refine ⟨hout, ?_⟩
    rintro t rest hv ⟨e, hrej⟩
    obtain ⟨hmode, hmax⟩ := hvisit t rest hv
    cases hrej with
    | octet hb hp _ hlen hbig =>
      rw [hb, frameLen_octet hp hlen]
      by_contra hle
      have hfit := h t rest hv _ _ _ hb hp hlen (Nat.not_lt.mp hle)
      omega
    | line hby => exact absurd hby (not_byLine hmode)

/-- Exactly when the frame-size ceiling is what it is documented to be. -/
theorem ceiling_exact_iff (maxFrameLen : Nat) (chunks : List Bytes) :
    (Exact (.new .octetCounting maxFrameLen) chunks ↔
      HeadersFit (.new .octetCounting maxFrameLen) chunks) ∧
    (Exact (.new .nonTransparent maxFrameLen) chunks ↔
      LinesCut (TcpDecoder.new .nonTransparent maxFrameLen).maxFrameLen [] chunks) :=
  ⟨exact_octet_iff chunks rfl, exact_lines_iff chunks rfl⟩

/-- A line of exactly the ceiling is refused when its LF comes later, and a
line above the ceiling is emitted when its LF comes with it. -/
theorem ceiling_not_exact :
    ¬ Exact (.new .nonTransparent 4) [encode "abcd".toList, encode "\n".toList] ∧
      ¬ Exact (.new .nonTransparent 4) [encode "abcdef\n".toList] := by
  constructor
  · rw [exact_lines_iff _ rfl]
    decide
  · rw [exact_lines_iff _ rfl]
    decide

end TptTelemetry.Framing.Ceiling
