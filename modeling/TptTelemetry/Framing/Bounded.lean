import TptTelemetry.Framing.Steps

namespace TptTelemetry.Framing.Bounded

open TptTelemetry.Lib TptTelemetry.Lib.Utf8
open TptTelemetry.Lib.Incremental hiding push
open TptTelemetry.Framing.Decoder TptTelemetry.Framing.Steps

/-- The ceiling and the longest usable length prefix: 20 digits and a space. -/
def bufferBound (d : TcpDecoder) : Nat := d.maxFrameLen + 21

/-- After every push that succeeds, what is retained is within the bound. -/
def BufferBounded (d : TcpDecoder) (chunks : List Bytes) : Prop :=
  ∀ k, (pushAll d (chunks.take k)).error = none →
    (pushAll d (chunks.take k)).state.buf.length ≤ bufferBound d

/-- The buffered bytes are within the bound or start with a header that an
iteration can use: there is a first space, octet counting finds a length
before it, and a frame whose length is announced is there or is refused. -/
def HeaderUsable (t : TcpDecoder) : Prop :=
  t.buf.length ≤ bufferBound t ∨ t.mode = .nonTransparent ∨
    ∃ p r, t.buf = p ++ SP :: r ∧ SP ∉ p ∧
      match parseLen p with
      | none => t.mode = .auto
      | some len =>
        Announces t p → len ≤ r.length ∨ t.maxFrameLen < len ∨ usizeBound ≤ p.length + 1 + len

theorem headerUsable_of_byLine {t : TcpDecoder} (h : ByLine t) : HeaderUsable t := by
  obtain hm | ⟨hm, p, r, hb, hp, hd⟩ := h
  · exact Or.inr (Or.inl hm)
  · refine Or.inr (Or.inr ⟨p, r, hb, hp, ?_⟩)
    cases parseLen p with
    | none => exact hm
    | some len =>
      rintro (ho | ⟨-, hne, hall⟩)
      · cases hm.symm.trans ho
      · exact absurd hall (hd.resolve_left hne)

theorem short_of_waits {t : TcpDecoder} (hu : HeaderUsable t) (hw : Waits t) :
    t.buf.length ≤ bufferBound t := by
  obtain hs | hn | ⟨p, r, hb, hp, hlen⟩ := hu
  · exact hs
  · cases hw with
    | undecided hm => exact absurd hn hm
    | unusable hm => cases hn.symm.trans hm
    | incomplete _ _ ha => exact absurd ha (not_announces hn _)
    | unterminated _ _ hlt => exact Nat.le_trans (Nat.le_of_lt hlt) (Nat.le_add_right _ _)
  · cases hw with
    | undecided _ hs => exact absurd (by simp [hb]) hs
    | unusable hm hb' hp' hnone =>
      obtain ⟨rfl, rfl⟩ := Lines.append_cons_inj hp' hp (hb'.symm.trans hb)
      rw [hnone, hm] at hlen
      cases hlen
    | incomplete hb' hp' ha hsome hmax hfit hr =>
      obtain ⟨rfl, rfl⟩ := Lines.append_cons_inj hp' hp (hb'.symm.trans hb)
      rw [hsome] at hlen
      have h := hlen ha
      omega
    | unterminated _ _ hlt => exact Nat.le_trans (Nat.le_of_lt hlt) (Nat.le_add_right _ _)

theorem headerUsable_iff {t : TcpDecoder} :
    HeaderUsable t ↔ (drainStep t = .wait → t.buf.length ≤ bufferBound t) := by
  refine ⟨fun hu hw => short_of_waits hu (step_wait_iff.mp hw), fun h => ?_⟩
  have he := drainStep_explained t
  cases hv : drainStep t with
  | wait => exact Or.inl (h hv)
  | next t' out =>
    rw [hv] at he
    cases he with
    | octet hb hp ha hlen =>
      refine Or.inr (Or.inr ⟨_, _, hb, hp, ?_⟩)
      rw [hlen]
      intro _
      exact Or.inl (by simp)
    | line hby => exact headerUsable_of_byLine hby
    | fallback hm hb hp _ hlen =>
      refine Or.inr (Or.inr ⟨_, _, hb, hp, ?_⟩)
      rw [hlen]
      exact hm
  | fail t' e =>
    rw [hv] at he
    obtain ⟨hrej, -⟩ := he
    cases hrej with
    | octet hb hp _ hlen hbig =>
      refine Or.inr (Or.inr ⟨_, _, hb, hp, ?_⟩)
      rw [hlen]
      intro _
      exact Or.inr hbig
    | line hby => exact headerUsable_of_byLine hby

theorem visited_maxFrameLen {d t : TcpDecoder} {chunks rest : List Bytes}
    (h : Visited d chunks t rest) : t.maxFrameLen = d.maxFrameLen := by
  refine visits_state (J := fun t => t.maxFrameLen = d.maxFrameLen) ?_ ?_ rfl h
  · intro s c hs
    exact hs
  · intro s s' o hstep hs
    cases step_next_iff.mp hstep <;> exact hs

/-- The buffer stays within the bound on exactly those runs on which every
iteration finds a usable header in a buffer beyond it. -/
theorem bounded_iff (mode : TcpFraming) (maxFrameLen : Nat) (chunks : List Bytes) :
    BufferBounded (.new mode maxFrameLen) chunks ↔
      ∀ t rest, Visited (.new mode maxFrameLen) chunks t rest → HeaderUsable t := by
  constructor
  · intro hb t rest hv
    refine headerUsable_iff.mpr fun hw => ?_
    obtain ⟨k, hk, rfl⟩ := run_of_visits_wait (D := loop) hv hw
    have hle := hb k hk
    rw [bufferBound] at hle ⊢
    rwa [visited_maxFrameLen hv]
  · intro hu k hk
    by_cases hne : chunks.take k = []
    · simp [hne, pushAll, run, TcpDecoder.new]
    · obtain ⟨hv, hw⟩ := visits_last hne hk
      have hv' := visits_of_take hv
      have hle := headerUsable_iff.mp (hu _ _ hv') hw
      rw [bufferBound] at hle ⊢
      rwa [visited_maxFrameLen hv'] at hle

/-- Bytes without a space are retained whatever the ceiling, in both modes
that wait for a header. -/
theorem not_bounded :
    ¬ BufferBounded (.new .auto 16) [List.replicate 64 0x61] ∧
      ¬ BufferBounded (.new .octetCounting 16) [List.replicate 64 0x61] := by
  constructor
  · intro h
    exact absurd (h 1) (by decide +kernel)
  · intro h
    exact absurd (h 1) (by decide +kernel)

end TptTelemetry.Framing.Bounded
