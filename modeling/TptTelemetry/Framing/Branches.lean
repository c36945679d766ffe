import TptTelemetry.Framing.Wire
import TptTelemetry.Lib.Labelled

namespace TptTelemetry.Framing.Branches

open TptTelemetry.Lib TptTelemetry.Lib.Incremental TptTelemetry.Lib.Utf8
open TptTelemetry.Framing.Decoder TptTelemetry.Framing.Steps TptTelemetry.Framing.Wire

/-- The branch of the drain loop that extracts a frame. Octet counting has read
a header, up to the first space. -/
inductive Branch
  | octet (header : Bytes)
  | line
  deriving DecidableEq, Repr

def branch (d : TcpDecoder) : Branch :=
  match d.mode with
  | .octetCounting => .octet (d.buf.takeWhile (· ≠ SP))
  | .nonTransparent => .line
  | .auto =>
    match detect d with
    | some .octet => .octet (d.buf.takeWhile (· ≠ SP))
    | some .lf => .line
    | none => .line

theorem branch_announces {d : TcpDecoder} {p r : Bytes} (hb : d.buf = p ++ SP :: r) (hp : SP ∉ p)
    (ha : Announces d p) : branch d = .octet p := by
  obtain hm | ⟨hm, hd⟩ := ha
  · simp only [branch, hm, hb, takeWhile_space hp]
  · simp only [branch, hm, detect_eq hb hp, hd, ne_eq, not_false_eq_true, and_self, if_true]
    rw [hb, takeWhile_space hp]

theorem branch_byLine {d : TcpDecoder} (h : ByLine d) : branch d = .line := by
  obtain hm | ⟨hm, p, r, hb, hp, hd⟩ := h
  · simp only [branch, hm]
  · have hn : ¬ (p ≠ [] ∧ p.all isAsciiDigit) := by tauto
    simp only [branch, hm, detect_eq hb hp, hn, if_false]

theorem branch_extend {d d' : TcpDecoder} {out : List Bytes} (c : Bytes)
    (h : drainStep d = .next d' out) (hne : out ≠ []) : branch (extend d c) = branch d := by
  cases step_next_iff.mp h with
  | @octet p frame rest hb hp ha hlen hmax hfit =>
    have hb' : (extend d c).buf = p ++ SP :: (frame ++ rest ++ c) := by simp [extend, hb]
    rw [branch_announces hb hp ha, branch_announces hb' hp ha]
  | line hby => rw [branch_byLine hby, branch_byLine (byLine_extend hby c)]
  | fallback => exact absurd rfl hne

def branches : Incremental.Decoder TcpDecoder UInt8 (Branch × Bytes) FrameError :=
  labelled loop branch branch_extend

def pushAllBy (d : TcpDecoder) (chunks : List Bytes) :
    Outcome TcpDecoder (Branch × Bytes) FrameError := Incremental.run branches d chunks

theorem pushAllBy_eq (d : TcpDecoder) (chunks : List Bytes) :
    (pushAllBy d chunks).map Prod.snd = pushAll d chunks := run_labelled d chunks

theorem branches_waits {d : TcpDecoder} (h : loop.step d = .wait) : branches.step d = .wait := by
  have hstep : branches.step d = (loop.step d).map (Prod.mk (branch d)) := rfl
  rw [hstep, h]
  rfl

theorem visited_branches {d t : TcpDecoder} {chunks rest : List Bytes} :
    Visits branches d chunks t rest ↔ Visited d chunks t rest := visits_labelled

theorem branches_next {d d' : TcpDecoder} {out : List (Branch × Bytes)}
    (h : branches.step d = .next d' out) :
    (∃ p frame rest, d.buf = p ++ SP :: (frame ++ rest) ∧ SP ∉ p ∧ Announces d p ∧
      parseLen p = some frame.length ∧ frame.length ≤ d.maxFrameLen ∧
      p.length + 1 + frame.length < usizeBound ∧ d' = { d with buf := rest } ∧
      out = [(.octet p, frame)]) ∨
    (∃ l rest, ByLine d ∧ d.buf = l ++ LF :: rest ∧ LF ∉ l ∧ d' = { d with buf := rest } ∧
      out = [(.line, stripCr l)]) ∨
    (d.mode = .auto ∧ d' = { d with mode := .nonTransparent } ∧ out = []) := by
  obtain ⟨o, ho, rfl⟩ := Verdict.map_eq_next.mp h
  cases step_next_iff.mp ho with
  | @octet p frame rest hb hp ha hlen hmax hfit =>
    refine Or.inl ⟨p, frame, rest, hb, hp, ha, hlen, hmax, hfit, rfl, ?_⟩
    rw [branch_announces hb hp ha]
    rfl
  | @line l rest hby hb hl =>
    refine Or.inr (Or.inl ⟨l, rest, hby, hb, hl, rfl, ?_⟩)
    rw [branch_byLine hby]
    rfl
  | fallback hm => exact Or.inr (Or.inr ⟨hm, rfl, rfl⟩)

theorem visited_mode {d t : TcpDecoder} {chunks rest : List Bytes} (hm : d.mode ≠ .auto)
    (h : Visited d chunks t rest) : t.mode = d.mode := by
  refine visits_state (D := loop) (J := fun t => t.mode = d.mode) (fun s c hs => hs) ?_ rfl h
  intro s s' o hs hmode
  cases step_next_iff.mp hs with
  | octet | line => exact hmode
  | fallback hauto => exact absurd (hmode.symm.trans hauto) hm

theorem visited_auto {d t : TcpDecoder} {chunks rest : List Bytes} (hm : d.mode ≠ .octetCounting)
    (h : Visited d chunks t rest) : t.mode ≠ .octetCounting := by
  refine visits_state (D := loop) (J := fun t => t.mode ≠ .octetCounting) (fun s c hs => hs) ?_ hm h
  intro s s' o hs hmode
  cases step_next_iff.mp hs with
  | octet | line => exact hmode
  | fallback => simp

theorem mem_pushAllBy {d : TcpDecoder} {chunks : List Bytes} {x : Branch × Bytes}
    (h : x ∈ (pushAllBy d chunks).out) : ∃ t rest, Visited d chunks t rest ∧
      ((∃ p r, x.1 = .octet p ∧ t.buf = p ++ SP :: (x.2 ++ r) ∧ Announces t p ∧
        parseLen p = some x.2.length ∧ x.2.length ≤ t.maxFrameLen ∧
        p.length + 1 + x.2.length < usizeBound) ∨ (x.1 = .line ∧ ByLine t)) := by
  obtain ⟨t, rest, t', o, hv, hs, hx⟩ := mem_run_out.mp h
  refine ⟨t, rest, visited_branches.mp hv, ?_⟩
  obtain ⟨p, frame, r, hb, -, ha, hlen, hmax, hfit, -, rfl⟩ | ⟨l, r, hby, -, -, -, rfl⟩ | ⟨-, -, rfl⟩ :=
    branches_next hs
  · cases List.mem_singleton.mp hx
    exact Or.inl ⟨p, r, rfl, hb, ha, hlen, hmax, hfit⟩
  · cases List.mem_singleton.mp hx
    exact Or.inr ⟨rfl, hby⟩
  · cases hx

theorem octet_mem_pushAllBy {d t : TcpDecoder} {chunks rest : List Bytes} {p frame r : Bytes}
    (hv : Visited d chunks t rest) (hb : t.buf = p ++ SP :: (frame ++ r)) (hp : SP ∉ p)
    (ha : Announces t p) (hlen : parseLen p = some frame.length)
    (hmax : frame.length ≤ t.maxFrameLen) (hfit : p.length + 1 + frame.length < usizeBound) :
    (.octet p, frame) ∈ (pushAllBy d chunks).out := by
  have hstep : branches.step t = .next { t with buf := r } [(.octet p, frame)] := by
    refine Verdict.map_eq_next.mpr ⟨[frame], step_of_moves (.octet hb hp ha hlen hmax hfit), ?_⟩
    rw [branch_announces hb hp ha]
    rfl
  exact mem_run_out.mpr ⟨t, rest, _, _, visited_branches.mpr hv, hstep, by simp⟩

end TptTelemetry.Framing.Branches
