import TptTelemetry.Framing.Header
import TptTelemetry.Server.Connection

namespace TptTelemetry.Server.Labels

open TptTelemetry.Lib TptTelemetry.Lib.Incremental TptTelemetry.Lib.Utf8
open TptTelemetry.Framing.Decoder TptTelemetry.Framing.Branches TptTelemetry.Framing.Header
open TptTelemetry.Framing.Steps (Visited pushAll flush)
open TptTelemetry.Framing.Chunking (pushAll_rejects)
open TptTelemetry.Server.Connection

variable {α : Type} (addr : α) (framing : TcpFraming) (maxFrameLen : Nat) (polls : List Poll)

/-- What a connection passes on, with the branch of the decoder that has
extracted it. No branch has extracted what is flushed. -/
def origins : List (Option Branch × Bytes) :=
  let r := pushAllBy (.new framing maxFrameLen) (received polls)
  r.out.map (fun x => (some x.1, x.2)) ++
    if (tcpConnLoop addr framing maxFrameLen polls).2 then
      (flush r.state).1.map (fun f => (none, f))
    else []

/-- The label of a message tells which branch it comes from. -/
structure Truthful (m : Message α) (origin : Option Branch × Bytes) : Prop where
  payload : m.payload = origin.2
  octet : m.framing = .rfc5424OctetCounting ↔ ∃ header, origin.1 = some (.octet header)
  line : m.framing = .rfc3164Lf ↔ origin.1 = some .line

def CountedFront (d : TcpDecoder) : Prop :=
  ∃ p frame rest, d.buf = wire (p, frame) ++ rest ∧ DigitHeader p frame.length ∧
    Fits d.maxFrameLen (p, frame)

theorem delivered_origins : (tcpConnLoop addr framing maxFrameLen polls).1.delivered =
    (origins addr framing maxFrameLen polls).map (fun o => message addr framing o.2) := by
  obtain ⟨rest, hout, hret, hrun⟩ :=
    passes_connLoop addr framing polls (c := ⟨.new framing maxFrameLen, [], []⟩) rfl
  have hpushes := pushAllBy_eq (.new framing maxFrameLen) (received polls)
  rw [← hpushes] at hout hret
  have hrest : rest = if (tcpConnLoop addr framing maxFrameLen polls).2 then
      (flush (pushAllBy (.new framing maxFrameLen) (received polls)).state).1 else [] := by
    cases hr : (tcpConnLoop addr framing maxFrameLen polls).2 with
    | true => exact hret hr
    | false => exact (hrun hr).1
  have hdelivered : (tcpConnLoop addr framing maxFrameLen polls).1.delivered =
      ((pushAllBy (.new framing maxFrameLen) (received polls)).out.map Prod.snd ++ rest).map
        (message addr framing) := hout
  rw [hdelivered, origins, hrest]
  cases (tcpConnLoop addr framing maxFrameLen polls).2 with
  | true => simp [Function.comp_def]
  | false => simp [Function.comp_def]

section Branches

variable {addr framing maxFrameLen polls}

theorem truthful_octet {b : Option Branch} {f : Bytes} (hf : framing = .octetCounting) :
    Truthful (message addr framing f) (b, f) ↔ ∃ header, b = some (.octet header) := by
  have hlabel : (message addr framing f).framing = .rfc5424OctetCounting := if_pos hf
  constructor
  · intro h
    exact h.octet.mp hlabel
  · rintro ⟨header, hb⟩
    exact ⟨rfl, iff_of_true hlabel ⟨header, hb⟩, iff_of_false (by simp [hlabel]) (by simp [hb])⟩

theorem truthful_line {b : Option Branch} {f : Bytes} (hf : framing ≠ .octetCounting) :
    Truthful (message addr framing f) (b, f) ↔ b = some .line := by
  have hlabel : (message addr framing f).framing = .rfc3164Lf := if_neg hf
  constructor
  · intro h
    exact h.line.mp hlabel
  · intro hb
    exact ⟨rfl, iff_of_false (by simp [hlabel]) (by simp [hb]), iff_of_true hlabel hb⟩

theorem pushed_truthful_iff : (∀ x ∈ (pushAllBy (.new framing maxFrameLen) (received polls)).out,
      Truthful (message addr framing x.2) (some x.1, x.2)) ↔
    (framing = .auto → ∀ t rest, Visited (.new framing maxFrameLen) (received polls) t rest →
      t.mode = .auto → ¬ CountedFront t) := by
  cases hf : framing with
  | octetCounting =>
    refine iff_of_true (fun x hx => (truthful_octet rfl).mpr ?_) (fun h => by cases h)
    obtain ⟨t, rest, hv, ⟨p, r, hp, -⟩ | ⟨-, hby⟩⟩ := mem_pushAllBy hx
    · exact ⟨p, congrArg some hp⟩
    · exact absurd hby (not_byLine (visited_mode (by simp [TcpDecoder.new]) hv))
  | nonTransparent =>
    refine iff_of_true (fun x hx => (truthful_line (by simp)).mpr ?_) (fun h => by cases h)
    obtain ⟨t, rest, hv, ⟨p, r, -, -, ha, -⟩ | ⟨hl, -⟩⟩ := mem_pushAllBy hx
    · exact absurd ha (not_announces (visited_mode (by simp [TcpDecoder.new]) hv) p)
    · exact congrArg some hl
  | auto =>
    constructor
    · rintro h - t rest hv hm ⟨p, frame, r, hb, hheader, hfit⟩
      have hlen : parseLen p = some frame.length := parseLen_digits hfit (Or.inl hheader)
      have hmem := octet_mem_pushAllBy hv (by simpa [wire] using hb) (not_mem_of_parseLen hlen)
        (Or.inr ⟨hm, hheader.1, hheader.2.1⟩) hlen hfit.1 hfit.2
      have hline := (truthful_line (by simp)).mp (h _ hmem)
      cases hline
    · intro h x hx
      refine (truthful_line (by simp)).mpr ?_
      obtain ⟨t, rest, hv, ⟨p, r, -, hb, ha, hlen, hmax, hfit⟩ | ⟨hl, -⟩⟩ := mem_pushAllBy hx
      · obtain hm | ⟨hm, -, hdigits⟩ := ha
        · exact absurd hm (visited_auto (by simp [TcpDecoder.new]) hv)
        · refine absurd ⟨p, x.2, r, by simpa [wire] using hb, ?_, hmax, hfit⟩ (h rfl t rest hv hm)
          obtain ⟨-, hheader | ⟨ds, rfl, -⟩⟩ := parseLen_eq_some.mp hlen
          · exact hheader
          · simp [not_isAsciiDigit_plus] at hdigits
      · exact congrArg some hl

theorem flushed_truthful_iff {d : TcpDecoder} : (∀ f ∈ (flush d).1,
    Truthful (message addr framing f) (none, f)) ↔ d.buf = [] := by
  have hnot : ∀ f, ¬ Truthful (message addr framing f) (none, f) := by
    intro f h
    by_cases hf : framing = .octetCounting
    · obtain ⟨header, hh⟩ := (truthful_octet hf).mp h
      cases hh
    · have hl := (truthful_line hf).mp h
      cases hl
  rw [flush]
  split
  · next hb => exact iff_of_true (by simp) hb
  · next hb => exact iff_of_false (by simpa using hnot d.buf) hb

end Branches

/-- The labels of a connection's messages tell how they were framed exactly when
no iteration of the auto mode finds a counted frame, and nothing is left in the
buffer when the connection is closed. -/
theorem labels_iff :
    List.Forall₂ Truthful (tcpConnLoop addr framing maxFrameLen polls).1.delivered
        (origins addr framing maxFrameLen polls) ↔
      (framing = .auto → ∀ t rest, Visited (.new framing maxFrameLen) (received polls) t rest →
        t.mode = .auto → ¬ CountedFront t) ∧
      (Ends polls → (pushAll (.new framing maxFrameLen) (received polls)).state.buf = []) := by
  have hstate : (pushAllBy (.new framing maxFrameLen) (received polls)).state =
      (pushAll (.new framing maxFrameLen) (received polls)).state := by
    rw [← pushAllBy_eq]
    rfl
  have hends : (Ends polls → (pushAll (.new framing maxFrameLen) (received polls)).state.buf = []) ↔
      ((tcpConnLoop addr framing maxFrameLen polls).2 = true →
        (pushAll (.new framing maxFrameLen) (received polls)).state.buf = []) := by
    rw [tcpConnLoop, connLoop_returned]
    refine ⟨fun h => ?_, fun h he => h (Or.inl he)⟩
    -- A push that fails leaves nothing to be flushed.
    rintro (he | he)
    · exact h he
    · obtain ⟨e, he⟩ := Option.ne_none_iff_exists'.mp he
      exact (pushAll_rejects he).1
  rw [hends, delivered_origins, List.forall₂_map_left_iff, List.forall₂_same, origins,
    List.forall_mem_append, List.forall_mem_map, pushed_truthful_iff]
  refine and_congr_right fun _ => ?_
  cases (tcpConnLoop addr framing maxFrameLen polls).2 with
  | true =>
    rw [if_pos rfl, List.forall_mem_map, ← hstate, flushed_truthful_iff]
    simp
  | false => simp

theorem octet_labelled_line : ¬ List.Forall₂ Truthful
    (tcpConnLoop () .auto 16 [.ok (encode "2 ab".toList)]).1.delivered
    (origins () .auto 16 [.ok (encode "2 ab".toList)]) := by
  have hdelivered : (tcpConnLoop () .auto 16 [.ok (encode "2 ab".toList)]).1.delivered =
      [⟨.tcp, (), .rfc3164Lf, encode "ab".toList⟩] := by decide +kernel
  have horigins : origins () .auto 16 [.ok (encode "2 ab".toList)] =
      [(some (.octet (encode "2".toList)), encode "ab".toList)] := by decide +kernel
  rw [hdelivered, horigins]
  intro h
  obtain ⟨htruth, -⟩ := List.forall₂_cons.mp h
  have hline := htruth.line.mp rfl
  cases hline

end TptTelemetry.Server.Labels
