import TptTelemetry.Framing.Steps
import Mathlib.Data.List.Forall2

namespace TptTelemetry.Framing.Chunking

open TptTelemetry.Lib TptTelemetry.Lib.Incremental TptTelemetry.Lib.Utf8
open TptTelemetry.Framing.Decoder TptTelemetry.Framing.Steps

theorem pushAll_eq_push (mode : TcpFraming) (maxFrameLen : Nat) (chunks : List Bytes)
    (h : (pushAll (.new mode maxFrameLen) chunks).error = none) :
    pushAll (.new mode maxFrameLen) chunks = push (.new mode maxFrameLen) chunks.flatten :=
  run_eq_push (new_waits mode maxFrameLen) chunks h

/-- Two cuttings of one stream that both get through give the same frames
and leave the same decoder, whatever a peer's network made of them. -/
theorem pushAll_chunking (mode : TcpFraming) (maxFrameLen : Nat) (xs ys : List Bytes)
    (hxy : xs.flatten = ys.flatten)
    (hx : (pushAll (.new mode maxFrameLen) xs).error = none)
    (hy : (pushAll (.new mode maxFrameLen) ys).error = none) :
    (pushAll (.new mode maxFrameLen) xs).out = (pushAll (.new mode maxFrameLen) ys).out ∧
      (pushAll (.new mode maxFrameLen) xs).state.buf =
        (pushAll (.new mode maxFrameLen) ys).state.buf ∧
      (pushAll (.new mode maxFrameLen) xs).state.mode =
        (pushAll (.new mode maxFrameLen) ys).state.mode ∧
      flush (pushAll (.new mode maxFrameLen) xs).state =
        flush (pushAll (.new mode maxFrameLen) ys).state := by
  have h : pushAll (.new mode maxFrameLen) xs = pushAll (.new mode maxFrameLen) ys := by
    rw [pushAll_eq_push mode maxFrameLen xs hx, pushAll_eq_push mode maxFrameLen ys hy, hxy]
  rw [h]
  exact ⟨rfl, rfl, rfl, rfl⟩

theorem pushAll_chunking_mixed :
    (pushAll (.new .auto 16)
        [encode "3 ab".toList, encode "cx y\r".toList, encode "\n7".toList]).out =
      (pushAll (.new .auto 16) [encode "3 abcx y\r\n7".toList]).out :=
  (pushAll_chunking .auto 16
    [encode "3 ab".toList, encode "cx y\r".toList, encode "\n7".toList]
    [encode "3 abcx y\r\n7".toList]
    (by decide +kernel) (by decide +kernel) (by decide +kernel)).1

inductive Encodes (frame : Bytes) : Bytes → Prop
  | octet {p : Bytes} (h : parseLen p = some frame.length) : Encodes frame (p ++ SP :: frame)
  | lf : Encodes frame (frame ++ [LF])
  | crlf : Encodes frame (frame ++ [CR, LF])

/-- The stream is the frames, each as it stood in it, and the rest. -/
def Accounts (stream : Bytes) (frames : List Bytes) (rest : Bytes) : Prop :=
  ∃ pieces, List.Forall₂ Encodes frames pieces ∧ stream = pieces.flatten ++ rest

theorem encodes_line (l : Bytes) : Encodes (stripCr l) (l ++ [LF]) := by
  by_cases h : l.getLast? = some CR
  · obtain ⟨l', rfl⟩ := List.getLast?_eq_some_iff.mp h
    simpa [stripCr] using (Encodes.crlf : Encodes l' _)
  · rw [stripCr, if_neg h]
    exact Encodes.lf

theorem accounts_extend {stream rest : Bytes} {frames : List Bytes}
    (h : Accounts stream frames rest) (c : Bytes) : Accounts (stream ++ c) frames (rest ++ c) := by
  obtain ⟨pieces, hp, rfl⟩ := h
  exact ⟨pieces, hp, by simp⟩

theorem accounts_frame {stream rest frame piece : Bytes} {frames : List Bytes}
    (h : Accounts stream frames (piece ++ rest)) (he : Encodes frame piece) :
    Accounts stream (frames ++ [frame]) rest := by
  obtain ⟨pieces, hp, rfl⟩ := h
  exact ⟨pieces ++ [piece], List.rel_append hp (.cons he .nil), by simp⟩

theorem accounts_moves {d d' : TcpDecoder} {stream : Bytes} {frames out : List Bytes}
    (hm : Moves d d' out) (h : Accounts stream frames d.buf) :
    Accounts stream (frames ++ out) d'.buf := by
  cases hm with
  | octet hb _ _ hlen =>
    refine accounts_frame ?_ (.octet hlen)
    simpa [hb] using h
  | line _ hb _ =>
    refine accounts_frame ?_ (encodes_line _)
    simpa [hb] using h
  | fallback => simpa using h

def Accounted (stream : Bytes) (frames : List Bytes) (d : TcpDecoder) : Prop :=
  Accounts stream frames d.buf

theorem accounted_feed (stream : Bytes) (frames : List Bytes) (d : TcpDecoder) (c : Bytes)
    (h : Accounted stream frames d) : Accounted (stream ++ c) frames (loop.feed d c) :=
  accounts_extend h c

theorem accounted_next (stream : Bytes) (frames : List Bytes) (d d' : TcpDecoder)
    (out : List Bytes) (hs : loop.step d = .next d' out) (h : Accounted stream frames d) :
    Accounted stream (frames ++ out) d' := accounts_moves (step_next_iff.mp hs) h

theorem accounted_new (mode : TcpFraming) (maxFrameLen : Nat) :
    Accounted [] [] (.new mode maxFrameLen) := ⟨[], .nil, rfl⟩

theorem pushAll_rejects {mode : TcpFraming} {maxFrameLen : Nat} {chunks : List Bytes}
    {e : FrameError} (he : (pushAll (.new mode maxFrameLen) chunks).error = some e) :
    (pushAll (.new mode maxFrameLen) chunks).state.buf = [] ∧
      ∃ past c rest t, chunks = past ++ c :: rest ∧
        (pushAll (.new mode maxFrameLen) past).error = none ∧ Rejects t e ∧
        Accounts (past ++ [c]).flatten (pushAll (.new mode maxFrameLen) chunks).out t.buf := by
  obtain ⟨past, c, rest, t, hc, hp, -, hf, hi⟩ :=
    run_rule_error Accounted accounted_feed accounted_next (accounted_new mode maxFrameLen) he
  obtain ⟨hrej, hd⟩ := step_fail_iff.mp hf
  refine ⟨?_, past, c, rest, t, hc, hp, hrej, hi⟩
  rw [pushAll, hd]

/-- No byte is lost, duplicated or reordered, in any mode, on any run. -/
theorem pushAll_accounts (mode : TcpFraming) (maxFrameLen : Nat) (chunks : List Bytes) :
    ((pushAll (.new mode maxFrameLen) chunks).error = none →
      Accounts chunks.flatten (pushAll (.new mode maxFrameLen) chunks).out
        (pushAll (.new mode maxFrameLen) chunks).state.buf) ∧
    ∀ e, (pushAll (.new mode maxFrameLen) chunks).error = some e →
      (pushAll (.new mode maxFrameLen) chunks).state.buf = [] ∧
      ∃ past c rest discarded, chunks = past ++ c :: rest ∧
        (pushAll (.new mode maxFrameLen) past).error = none ∧
        Accounts (past ++ [c]).flatten (pushAll (.new mode maxFrameLen) chunks).out discarded := by
  refine ⟨fun h => run_rule Accounted accounted_feed accounted_next chunks
    (accounted_new mode maxFrameLen) h, fun e he => ?_⟩
  obtain ⟨hbuf, past, c, rest, t, hc, hp, -, hi⟩ := pushAll_rejects he
  exact ⟨hbuf, past, c, rest, t.buf, hc, hp, hi⟩

end TptTelemetry.Framing.Chunking
