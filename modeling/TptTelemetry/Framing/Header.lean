import TptTelemetry.Framing.Branches

namespace TptTelemetry.Framing.Header

open TptTelemetry.Lib TptTelemetry.Lib.Incremental TptTelemetry.Lib.Utf8 TptTelemetry.Lib.Numeral
open TptTelemetry.Framing.Decoder TptTelemetry.Framing.Steps TptTelemetry.Framing.Wire
open TptTelemetry.Framing.Branches

abbrev PLUS : UInt8 := 0x2B

section Lengths

def text (p : Bytes) : Text.Str := p.map (fun b => Char.ofNat b.toNat)

def DigitHeader (p : Bytes) (n : Nat) : Prop :=
  p ≠ [] ∧ p.all isAsciiDigit ∧ Nat.ofDigitChars 10 (text p) 0 = n

theorem text_encode {s : Text.Str} (hs : Text.Ascii s) : text (encode s) = s := by
  induction s with
  | nil => rfl
  | cons c s ih =>
    obtain ⟨hc, hs⟩ := List.forall_mem_cons.mp hs
    rw [encode_cons_ascii hc, text, List.map_cons, (toUInt8_ascii hc).2, ← text, ih hs]

theorem ofNat_digit {b : UInt8} (h : isAsciiDigit b) :
    (Char.ofNat b.toNat).isDigit ∧ (Char.ofNat b.toNat).val.toUInt8 = b := by
  have hall : ∀ n < 58, 48 ≤ n → (Char.ofNat n).isDigit ∧
      (Char.ofNat n).val.toUInt8 = UInt8.ofNat n := by decide
  simp only [isAsciiDigit, Bool.and_eq_true, decide_eq_true_eq, UInt8.le_iff_toNat_le,
    UInt8.toNat_ofNat] at h
  obtain ⟨hdigit, hbyte⟩ := hall b.toNat (by omega) (by omega)
  exact ⟨hdigit, by rw [hbyte, UInt8.ofNat_toNat]⟩

theorem encode_text {p : Bytes} (hp : p.all isAsciiDigit) :
    encode (text p) = p ∧ ∀ c ∈ text p, c.isDigit := by
  induction p with
  | nil => exact ⟨rfl, by simp [text]⟩
  | cons b p ih =>
    rw [List.all_cons, Bool.and_eq_true] at hp
    obtain ⟨hb, hp⟩ := hp
    obtain ⟨hdigit, hbyte⟩ := ofNat_digit hb
    obtain ⟨henc, hall⟩ := ih hp
    refine ⟨?_, List.forall_mem_cons.mpr ⟨hdigit, hall⟩⟩
    rw [text, List.map_cons, ← text, encode_cons_ascii (utf8Size_of_isDigit hdigit), hbyte, henc]

theorem toNat_of_isDigit {c : Char} (hc : c.isDigit) : 0 < c.toNat ∧ c.toNat < 0x80 := by
  have hv : 48 ≤ c.toNat ∧ c.toNat ≤ 57 := by
    simpa [Char.isDigit, UInt32.le_iff_toNat_le] using hc
  omega

theorem digitHeader_encode {s : Text.Str} {n : Nat} :
    s ≠ [] ∧ parseDigits 10 usizeBound 0 s = some n ↔
      (∀ c ∈ s, c.isDigit) ∧ DigitHeader (encode s) n ∧ n < usizeBound := by
  rw [parseDigits_ten (by decide)]
  constructor
  · rintro ⟨hne, hs, hv, hn⟩
    have hascii : Text.Ascii s := fun c hc => utf8Size_of_isDigit (hs c hc)
    obtain ⟨hall, hlen⟩ := encode_digits hs
    refine ⟨hs, ⟨fun hnil => hne ?_, hall, by rw [text_encode hascii, hv]⟩, hn⟩
    rw [hnil] at hlen
    exact List.length_eq_zero_iff.mp hlen.symm
  · rintro ⟨hs, ⟨hne, -, hv⟩, hn⟩
    have hascii : Text.Ascii s := fun c hc => utf8Size_of_isDigit (hs c hc)
    rw [text_encode hascii] at hv
    refine ⟨fun hnil => hne ?_, hs, hv, hn⟩
    rw [hnil]
    rfl

theorem encode_plus (s : Text.Str) : encode ('+' :: s) = PLUS :: encode s := encode_cons_ascii rfl s

/-- A length is written with digits, or with a plus sign and digits. -/
theorem parseLen_eq_some {p : Bytes} {n : Nat} : parseLen p = some n ↔
    n < usizeBound ∧ (DigitHeader p n ∨ ∃ ds, p = PLUS :: ds ∧ DigitHeader ds n) := by
  rw [parseLen, Option.bind_eq_some_iff]
  constructor
  · rintro ⟨s, hs, hn⟩
    obtain hdigits | ⟨t, rfl, hdigits⟩ := parseUnsigned_eq_some.mp hn
    · obtain ⟨hall, hheader, hlt⟩ := digitHeader_encode.mp hdigits
      rw [encode_of_fromUtf8 hs (fun c hc => toNat_of_isDigit (hall c hc))]
      exact ⟨hlt, Or.inl hheader⟩
    · obtain ⟨hall, hheader, hlt⟩ := digitHeader_encode.mp hdigits
      have hcodes : ∀ c ∈ '+' :: t, 0 < c.toNat ∧ c.toNat < 0x80 :=
        List.forall_mem_cons.mpr ⟨by decide, fun c hc => toNat_of_isDigit (hall c hc)⟩
      rw [encode_of_fromUtf8 hs hcodes, encode_plus]
      exact ⟨hlt, Or.inr ⟨_, rfl, hheader⟩⟩
  · have hread : ∀ ds, DigitHeader ds n → n < usizeBound → encode (text ds) = ds ∧
        Text.Ascii (text ds) ∧ text ds ≠ [] ∧ parseDigits 10 usizeBound 0 (text ds) = some n := by
      intro ds hheader hlt
      obtain ⟨henc, hall⟩ := encode_text hheader.2.1
      rw [← henc] at hheader
      exact ⟨henc, fun c hc => utf8Size_of_isDigit (hall c hc),
        digitHeader_encode.mpr ⟨hall, hheader, hlt⟩⟩
    rintro ⟨hlt, hheader | ⟨ds, rfl, hheader⟩⟩
    · obtain ⟨henc, hascii, hdigits⟩ := hread p hheader hlt
      exact ⟨text p, by rw [← fromUtf8_encode hascii, henc],
        parseUnsigned_eq_some.mpr (Or.inl hdigits)⟩
    · obtain ⟨henc, hascii, hdigits⟩ := hread ds hheader hlt
      have hplus : Text.Ascii ('+' :: text ds) := List.forall_mem_cons.mpr ⟨rfl, hascii⟩
      refine ⟨'+' :: text ds, ?_, parseUnsigned_eq_some.mpr (Or.inr ⟨_, rfl, hdigits⟩)⟩
      rw [← fromUtf8_encode hplus, encode_plus, henc]

end Lengths

section Frames

def wire (x : Bytes × Bytes) : Bytes := x.1 ++ SP :: x.2

def octetFrame (x : Bytes × Bytes) : Branch × Bytes := (.octet x.1, x.2)

/-- The frame is within the ceiling, and it ends within the address space. -/
def Fits (maxFrameLen : Nat) (x : Bytes × Bytes) : Prop :=
  x.2.length ≤ maxFrameLen ∧ x.1.length + 1 + x.2.length < usizeBound

/-- All that octet counting extracts stands in the stream behind a header of
digits with its length. -/
def DigitHeaders (d : TcpDecoder) (chunks : List Bytes) : Prop :=
  ∀ p f, (.octet p, f) ∈ (pushAllBy d chunks).out →
    DigitHeader p f.length ∧ ∃ a b, chunks.flatten = a ++ wire (p, f) ++ b

/-- The stream has frames behind headers of digits, and then a frame whose
header has a plus sign in front of the digits. -/
def PlusFrame (maxFrameLen : Nat) (stream : Bytes) : Prop :=
  ∃ (frames : List (Bytes × Bytes)) (ds f rest : Bytes),
    (∀ x ∈ frames, DigitHeader x.1 x.2.length ∧ Fits maxFrameLen x) ∧
    DigitHeader ds f.length ∧ Fits maxFrameLen (PLUS :: ds, f) ∧
    stream = frames.flatMap wire ++ (wire (PLUS :: ds, f) ++ rest)

theorem not_isAsciiDigit_plus : isAsciiDigit PLUS = false := by decide

theorem not_mem_of_parseLen {p : Bytes} {n : Nat} (h : parseLen p = some n) : SP ∉ p := by
  obtain ⟨-, hheader | ⟨ds, rfl, hheader⟩⟩ := parseLen_eq_some.mp h
  · exact not_mem_of_digits hheader.2.1
  · exact List.not_mem_cons_of_ne_of_not_mem (by decide) (not_mem_of_digits hheader.2.1)

theorem framed_headed {d : TcpDecoder} {x : Bytes × Bytes} (hm : d.mode = .octetCounting)
    (hlen : parseLen x.1 = some x.2.length) (hx : Fits d.maxFrameLen x) :
    Framed branches (fun b => { d with buf := b }) wire octetFrame x where
  whole r := by
    have hsp := not_mem_of_parseLen hlen
    have hb : wire x ++ r = x.1 ++ SP :: (x.2 ++ r) := by simp [wire]
    have hmoves : Moves { d with buf := wire x ++ r } { d with buf := r } [x.2] :=
      .octet (d := { d with buf := wire x ++ r }) hb hsp (Or.inl hm) hlen hx.1 hx.2
    refine Verdict.map_eq_next.mpr ⟨[x.2], step_of_moves hmoves, ?_⟩
    rw [branch_announces (d := { d with buf := wire x ++ r }) hb hsp (Or.inl hm)]
    rfl
  part p hp hne := branches_waits (step_of_waits
    (waits_headed (d := { d with buf := p }) (not_mem_of_parseLen hlen) (Or.inl hm) hlen hx.1 hx.2
      hp hne))

def Detected (xs : Bytes) (out : List (Branch × Bytes)) (d : TcpDecoder) : Prop :=
  d.mode ≠ .octetCounting ∧ ∃ used, xs = used ++ d.buf ∧
    ∀ p f, (.octet p, f) ∈ out → DigitHeader p f.length ∧ ∃ a b, used = a ++ wire (p, f) ++ b

theorem detected_feed (xs : Bytes) (out : List (Branch × Bytes)) (d : TcpDecoder) (c : Bytes)
    (h : Detected xs out d) : Detected (xs ++ c) out (extend d c) := by
  obtain ⟨hm, used, rfl, hout⟩ := h
  exact ⟨hm, used, by simp [extend], hout⟩

theorem detected_next (xs : Bytes) (out : List (Branch × Bytes)) (d d' : TcpDecoder)
    (o : List (Branch × Bytes)) (hs : branches.step d = .next d' o) (h : Detected xs out d) :
    Detected xs (out ++ o) d' := by
  obtain ⟨hm, used, rfl, hout⟩ := h
  obtain ⟨p, frame, rest, hb, hp, ha, hlen, -, -, rfl, rfl⟩ | ⟨l, rest, -, hb, -, rfl, rfl⟩ |
    ⟨hauto, rfl, rfl⟩ := branches_next hs
  · refine ⟨hm, used ++ wire (p, frame), by simp [hb, wire], fun q f hq => ?_⟩
    obtain hq | hq := List.mem_append.mp hq
    · obtain ⟨hheader, a, b, hab⟩ := hout q f hq
      exact ⟨hheader, a, b ++ wire (p, frame), by simp [hab]⟩
    · obtain ⟨rfl, rfl⟩ : q = p ∧ f = frame := by simpa using hq
      refine ⟨?_, used, [], by simp⟩
      obtain ⟨-, hheader | ⟨ds, rfl, -⟩⟩ := parseLen_eq_some.mp hlen
      · exact hheader
      · obtain hoctet | ⟨-, -, hdigits⟩ := ha
        · exact absurd hoctet hm
        · simp [not_isAsciiDigit_plus] at hdigits
  · refine ⟨hm, used ++ l ++ [LF], by simp [hb], fun q f hq => ?_⟩
    obtain hq | hq := List.mem_append.mp hq
    · obtain ⟨hheader, a, b, hab⟩ := hout q f hq
      exact ⟨hheader, a, b ++ l ++ [LF], by simp [hab]⟩
    · simp at hq
  · exact ⟨by simp, used, rfl, by simpa using hout⟩

def Counted (maxFrameLen : Nat) (xs : Bytes) (out : List (Branch × Bytes)) (d : TcpDecoder) : Prop :=
  d.mode = .octetCounting ∧ d.maxFrameLen = maxFrameLen ∧
    ∃ frames : List (Bytes × Bytes), out = frames.map octetFrame ∧ xs = frames.flatMap wire ++ d.buf ∧
      ∀ x ∈ frames, parseLen x.1 = some x.2.length ∧ Fits maxFrameLen x

theorem counted_feed (maxFrameLen : Nat) (xs : Bytes) (out : List (Branch × Bytes))
    (d : TcpDecoder) (c : Bytes) (h : Counted maxFrameLen xs out d) :
    Counted maxFrameLen (xs ++ c) out (extend d c) := by
  obtain ⟨hm, hmax, frames, hout, rfl, hframes⟩ := h
  exact ⟨hm, hmax, frames, hout, by simp [extend], hframes⟩

theorem counted_next (maxFrameLen : Nat) (xs : Bytes) (out : List (Branch × Bytes))
    (d d' : TcpDecoder) (o : List (Branch × Bytes)) (hs : branches.step d = .next d' o)
    (h : Counted maxFrameLen xs out d) : Counted maxFrameLen xs (out ++ o) d' := by
  obtain ⟨hm, rfl, frames, rfl, rfl, hframes⟩ := h
  obtain ⟨p, frame, rest, hb, -, -, hlen, hmax, hfit, rfl, rfl⟩ | ⟨l, rest, hby, -⟩ | ⟨hauto, -⟩ :=
    branches_next hs
  · refine ⟨hm, rfl, frames ++ [(p, frame)], by simp [octetFrame], by simp [hb, wire], ?_⟩
    intro x hx
    obtain hx | hx := List.mem_append.mp hx
    · exact hframes x hx
    · cases List.mem_singleton.mp hx
      exact ⟨hlen, hmax, hfit⟩
  · exact absurd hby (not_byLine hm)
  · rw [hm] at hauto
    cases hauto

theorem pushAllBy_headed {maxFrameLen : Nat} {chunks : List Bytes} {frames : List (Bytes × Bytes)}
    {rest : Bytes} (h : ∀ x ∈ frames, parseLen x.1 = some x.2.length ∧
      Fits (TcpDecoder.new .octetCounting maxFrameLen).maxFrameLen x)
    (hc : chunks.flatten = frames.flatMap wire ++ rest) :
    ∃ more, (pushAllBy (.new .octetCounting maxFrameLen) chunks).out =
      frames.map octetFrame ++ more := by
  have hempty := branches_waits (new_waits .octetCounting maxFrameLen)
  have hx : ∀ x ∈ frames, Framed branches
      (fun b => { TcpDecoder.new .octetCounting maxFrameLen with buf := b }) wire octetFrame x :=
    fun x hx => framed_headed rfl (h x hx).1 (h x hx).2
  exact run_framed_append hempty (fun _ _ => rfl) hx (b := []) hempty hc

theorem parseLen_digits {x : Bytes × Bytes} {maxFrameLen : Nat} (hx : Fits maxFrameLen x)
    (h : DigitHeader x.1 x.2.length ∨ ∃ ds, x.1 = PLUS :: ds ∧ DigitHeader ds x.2.length) :
    parseLen x.1 = some x.2.length := by
  refine parseLen_eq_some.mpr ⟨?_, h⟩
  have := hx.2
  omega

section Stream

variable {mode : TcpFraming} {maxFrameLen : Nat} {chunks : List Bytes}

theorem not_digitHeaders_of_plusFrame
    (h : PlusFrame (TcpDecoder.new .octetCounting maxFrameLen).maxFrameLen chunks.flatten) :
    ¬ DigitHeaders (.new .octetCounting maxFrameLen) chunks := by
  obtain ⟨frames, ds, f, rest, hframes, hds, hfit, hstream⟩ := h
  have hall : ∀ x ∈ frames ++ [(PLUS :: ds, f)], parseLen x.1 = some x.2.length ∧
      Fits (TcpDecoder.new .octetCounting maxFrameLen).maxFrameLen x := by
    intro x hx
    obtain hx | hx := List.mem_append.mp hx
    · obtain ⟨hheader, hx'⟩ := hframes x hx
      exact ⟨parseLen_digits hx' (Or.inl hheader), hx'⟩
    · cases List.mem_singleton.mp hx
      exact ⟨parseLen_digits hfit (Or.inr ⟨ds, rfl, hds⟩), hfit⟩
  obtain ⟨more, hmore⟩ := pushAllBy_headed hall (hstream.trans (by simp; rfl))
  intro h
  obtain ⟨⟨-, hdigits, -⟩, -⟩ := h (PLUS :: ds) f (by rw [hmore]; simp [octetFrame])
  simp [not_isAsciiDigit_plus] at hdigits

/-- Of the frames that a stream begins with, the first with a sign is what the
condition excludes. -/
theorem digits_of_not_plusFrame {frames : List (Bytes × Bytes)} {rest : Bytes}
    (hframes : ∀ x ∈ frames, parseLen x.1 = some x.2.length ∧ Fits maxFrameLen x)
    (h : ¬ PlusFrame maxFrameLen (frames.flatMap wire ++ rest)) :
    ∀ x ∈ frames, DigitHeader x.1 x.2.length := by
  obtain hall | ⟨past, ⟨q, f⟩, more, rfl, hpast, hx⟩ :=
    Lines.forall_or_first (fun x : Bytes × Bytes => DigitHeader x.1 x.2.length) frames
  · exact hall
  obtain ⟨hlen, hfit⟩ := hframes (q, f) (by simp)
  obtain ⟨-, hheader | ⟨ds, rfl, hheader⟩⟩ := parseLen_eq_some.mp hlen
  · exact absurd hheader hx
  refine absurd ⟨past, ds, f, more.flatMap wire ++ rest, ?_, hheader, hfit, by simp⟩ h
  exact fun y hy => ⟨hpast y hy, (hframes y (by simp [hy])).2⟩

theorem digitHeaders_of_not_plusFrame
    (h : ¬ PlusFrame (TcpDecoder.new .octetCounting maxFrameLen).maxFrameLen chunks.flatten) :
    DigitHeaders (.new .octetCounting maxFrameLen) chunks := by
  intro p f hpf
  have hstart : Counted (TcpDecoder.new .octetCounting maxFrameLen).maxFrameLen [] []
      (.new .octetCounting maxFrameLen) := ⟨rfl, rfl, [], rfl, rfl, by simp⟩
  obtain ⟨xs, t, ⟨later, hxs⟩, -, -, frames, hout, rfl, hframes⟩ :=
    run_rule_out (D := branches) _ (counted_feed _) (counted_next _) chunks hstart
  rw [List.nil_append] at hxs
  rw [← hxs, List.append_assoc] at h
  have hmem : (.octet p, f) ∈ frames.map octetFrame := hout ▸ hpf
  obtain ⟨⟨q, f'⟩, hx, hqf⟩ := List.mem_map.mp hmem
  cases hqf
  obtain ⟨past, more, rfl⟩ := List.append_of_mem hx
  refine ⟨digits_of_not_plusFrame hframes h _ hx, past.flatMap wire,
    more.flatMap wire ++ t.buf ++ later, ?_⟩
  simpa using hxs.symm

theorem digitHeaders_of_detects (hm : mode ≠ .octetCounting) :
    DigitHeaders (.new mode maxFrameLen) chunks := by
  intro p f hpf
  have hstart : Detected [] [] (.new mode maxFrameLen) := ⟨hm, [], rfl, by simp⟩
  obtain ⟨xs, t, ⟨later, hxs⟩, -, used, rfl, hout⟩ :=
    run_rule_out (D := branches) Detected detected_feed detected_next chunks hstart
  obtain ⟨hheader, a, b, rfl⟩ := hout p f hpf
  exact ⟨hheader, a, b ++ t.buf ++ later, by simpa using hxs.symm⟩

end Stream

/-- What octet counting extracts has a header of digits, except in the mode
that is for octet counting only, on a stream with a frame behind a plus sign. -/
theorem digit_headers_iff (mode : TcpFraming) (maxFrameLen : Nat) (chunks : List Bytes) :
    DigitHeaders (.new mode maxFrameLen) chunks ↔
      (mode = .octetCounting →
        ¬ PlusFrame (TcpDecoder.new mode maxFrameLen).maxFrameLen chunks.flatten) := by
  constructor
  · rintro h rfl hplus
    exact not_digitHeaders_of_plusFrame hplus h
  · intro h
    by_cases hm : mode = .octetCounting
    · subst hm
      exact digitHeaders_of_not_plusFrame (h rfl)
    · exact digitHeaders_of_detects hm

/-- The sign is read as a part of the length. -/
theorem plus_header_accepted :
    ¬ DigitHeaders (.new .octetCounting 16) [encode "+2 ab".toList] := by
  intro h
  have hout : (.octet (encode "+2".toList), encode "ab".toList) ∈
      (pushAllBy (.new .octetCounting 16) [encode "+2 ab".toList]).out := by decide +kernel
  obtain ⟨⟨-, hdigits, -⟩, -⟩ := h _ _ hout
  exact absurd hdigits (by decide)

end Frames

end TptTelemetry.Framing.Header
