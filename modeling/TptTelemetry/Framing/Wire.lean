import TptTelemetry.Framing.Steps

namespace TptTelemetry.Framing.Wire

open TptTelemetry.Lib TptTelemetry.Lib.Incremental TptTelemetry.Lib.Utf8 TptTelemetry.Lib.Numeral
open TptTelemetry.Framing.Decoder TptTelemetry.Framing.Steps

def header (n : Nat) : Bytes := encode (decimal n)

theorem encode_digits {s : Text.Str} (hs : ∀ c ∈ s, c.isDigit) :
    (encode s).all isAsciiDigit ∧ (encode s).length = s.length := by
  induction s with
  | nil => exact ⟨rfl, rfl⟩
  | cons c s ih =>
    have hc : c.isDigit := hs c (by simp)
    obtain ⟨ha, hl⟩ := ih (fun d hd => hs d (by simp [hd]))
    have hv : 48 ≤ c.val.toNat ∧ c.val.toNat ≤ 57 := by
      simpa [Char.isDigit, UInt32.le_iff_toNat_le] using hc
    have hb : isAsciiDigit c.val.toUInt8 := by
      simp only [isAsciiDigit, Bool.and_eq_true, decide_eq_true_eq, UInt8.le_iff_toNat_le,
        UInt32.toNat_toUInt8, UInt8.toNat_ofNat]
      omega
    rw [encode_cons_ascii (utf8Size_of_isDigit hc)]
    exact ⟨by rw [List.all_cons, hb, ha]; rfl, by rw [List.length_cons, hl, List.length_cons]⟩

theorem header_digits (n : Nat) : (header n).all isAsciiDigit :=
  (encode_digits (fun _ hc => isDigit_decimal hc)).1

theorem header_length {n : Nat} (hn : n < usizeBound) : (header n).length ≤ 20 := by
  rw [header, (encode_digits (fun _ hc => isDigit_decimal hc)).2, decimal,
    Nat.length_toDigits_le_iff (by decide) (by decide)]
  exact Nat.lt_trans hn (by decide)

theorem header_ne_nil (n : Nat) : header n ≠ [] := by
  intro h
  have hl := (encode_digits (s := decimal n) (fun _ hc => isDigit_decimal hc)).2
  rw [← header, h] at hl
  exact decimal_ne_nil n (List.length_eq_zero_iff.mp hl.symm)

theorem parseLen_header {n : Nat} (hn : n < usizeBound) : parseLen (header n) = some n := by
  rw [parseLen, header, fromUtf8_encode (ascii_decimal n), Option.bind_some,
    parseUnsigned_decimal hn]

theorem not_mem_of_digits {p : Bytes} (hp : p.all isAsciiDigit) : SP ∉ p := by
  intro h
  have hs := List.all_eq_true.mp hp SP h
  exact absurd hs (by decide)

theorem stripCr_of_ne {m : Bytes} (h : m.getLast? ≠ some CR) : stripCr m = m := if_neg h

/-- The message does not begin with a run of digits followed by a space. -/
def NoCount (m : Bytes) : Prop := ∀ p r, m = p ++ SP :: r → p = [] ∨ ¬ p.all isAsciiDigit

theorem takeWhile_space {p : Bytes} (hp : SP ∉ p) (r : Bytes) :
    (p ++ SP :: r).takeWhile (· ≠ SP) = p := by
  rw [List.takeWhile_append_of_pos]
  · simp
  · intro b hb
    have hne : b ≠ SP := fun h => hp (h ▸ hb)
    simpa using hne

theorem noCount_iff {m : Bytes} : NoCount m ↔
    (SP ∈ m → m.takeWhile (· ≠ SP) = [] ∨ ¬ (m.takeWhile (· ≠ SP)).all isAsciiDigit) := by
  constructor
  · intro h hs
    obtain ⟨p, r, rfl, hp⟩ := List.eq_append_cons_of_mem hs
    rw [takeWhile_space hp]
    exact h p r rfl
  · rintro h p r rfl
    by_cases hp : SP ∈ p
    · exact Or.inr fun hd => not_mem_of_digits hd hp
    · have h' := h (by simp)
      rwa [takeWhile_space hp] at h'

instance (m : Bytes) : Decidable (NoCount m) := decidable_of_iff _ noCount_iff.symm

theorem byLine_of_space {d : TcpDecoder} {m r : Bytes} (hm : d.mode = .auto)
    (hb : d.buf = m ++ r) (hs : SP ∈ m) (hn : NoCount m) : ByLine d := by
  obtain ⟨p, q, rfl, hp⟩ := List.eq_append_cons_of_mem hs
  exact Or.inr ⟨hm, p, q ++ r, by simpa using hb, hp, hn p q rfl⟩

theorem noCount_start {m p : Bytes} (hn : NoCount m) (hp : p <+: m) : NoCount p := by
  obtain ⟨q, rfl⟩ := hp
  rintro a r rfl
  exact hn a (r ++ q) (by simp)

theorem not_lf_of_digits {p : Bytes} (hp : p.all isAsciiDigit) : LF ∉ p := by
  intro h
  exact absurd (List.all_eq_true.mp hp LF h) (by decide)

/-- A count cannot reach over the end of a line. -/
theorem noCount_line {l : Bytes} (hl : NoCount l) (rest : Bytes) : NoCount (l ++ LF :: rest) := by
  intro p r h
  by_cases hp : p.all isAsciiDigit
  · obtain ⟨a, rfl, ha⟩ | ⟨a, rfl, ha⟩ := List.append_eq_append_iff.mp h
    · cases a with
      | nil => exact absurd (List.cons.inj ha).1 (by decide)
      | cons b a =>
        obtain ⟨rfl, -⟩ := List.cons.inj ha
        exact absurd (by simp) (not_lf_of_digits hp)
    · cases a with
      | nil => exact absurd (List.cons.inj ha).1 (by decide)
      | cons b a =>
        obtain ⟨rfl, -⟩ := List.cons.inj ha
        exact hl p a rfl
  · exact Or.inr hp

section Octet

def counted (m : Bytes) : Bytes := header m.length ++ SP :: m

theorem header_fits {n : Nat} (hn : n < 2 ^ 63) :
    n < usizeBound ∧ (header n).length + 1 + n < usizeBound := by
  have hu : n < usizeBound := Nat.lt_trans hn (by decide)
  have hl := header_length hu
  refine ⟨hu, ?_⟩
  have hb : usizeBound = 2 ^ 63 + 2 ^ 63 := rfl
  have hp : (21 : Nat) < 2 ^ 63 := by decide
  omega

variable {d : TcpDecoder} {m : Bytes}

theorem announces_header (hm : d.mode ≠ .nonTransparent) (n : Nat) : Announces d (header n) := by
  cases hmode : d.mode with
  | auto => exact Or.inr ⟨hmode, header_ne_nil n, header_digits n⟩
  | octetCounting => exact Or.inl hmode
  | nonTransparent => exact absurd hmode hm

theorem waits_headed {p : Bytes} (hp : SP ∉ p) (ha : Announces d p)
    (hlen : parseLen p = some m.length) (hmax : m.length ≤ d.maxFrameLen)
    (hfit : p.length + 1 + m.length < usizeBound) (hpre : d.buf <+: p ++ SP :: m)
    (hne : d.buf ≠ p ++ SP :: m) : Waits d := by
  by_cases hs : SP ∈ d.buf
  · obtain ⟨t, ht⟩ := hpre
    obtain ⟨q, r, hb, hsp⟩ := List.eq_append_cons_of_mem hs
    have hw : q ++ SP :: (r ++ t) = p ++ SP :: m := by simpa [hb] using ht
    obtain ⟨rfl, rfl⟩ := Lines.append_cons_inj hsp hp hw
    have ht' : t ≠ [] := by
      rintro rfl
      exact hne (by simpa using ht)
    refine .incomplete hb hsp ha hlen hmax hfit ?_
    rw [List.length_append]
    exact Nat.lt_add_of_pos_right (List.length_pos_iff.mpr ht')
  · exact .undecided (fun hm => not_announces hm p ha) hs

variable (hm : d.mode ≠ .nonTransparent) (hmax : m.length ≤ d.maxFrameLen) (hlen : m.length < 2 ^ 63)

include hm hmax hlen

theorem moves_counted {r : Bytes} (hb : d.buf = counted m ++ r) :
    Moves d { d with buf := r } [m] := by
  obtain ⟨hu, hfit⟩ := header_fits hlen
  have hb' : d.buf = header m.length ++ SP :: (m ++ r) := by simpa [counted] using hb
  exact .octet hb' (not_mem_of_digits (header_digits _)) (announces_header hm _)
    (parseLen_header hu) hmax hfit

theorem waits_counted (hp : d.buf <+: counted m) (hne : d.buf ≠ counted m) : Waits d := by
  obtain ⟨hu, hfit⟩ := header_fits hlen
  exact waits_headed (not_mem_of_digits (header_digits _)) (announces_header hm _)
    (parseLen_header hu) hmax hfit hp hne

end Octet

end TptTelemetry.Framing.Wire
