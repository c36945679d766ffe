import TptTelemetry.Lib.Traverse
import TptTelemetry.Otlp.Model
import Mathlib.Data.List.Forall2

namespace TptTelemetry.Otlp.Mac

open TptTelemetry.Lib.Text TptTelemetry.Lib.Numeral TptTelemetry.Lib.Traverse
open TptTelemetry.Compiler.Scalar TptTelemetry.Otlp.Model

def IsHex (c : Char) : Prop := ∃ x, toDigit 16 c = some x

inductive HexPair : Str → UInt8 → Prop
  | intro {a b : Char} {x y : Nat} (ha : toDigit 16 a = some x) (hb : toDigit 16 b = some y) :
      HexPair [a, b] (UInt8.ofNat (x * 16 + y))

/-- What the grammar of a MAC address is: two digits a byte, all separated by
colons or all by hyphens. -/
def Grammar (s : Str) (m : MacAddr) : Prop :=
  ∃ sep parts, (sep = ':' ∨ sep = '-') ∧ List.Forall₂ HexPair parts m.bytes ∧
    s = [sep].intercalate parts

section Parts

/-- What `from_str_radix` reads as a byte in two characters: a plus sign may
stand for the first digit. -/
inductive MacPart : Str → UInt8 → Prop
  | digits {part : Str} {b : UInt8} (h : HexPair part b) : MacPart part b
  | plus {d : Char} {y : Nat} (hd : toDigit 16 d = some y) : MacPart ['+', d] (UInt8.ofNat y)

theorem parseDigits_pair {a b : Char} {n : Nat} :
    parseDigits 16 256 0 [a, b] = some n ↔
      ∃ x y, toDigit 16 a = some x ∧ toDigit 16 b = some y ∧ n = x * 16 + y := by
  constructor
  · intro h
    cases ha : toDigit 16 a with
    | none => simp [parseDigits, ha] at h
    | some x =>
      cases hb : toDigit 16 b with
      | none => simp [parseDigits, ha, hb] at h
      | some y =>
        simp only [parseDigits, ha, hb, Option.bind_eq_bind, Option.bind_some] at h
        refine ⟨x, y, rfl, rfl, ?_⟩
        split at h
        · split at h
          · cases h
            omega
          · cases h
        · cases h
  · rintro ⟨x, y, ha, hb, rfl⟩
    have hx := toDigit_lt ha
    have hy := toDigit_lt hb
    have hfits : x < 256 ∧ x * 16 + y < 256 := by omega
    simp [parseDigits, ha, hb, hfits]

theorem parseDigits_single {d : Char} {n : Nat} :
    parseDigits 16 256 0 [d] = some n ↔ toDigit 16 d = some n := by
  cases hd : toDigit 16 d with
  | none => simp [parseDigits, hd]
  | some y =>
    have hy := toDigit_lt hd
    have hfits : y < 256 := by omega
    simp [parseDigits, hd, hfits]

theorem macPart_iff {part : Str} {b : UInt8} :
    (byteLen part = 2 ∧ ∃ n, parseUnsigned 16 256 part = some n ∧ b = UInt8.ofNat n) ↔
      MacPart part b := by
  constructor
  · rintro ⟨hlen, n, hn, rfl⟩
    obtain ⟨-, hn⟩ | ⟨t, rfl, -, hn⟩ := parseUnsigned_eq_some.mp hn
    · match part with
      | [] => cases hlen
      | [d] =>
        have hd := utf8Size_of_toDigit (parseDigits_single.mp hn)
        simp [hd] at hlen
      | [a, d] =>
        obtain ⟨x, y, ha, hd, rfl⟩ := parseDigits_pair.mp hn
        exact .digits (.intro ha hd)
      | a :: d :: e :: more =>
        have ha := Char.utf8Size_pos a
        have hd := Char.utf8Size_pos d
        have he := Char.utf8Size_pos e
        simp at hlen
        omega
    · have hplus : '+'.utf8Size = 1 := rfl
      match t with
      | [] => cases hlen
      | [d] => exact .plus (parseDigits_single.mp hn)
      | d :: e :: more =>
        have hd := Char.utf8Size_pos d
        have he := Char.utf8Size_pos e
        simp only [byteLen_cons, hplus] at hlen
        omega
  · intro h
    cases h with
    | digits h =>
      cases h with
      | @intro a d x y ha hd =>
        refine ⟨by simp [utf8Size_of_toDigit ha, utf8Size_of_toDigit hd], x * 16 + y, ?_, rfl⟩
        exact parseUnsigned_eq_some.mpr (Or.inl ⟨by simp, parseDigits_pair.mpr ⟨x, y, ha, hd, rfl⟩⟩)
    | @plus d y hd =>
      refine ⟨by simp [utf8Size_of_toDigit hd]; rfl, y, ?_, rfl⟩
      exact parseUnsigned_eq_some.mpr (Or.inr ⟨[d], rfl, by simp, parseDigits_single.mpr hd⟩)

theorem macLoop_iff {parts : List Str} {out : List UInt8} {m : MacAddr} :
    macLoop parts out = some m ↔ ∃ bs, List.Forall₂ MacPart parts bs ∧ m.bytes = out ++ bs := by
  induction parts generalizing out with
  | nil =>
    rw [macLoop]
    constructor
    · intro h
      split at h
      · cases h
        exact ⟨[], .nil, (List.append_nil out).symm⟩
      · cases h
    · rintro ⟨bs, hbs, hm⟩
      cases hbs
      rw [List.append_nil] at hm
      obtain ⟨bytes, hlen⟩ := m
      subst hm
      exact dif_pos hlen
  | cons part parts ih =>
    rw [macLoop]
    constructor
    · intro h
      split at h
      · cases h
      · next hcond =>
        push Not at hcond
        obtain ⟨n, hn, hrest⟩ := Option.bind_eq_some_iff.mp h
        obtain ⟨bs, hbs, hm⟩ := ih.mp hrest
        exact ⟨_ :: bs, .cons (macPart_iff.mp ⟨hcond.2, n, hn, rfl⟩) hbs, by simpa using hm⟩
    · rintro ⟨bs, hbs, hm⟩
      cases hbs with
      | @cons _ b _ bs hpart hbs =>
        obtain ⟨hlen, n, hn, rfl⟩ := macPart_iff.mpr hpart
        have hroom : out.length < 6 := by
          have := congrArg List.length hm
          rw [m.length_eq] at this
          simp at this
          omega
        rw [if_neg (by omega), hn]
        exact ih.mpr ⟨bs, hbs, by simpa using hm⟩

end Parts

section Texts

def separator (s : Str) : Char := if ':' ∈ s then ':' else '-'

/-- What is read as a MAC address: parts with a byte each, between characters
whose low byte is that of the separator. -/
def Loose (s : Str) (m : MacAddr) : Prop :=
  ∃ part rest, s = joined part rest ∧
    (∀ x ∈ rest, x.1.toNat % 256 = (separator s).toNat) ∧
    List.Forall₂ MacPart (parts part rest) m.bytes

theorem separator_cases (s : Str) : separator s = ':' ∨ separator s = '-' := by
  rw [separator]
  split
  · exact Or.inl rfl
  · exact Or.inr rfl

theorem hex_mod {c : Char} (h : IsHex c) : c.toNat % 256 ≠ 58 ∧ c.toNat % 256 ≠ 45 := by
  obtain ⟨x, hx⟩ := h
  have := toNat_of_toDigit hx
  omega

theorem macPart_chars {part : Str} {b : UInt8} (h : MacPart part b) :
    ∀ c ∈ part, c = '+' ∨ IsHex c := by
  cases h with
  | digits h =>
    cases h with
    | @intro a d x y ha hd => simp [IsHex, ha, hd]
  | @plus d y hd => simp [IsHex, hd]

theorem not_separator {part : Str} {b : UInt8} (h : MacPart part b) (s : Str) :
    ∀ c ∈ part, c.toNat % 256 ≠ (separator s).toNat := by
  intro c hc
  have hcode : c.toNat % 256 ≠ 58 ∧ c.toNat % 256 ≠ 45 := by
    obtain rfl | hhex := macPart_chars h c hc
    · decide
    · exact hex_mod hhex
  obtain hs | hs := separator_cases s
  · rw [hs]
    exact hcode.1
  · rw [hs]
    exact hcode.2

theorem parseMac_iff {s : Str} {m : MacAddr} : parseMac s = some m ↔ Loose s m := by
  have hparse : parseMac s =
      macLoop (s.splitOnP (fun c => c.toNat % 256 = (separator s).toNat)) [] := rfl
  rw [hparse]
  constructor
  · intro h
    obtain ⟨part, rest, hs, hparts, hseps⟩ :=
      exists_joined (fun c => c.toNat % 256 = (separator s).toNat) s
    have hsplit := splitOnP_joined hparts hseps
    rw [← hs] at hsplit
    rw [hsplit] at h
    obtain ⟨bs, hbs, hm⟩ := macLoop_iff.mp h
    rw [List.nil_append] at hm
    exact ⟨part, rest, hs, fun x hx => by simpa using hseps x hx, hm ▸ hbs⟩
  · rintro ⟨part, rest, hs, hseps, hbytes⟩
    have hsplit : (joined part rest).splitOnP (fun c => c.toNat % 256 = (separator s).toNat) =
        parts part rest := by
      refine splitOnP_joined (fun q hq c hc => ?_) (fun x hx => by simpa using hseps x hx)
      obtain ⟨b, -, hb⟩ := exists_of_forall₂ hbytes q hq
      simpa using not_separator hb s c hc
    rw [← hs] at hsplit
    rw [hsplit]
    exact macLoop_iff.mpr ⟨m.bytes, hbytes, rfl⟩

end Texts

section Grammar

theorem hexPair_chars {part : Str} {b : UInt8} (h : HexPair part b) : ∀ c ∈ part, IsHex c := by
  cases h with
  | @intro a d x y ha hd => simp [IsHex, ha, hd]

theorem grammar_joined {s : Str} {m : MacAddr} (h : Grammar s m) :
    ∃ sep part next more, (sep = ':' ∨ sep = '-') ∧
      s = joined part ((next :: more).map (Prod.mk sep)) ∧
      List.Forall₂ HexPair (part :: next :: more) m.bytes := by
  obtain ⟨sep, parts, hsep, hbytes, rfl⟩ := h
  have hlen := hbytes.length_eq.trans m.length_eq
  match parts, hlen with
  | part :: next :: more, _ =>
    exact ⟨sep, part, next, more, hsep, intercalate_eq_joined sep part (next :: more), hbytes⟩

theorem joined_chars {sep : Char} {part : Str} {more : List Str} {bytes : List UInt8}
    (h : List.Forall₂ HexPair (part :: more) bytes) :
    ∀ c ∈ joined part (more.map (Prod.mk sep)), IsHex c ∨ c = sep := by
  intro c hc
  obtain ⟨q, hq, hc⟩ | ⟨x, hx, hc⟩ := mem_joined.mp hc
  · have hq' : q ∈ part :: more := by simpa [parts] using hq
    obtain ⟨b, -, hb⟩ := exists_of_forall₂ h q hq'
    exact Or.inl (hexPair_chars hb c hc)
  · obtain ⟨q, -, rfl⟩ := List.mem_map.mp hx
    exact Or.inr hc

theorem not_isHex : ¬ IsHex '+' ∧ ¬ IsHex ':' := by
  constructor
  · rintro ⟨x, hx⟩
    cases hx
  · rintro ⟨x, hx⟩
    cases hx

theorem grammar_plain {s : Str} {m : MacAddr} (h : Grammar s m) : '+' ∉ s ∧ Ascii s := by
  obtain ⟨sep, part, next, more, hsep, rfl, hbytes⟩ := grammar_joined h
  constructor
  · intro hplus
    obtain hc | rfl := joined_chars hbytes _ hplus
    · exact not_isHex.1 hc
    · simp at hsep
  · intro c hc
    obtain ⟨x, hx⟩ | rfl := joined_chars hbytes c hc
    · exact utf8Size_of_toDigit hx
    · obtain rfl | rfl := hsep <;> rfl

theorem loose_of_grammar {s : Str} {m : MacAddr} (h : Grammar s m) : Loose s m := by
  obtain ⟨sep, part, next, more, hsep, hs, hbytes⟩ := grammar_joined h
  have hseparator : separator s = sep := by
    obtain rfl | rfl := hsep
    · exact if_pos (by simp [hs, joined])
    · refine if_neg fun hcolon => ?_
      rw [hs] at hcolon
      obtain hc | hc := joined_chars hbytes _ hcolon
      · exact not_isHex.2 hc
      · cases hc
  refine ⟨part, (next :: more).map (Prod.mk sep), hs, fun x hx => ?_, ?_⟩
  · obtain ⟨q, -, rfl⟩ := List.mem_map.mp hx
    rw [hseparator]
    obtain rfl | rfl := hsep <;> rfl
  · have hparts : parts part ((next :: more).map (Prod.mk sep)) = part :: next :: more := by
      simp [parts, Function.comp_def]
    rw [hparts]
    exact hbytes.imp fun _ _ hb => .digits hb

/-- The characters that separate are known from their low bytes in ASCII text. -/
theorem grammar_of_loose {s : Str} {m : MacAddr} (h : Loose s m) (hplus : '+' ∉ s)
    (hascii : Ascii s) : Grammar s m := by
  obtain ⟨part, rest, hs, hseps, hbytes⟩ := h
  have hmem : ∀ q ∈ parts part rest, ∀ c ∈ q, c ∈ s := by
    intro q hq c hc
    rw [hs]
    exact mem_joined.mpr (Or.inl ⟨q, hq, hc⟩)
  have hsep : ∀ x ∈ rest, x = (separator s, x.2) := by
    intro x hx
    have hx1 := hascii x.1 (by rw [hs]; exact mem_joined.mpr (Or.inr ⟨x, hx, rfl⟩))
    have hle : x.1.toNat ≤ 127 := Char.utf8Size_eq_one_iff.mp hx1
    have hcode := hseps x hx
    rw [Nat.mod_eq_of_lt (by omega)] at hcode
    exact Prod.ext (Char.toNat_inj.mp hcode) rfl
  have hrest : rest = (rest.map Prod.snd).map (Prod.mk (separator s)) := by
    rw [List.map_map]
    exact (List.map_id rest).symm.trans (List.map_congr_left hsep)
  refine ⟨separator s, parts part rest, separator_cases s, ?_, ?_⟩
  · have hnoplus : ∀ q ∈ parts part rest, '+' ∉ q := fun q hq hc => hplus (hmem q hq _ hc)
    refine ((List.forall₂_and_left _ _).mpr ⟨hnoplus, hbytes⟩).imp fun q b hq => ?_
    cases hq.2 with
    | digits h => exact h
    | plus hd => exact absurd (by simp) hq.1
  · rw [parts, intercalate_eq_joined, ← hrest]
    exact hs

end Grammar

section Rendering

theorem hexPair_fmt (b : UInt8) : HexPair ((Nat.toDigits 16 b.toNat).leftpad 2 '0') b := by
  have hb := b.toNat_lt
  have hdigits : (Nat.toDigits 16 b.toNat).leftpad 2 '0' =
      [(b.toNat / 16).digitChar, (b.toNat % 16).digitChar] := by
    by_cases hlt : b.toNat < 16
    · rw [Nat.toDigits_of_lt_base hlt, Nat.div_eq_of_lt hlt, Nat.mod_eq_of_lt hlt]
      rfl
    · rw [Nat.toDigits_of_base_le (by decide) (by omega), Nat.toDigits_of_lt_base (by omega)]
      rfl
  have hpair := HexPair.intro (toDigit_digitChar (show b.toNat / 16 < 16 by omega))
    (toDigit_digitChar (show b.toNat % 16 < 16 by omega))
  rw [Nat.div_add_mod'] at hpair
  rw [hdigits]
  simpa using hpair

theorem grammar_fmtMac (m : MacAddr) : Grammar (fmtMac m) m :=
  ⟨':', _, Or.inl rfl, List.forall₂_map_left_iff.mpr (List.forall₂_same.mpr fun b _ => hexPair_fmt b),
    rfl⟩

end Rendering

/-- The texts that are read as a MAC address and are none: a plus sign stands for
a digit, or a character beyond ASCII for a separator. -/
def Quirky (s : Str) : Prop :=
  (∃ part rest, s = joined part rest ∧ rest.length = 5 ∧
    (∀ x ∈ rest, x.1.toNat % 256 = (separator s).toNat) ∧
    ∀ q ∈ parts part rest, ∃ a d, q = [a, d] ∧ (a = '+' ∨ IsHex a) ∧ IsHex d) ∧
  ('+' ∈ s ∨ ¬ Ascii s)

theorem exists_loose {s : Str} {part : Str} {rest : List (Char × Str)} (hs : s = joined part rest)
    (hlen : rest.length = 5) (hseps : ∀ x ∈ rest, x.1.toNat % 256 = (separator s).toNat)
    (hparts : ∀ q ∈ parts part rest, ∃ a d, q = [a, d] ∧ (a = '+' ∨ IsHex a) ∧ IsHex d) :
    ∃ m, Loose s m := by
  have hbyte : ∀ q ∈ parts part rest, ∃ b, MacPart q b := by
    intro q hq
    obtain ⟨a, d, rfl, rfl | ⟨x, hx⟩, y, hy⟩ := hparts q hq
    · exact ⟨_, .plus hy⟩
    · exact ⟨_, .digits (.intro hx hy)⟩
  choose! byte hbyte using hbyte
  have hbytes : List.Forall₂ MacPart (parts part rest) ((parts part rest).map byte) :=
    List.forall₂_map_right_iff.mpr (List.forall₂_same.mpr hbyte)
  exact ⟨⟨(parts part rest).map byte, by simp [parts, hlen]⟩, part, rest, hs, hseps, hbytes⟩

theorem shape_of_loose {s : Str} {m : MacAddr} (h : Loose s m) :
    ∃ part rest, s = joined part rest ∧ rest.length = 5 ∧
      (∀ x ∈ rest, x.1.toNat % 256 = (separator s).toNat) ∧
      ∀ q ∈ parts part rest, ∃ a d, q = [a, d] ∧ (a = '+' ∨ IsHex a) ∧ IsHex d := by
  obtain ⟨part, rest, hs, hseps, hbytes⟩ := h
  have hlen := hbytes.length_eq.trans m.length_eq
  refine ⟨part, rest, hs, by simpa [parts] using hlen, hseps, fun q hq => ?_⟩
  obtain ⟨b, -, hb⟩ := exists_of_forall₂ hbytes q hq
  cases hb with
  | digits h =>
    cases h with
    | @intro a d x y ha hd => exact ⟨a, d, rfl, Or.inr ⟨x, ha⟩, y, hd⟩
  | @plus d y hd => exact ⟨'+', d, rfl, Or.inl rfl, y, hd⟩

/-- The parser reads exactly the grammar on the texts that are not quirky, and
reads back what the exporter writes. -/
theorem parseMac_exact_iff (s : Str) :
    ((∀ m, parseMac s = some m ↔ Grammar s m) ↔ ¬ Quirky s) ∧
      ∀ m, ∃ text, valueToAny (.mac m) = .string text ∧ parseMac text = some m := by
  simp only [parseMac_iff]
  refine ⟨⟨?_, ?_⟩, fun m => ⟨fmtMac m, rfl, loose_of_grammar (grammar_fmtMac m)⟩⟩
  · rintro hexact ⟨⟨part, rest, hs, hlen, hseps, hparts⟩, hquirk⟩
    obtain ⟨m, hm⟩ := exists_loose hs hlen hseps hparts
    obtain ⟨hplus, hascii⟩ := grammar_plain ((hexact m).mp hm)
    obtain h | h := hquirk
    · exact hplus h
    · exact h hascii
  · intro hquirk m
    refine ⟨fun h => ?_, loose_of_grammar⟩
    have hplain : ¬ ('+' ∈ s ∨ ¬ Ascii s) := fun hs => hquirk ⟨shape_of_loose h, hs⟩
    push Not at hplain
    exact grammar_of_loose h hplain.1 hplain.2

/-- A plus sign passes for a digit. -/
theorem parseMac_plus :
    ¬ ∀ m, parseMac "+f:00:00:00:00:00".toList = some m ↔ Grammar "+f:00:00:00:00:00".toList m := by
  intro h
  have hparse : parseMac "+f:00:00:00:00:00".toList = some ⟨[15, 0, 0, 0, 0, 0], rfl⟩ := by decide
  exact (grammar_plain ((h _).mp hparse)).1 (by decide)

end TptTelemetry.Otlp.Mac
