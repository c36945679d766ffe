import TptTelemetry.Lib.Utf8

namespace TptTelemetry.Compiler.Security

open TptTelemetry.Lib TptTelemetry.Lib.Text TptTelemetry.Lib.Utf8

def isInjectionByte (b : UInt8) : Bool := b < 0x20 || b == 0x7f || (0x80 ≤ b && b ≤ 0x9f)

inductive Cow
  | borrowed (s : Str)
  | owned (s : Str)
  deriving DecidableEq, Repr

def Cow.value : Cow → Str
  | .borrowed s => s
  | .owned s => s

def charFrom (b : UInt8) : Char := Char.ofNat b.toNat

def sanitize (value : Str) : Cow :=
  if (encode value).any isInjectionByte then
    .owned (((encode value).filter (fun b => !isInjectionByte b)).map charFrom)
  else .borrowed value

def isControl (c : Char) : Bool :=
  c.toNat < 0x20 || c.toNat == 0x7f || (0x80 ≤ c.toNat && c.toNat ≤ 0x9f)

def stripped (s : Str) : Str := s.filter (fun c => !isControl c)

/-- What sanitizing does to a character, and what is left of it with control
characters removed. -/
def kept (c : Char) : Str :=
  ((String.utf8EncodeChar c).filter (fun b => !isInjectionByte b)).map charFrom

def bare (c : Char) : Str := if isControl c then [] else [c]

theorem cleaned_eq (s : Str) :
    ((encode s).filter (fun b => !isInjectionByte b)).map charFrom = s.flatMap kept := by
  rw [encode, List.filter_flatMap, List.map_flatMap]
  rfl

theorem stripped_eq (s : Str) : stripped s = s.flatMap bare := by
  induction s with
  | nil => rfl
  | cons c s ih =>
    rw [List.flatMap_cons, ← ih, stripped, stripped, bare, List.filter_cons]
    cases isControl c <;> rfl

theorem length_bare_le (c : Char) : (bare c).length ≤ 1 := by
  rw [bare]
  split <;> simp

theorem isInjectionByte_code {c : Char} (hc : c.toNat < 0x100) :
    isInjectionByte (UInt8.ofNat c.toNat) = isControl c := by
  have hcode : (UInt8.ofNat c.toNat).toNat = c.toNat := by
    rw [UInt8.toNat_ofNat']
    omega
  have heq : (UInt8.ofNat c.toNat = 0x7f) ↔ c.toNat = 0x7f := by
    rw [← UInt8.toNat_inj, hcode]
    rfl
  simp only [isInjectionByte, isControl, UInt8.lt_iff_toNat_lt, UInt8.le_iff_toNat_le, hcode,
    Bool.beq_eq_decide_eq, heq]
  rfl

theorem toNat_lt_of_ascii {c : Char} (hc : c.utf8Size = 1) : c.toNat < 0x80 :=
  Nat.lt_succ_of_le (UInt32.le_iff_toNat_le.mp (Char.utf8Size_eq_one_iff.mp hc))

theorem kept_ascii {c : Char} (hc : c.utf8Size = 1) : kept c = bare c := by
  have hlt := toNat_lt_of_ascii hc
  have hcode : c.val.toUInt8 = UInt8.ofNat c.toNat := rfl
  have hchar : charFrom (UInt8.ofNat c.toNat) = c := (toUInt8_ascii hc).2
  rw [kept, String.utf8EncodeChar_eq_singleton hc, hcode, bare, List.filter_singleton,
    isInjectionByte_code (by omega)]
  cases isControl c with
  | false => exact congrArg (fun d => [d]) hchar
  | true => rfl

theorem kept_wide {c : Char} (hc : c.utf8Size ≠ 1) :
    ∃ b t, kept c = charFrom b :: t ∧ 0xC0 ≤ b.toNat ∧
      (c.toNat < 0x100 → b.toNat = 0xC0 + c.toNat / 64) := by
  obtain ⟨b, bs, hb, hlow, hcode⟩ := utf8EncodeChar_wide hc
  have hkeep : isInjectionByte b = false := by
    simp only [isInjectionByte, UInt8.lt_iff_toNat_lt, UInt8.le_iff_toNat_le, Bool.or_eq_false_iff,
      Bool.and_eq_false_iff, decide_eq_false_iff_not, beq_eq_false_iff_ne, Ne, ← UInt8.toNat_inj]
    have h20 : (0x20 : UInt8).toNat = 0x20 := rfl
    have h7f : (0x7f : UInt8).toNat = 0x7f := rfl
    have h9f : (0x9f : UInt8).toNat = 0x9f := rfl
    omega
  refine ⟨b, (bs.filter (fun b => !isInjectionByte b)).map charFrom, ?_, hlow, hcode⟩
  rw [kept, hb, List.filter_cons, hkeep]
  rfl

theorem length_bare_le_kept (c : Char) : (bare c).length ≤ (kept c).length := by
  by_cases hc : c.utf8Size = 1
  · rw [kept_ascii hc]
  · obtain ⟨b, t, hk, -⟩ := kept_wide hc
    have hb := length_bare_le c
    rw [hk, List.length_cons]
    omega

theorem toNat_charFrom (b : UInt8) : (charFrom b).toNat = b.toNat := by
  have hb := UInt8.toNat_lt b
  rw [charFrom, Char.ofNat, dif_pos (Or.inl (by omega))]
  rfl

/-- The one wide character that sanitizing leaves as it is: its first byte is
its code, and its second one is removed. -/
theorem kept_eq_bare_iff {c : Char} : kept c = bare c ↔ c.utf8Size = 1 ∨ c = 'Ã' := by
  constructor
  · intro h
    by_cases hc : c.utf8Size = 1
    · exact Or.inl hc
    obtain ⟨b, t, hk, hlow, hcode⟩ := kept_wide hc
    have hbare : bare c = [c] := by
      rw [bare] at h ⊢
      split at h
      · rw [hk] at h
        cases h
      · next hctl => rw [if_neg hctl]
    rw [hk, hbare, List.cons.injEq] at h
    have hcb : c.toNat = b.toNat := by rw [← h.1, toNat_charFrom]
    have hb := UInt8.toNat_lt b
    have hval : c.toNat = 0xC3 := by
      have := hcode (by omega)
      omega
    refine Or.inr ?_
    rw [← Char.ofNat_toNat c, hval]
  · rintro (hc | rfl)
    · exact kept_ascii hc
    · decide +kernel

/-- Sanitizing the text removes its control characters and nothing else. -/
structure Strips (s : Str) : Prop where
  exactly : (sanitize s).value = stripped s
  idempotent : (sanitize (sanitize s).value).value = (sanitize s).value
  unaltered : (∀ c ∈ s, isControl c = false) → (sanitize s).value = s

/-- No byte of the text is taken for a control character, or the wide characters
in it are all the one that is not altered. -/
def BytesAreChars (s : Str) : Prop :=
  (∀ b ∈ encode s, isInjectionByte b = false) ∨ ∀ c ∈ s, c.utf8Size = 1 ∨ c = 'Ã'

theorem sanitize_clean {s : Str} (h : ∀ b ∈ encode s, isInjectionByte b = false) :
    (sanitize s).value = s := by
  have hany : (encode s).any isInjectionByte = false := by
    rw [List.any_eq_false]
    exact fun b hb => by rw [h b hb]; exact Bool.false_ne_true
  rw [sanitize, hany]
  rfl

theorem sanitize_dirty {s : Str} (h : ¬ ∀ b ∈ encode s, isInjectionByte b = false) :
    (sanitize s).value = s.flatMap kept := by
  have hany : (encode s).any isInjectionByte = true := by
    by_contra hany
    refine h fun b hb => ?_
    rw [Bool.not_eq_true, List.any_eq_false] at hany
    exact Bool.eq_false_of_not_eq_true (hany b hb)
  rw [sanitize, hany, if_pos rfl, Cow.value, cleaned_eq]

theorem not_isControl_of_clean {s : Str} (h : ∀ b ∈ encode s, isInjectionByte b = false) :
    ∀ c ∈ s, isControl c = false := by
  intro c hc
  by_contra hctl
  rw [Bool.not_eq_false] at hctl
  have hlt : c.toNat < 0xC0 := by
    simp only [isControl, Bool.or_eq_true, Bool.and_eq_true, decide_eq_true_eq, beq_iff_eq] at hctl
    omega
  have hmem : UInt8.ofNat c.toNat ∈ encode s :=
    List.mem_flatMap.mpr ⟨c, hc, code_mem_utf8EncodeChar hlt⟩
  have hinj := h _ hmem
  rw [isInjectionByte_code (by omega), hctl] at hinj
  cases hinj

theorem stripped_eq_self {s : Str} (h : ∀ c ∈ s, isControl c = false) : stripped s = s :=
  List.filter_eq_self.mpr (fun c hc => by rw [h c hc]; rfl)

theorem sanitize_eq_stripped_iff (s : Str) : (sanitize s).value = stripped s ↔ BytesAreChars s := by
  by_cases hs : ∀ b ∈ encode s, isInjectionByte b = false
  · rw [sanitize_clean hs, stripped_eq_self (not_isControl_of_clean hs)]
    exact ⟨fun _ => Or.inl hs, fun _ => rfl⟩
  · have hiff : BytesAreChars s ↔ ∀ c ∈ s, c.utf8Size = 1 ∨ c = 'Ã' :=
      ⟨fun h => h.resolve_left hs, Or.inr⟩
    rw [hiff, sanitize_dirty hs, stripped_eq]
    constructor
    · intro h c hc
      have heq := flatMap_congr_of_length_le (fun c _ => length_bare_le_kept c) h.symm c hc
      exact kept_eq_bare_iff.mp heq.symm
    · intro h
      exact List.flatMap_congr (fun c hc => kept_eq_bare_iff.mpr (h c hc))

theorem BytesAreChars.stripped {s : Str} (h : BytesAreChars s) : BytesAreChars (stripped s) := by
  obtain hs | hs := h
  · rw [stripped_eq_self (not_isControl_of_clean hs)]
    exact Or.inl hs
  · exact Or.inr (fun c hc => hs c (List.mem_of_mem_filter hc))

/-- Sanitizing removes exactly the control characters when bytes are as good as
characters, and on no other text. -/
theorem sanitize_strips_iff (s : Str) : Strips s ↔ BytesAreChars s := by
  refine ⟨fun h => (sanitize_eq_stripped_iff s).mp h.exactly, fun h => ?_⟩
  have heq := (sanitize_eq_stripped_iff s).mpr h
  refine ⟨heq, ?_, fun hs => heq.trans (stripped_eq_self hs)⟩
  rw [heq, (sanitize_eq_stripped_iff _).mpr h.stripped]
  exact stripped_eq_self (fun c hc => by simpa using List.of_mem_filter hc)

/-- The euro sign has no control character in it, but its second byte is taken
for one. -/
theorem sanitize_alters :
    (sanitize ['€']).value = ['â', '¬'] ∧ stripped ['€'] = ['€'] ∧ ¬ Strips ['€'] := by
  have heuro : (sanitize ['€']).value = ['â', '¬'] := by decide +kernel
  have hstripped : stripped ['€'] = ['€'] := by decide +kernel
  refine ⟨heuro, hstripped, fun h => ?_⟩
  have hexact := h.exactly
  rw [heuro, hstripped] at hexact
  exact absurd hexact (by decide)

end TptTelemetry.Compiler.Security
