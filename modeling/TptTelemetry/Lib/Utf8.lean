import TptTelemetry.Lib.Text

namespace TptTelemetry.Lib.Utf8

open TptTelemetry.Lib.Text

abbrev Bytes := List UInt8

def encode (s : Str) : Bytes := s.flatMap String.utf8EncodeChar

def isCont (b : UInt8) : Bool := 0x80 ≤ b && b ≤ 0xBF

/-- The second byte that may follow the leading byte of a three-byte or a
four-byte sequence, which rules out overlong forms and surrogates. -/
def secondOk (a b : UInt8) : Bool :=
  if a = 0xE0 then 0xA0 ≤ b && b ≤ 0xBF
  else if a = 0xED then 0x80 ≤ b && b ≤ 0x9F
  else if a = 0xF0 then 0x90 ≤ b && b ≤ 0xBF
  else if a = 0xF4 then 0x80 ≤ b && b ≤ 0x8F
  else isCont b

/-- Decode at a leading byte: the character, or nothing for a malformed
sequence, with the bytes that remain. A malformed sequence is as long as the
part of it that could still have been completed. -/
def decodeChar (a : UInt8) (rest : Bytes) : Option Char × Bytes :=
  if a < 0x80 then (some (Char.ofNat a.toNat), rest)
  else if 0xC2 ≤ a ∧ a ≤ 0xDF then
    match rest with
    | b :: r =>
      if isCont b then (some (Char.ofNat (a.toNat % 32 * 64 + b.toNat % 64)), r) else (none, rest)
    | [] => (none, rest)
  else if 0xE0 ≤ a ∧ a ≤ 0xEF then
    match rest with
    | b :: c :: r =>
      if secondOk a b then
        if isCont c then
          (some (Char.ofNat ((a.toNat % 16 * 64 + b.toNat % 64) * 64 + c.toNat % 64)), r)
        else (none, c :: r)
      else (none, rest)
    | [b] => if secondOk a b then (none, []) else (none, rest)
    | [] => (none, rest)
  else if 0xF0 ≤ a ∧ a ≤ 0xF4 then
    match rest with
    | b :: c :: d :: r =>
      if secondOk a b then
        if isCont c then
          if isCont d then
            (some (Char.ofNat
              (((a.toNat % 8 * 64 + b.toNat % 64) * 64 + c.toNat % 64) * 64 + d.toNat % 64)), r)
          else (none, d :: r)
        else (none, c :: d :: r)
      else (none, rest)
    | [b, c] => if secondOk a b then if isCont c then (none, []) else (none, [c]) else (none, rest)
    | [b] => if secondOk a b then (none, []) else (none, rest)
    | [] => (none, rest)
  else (none, rest)

theorem decodeChar_length (a : UInt8) (rest : Bytes) :
    (decodeChar a rest).2.length ≤ rest.length := by
  unfold decodeChar
  repeat' split
  all_goals simp
  all_goals omega

def fromUtf8 : Bytes → Option Str
  | [] => some []
  | a :: rest =>
    match (decodeChar a rest).1 with
    | some c => (fromUtf8 (decodeChar a rest).2).map (c :: ·)
    | none => none
termination_by bs => bs.length
decreasing_by exact Nat.lt_succ_of_le (decodeChar_length a rest)

/-- `String::from_utf8_lossy`: each malformed sequence becomes U+FFFD. -/
def fromUtf8Lossy : Bytes → Str
  | [] => []
  | a :: rest =>
    (decodeChar a rest).1.getD (Char.ofNat 0xFFFD) :: fromUtf8Lossy (decodeChar a rest).2
termination_by bs => bs.length
decreasing_by exact Nat.lt_succ_of_le (decodeChar_length a rest)

theorem decodeChar_ascii {a : UInt8} (ha : a < 0x80) (rest : Bytes) :
    decodeChar a rest = (some (Char.ofNat a.toNat), rest) := by
  unfold decodeChar
  rw [if_pos ha]

theorem encode_cons_ascii {c : Char} (hc : c.utf8Size = 1) (s : Str) :
    encode (c :: s) = c.val.toUInt8 :: encode s := by
  rw [encode, List.flatMap_cons, String.utf8EncodeChar_eq_singleton hc]
  rfl

theorem toUInt8_ascii {c : Char} (hc : c.utf8Size = 1) :
    c.val.toUInt8 < 0x80 ∧ Char.ofNat c.val.toUInt8.toNat = c := by
  have hv : c.val.toNat ≤ 0x7F := by
    have h := Char.utf8Size_eq_one_iff.mp hc
    exact UInt32.le_iff_toNat_le.mp h
  have ht : c.val.toUInt8.toNat = c.val.toNat := by
    rw [UInt32.toNat_toUInt8]
    omega
  refine ⟨UInt8.lt_iff_toNat_lt.mpr ?_, ?_⟩
  · rw [ht]
    exact Nat.lt_succ_of_le hv
  · rw [ht]
    exact Char.ofNat_toNat c

/-- The first byte of a wide character, which for one below U+0100 is given by
its upper bits. -/
theorem utf8EncodeChar_wide {c : Char} (hc : c.utf8Size ≠ 1) :
    ∃ b bs, String.utf8EncodeChar c = b :: bs ∧ 0xC0 ≤ b.toNat ∧
      (c.toNat < 0x100 → b.toNat = 0xC0 + c.toNat / 64) := by
  have hv : 0x7F < c.val.toNat := by
    rw [Ne, Char.utf8Size_eq_one_iff, UInt32.le_iff_toNat_le] at hc
    exact Nat.lt_of_not_le hc
  have hnat : c.toNat = c.val.toNat := rfl
  rw [String.utf8EncodeChar, if_neg (Nat.not_le_of_lt hv)]
  split
  · refine ⟨_, _, rfl, ?_, fun _ => ?_⟩ <;> rw [UInt8.toNat_ofNat'] <;> omega
  · split
    · refine ⟨_, _, rfl, ?_, fun _ => ?_⟩ <;> rw [UInt8.toNat_ofNat'] <;> omega
    · refine ⟨_, _, rfl, ?_, fun _ => ?_⟩ <;> rw [UInt8.toNat_ofNat'] <;> omega

theorem utf8EncodeChar_high {c : Char} (hc : c.utf8Size ≠ 1) :
    ∀ b ∈ String.utf8EncodeChar c, 0x80 ≤ b.toNat := by
  have hv : 0x7F < c.val.toNat := by
    rw [Ne, Char.utf8Size_eq_one_iff, UInt32.le_iff_toNat_le] at hc
    exact Nat.lt_of_not_le hc
  rw [String.utf8EncodeChar, if_neg (Nat.not_le_of_lt hv)]
  intro b hb
  split at hb
  · simp only [List.mem_cons, List.not_mem_nil, or_false] at hb
    obtain rfl | rfl := hb <;> rw [UInt8.toNat_ofNat'] <;> omega
  · split at hb
    · simp only [List.mem_cons, List.not_mem_nil, or_false] at hb
      obtain rfl | rfl | rfl := hb <;> rw [UInt8.toNat_ofNat'] <;> omega
    · simp only [List.mem_cons, List.not_mem_nil, or_false] at hb
      obtain rfl | rfl | rfl | rfl := hb <;> rw [UInt8.toNat_ofNat'] <;> omega

theorem encode_append (s t : Str) : encode (s ++ t) = encode s ++ encode t :=
  List.flatMap_append

theorem length_encode (s : Str) : (encode s).length = byteLen s := by
  induction s with
  | nil => rfl
  | cons c s ih =>
    rw [byteLen_cons, ← ih, encode, List.flatMap_cons, List.length_append,
      String.length_utf8EncodeChar]
    rfl

theorem drop_encode (s t : Str) : (encode (s ++ t)).drop (byteLen s) = encode t := by
  rw [encode_append, ← length_encode, List.drop_left]

/-- Below U+00C0 the code of a character is its last byte. -/
theorem code_mem_utf8EncodeChar {c : Char} (hc : c.toNat < 0xC0) :
    UInt8.ofNat c.toNat ∈ String.utf8EncodeChar c := by
  have hnat : c.toNat = c.val.toNat := rfl
  rw [String.utf8EncodeChar]
  split
  · exact List.mem_singleton_self _
  · next hv =>
    have hlow : c.val.toNat % 64 + 0x80 = c.val.toNat := by omega
    rw [if_pos (by omega), hlow]
    exact List.mem_cons_of_mem _ (List.mem_singleton_self _)

theorem fromUtf8_encode {s : Str} (hs : Ascii s) : fromUtf8 (encode s) = some s := by
  induction s with
  | nil => simp [encode, fromUtf8]
  | cons c s ih =>
    have hc : c.utf8Size = 1 := hs c (by simp)
    obtain ⟨hlt, hof⟩ := toUInt8_ascii hc
    rw [encode_cons_ascii hc, fromUtf8, decodeChar_ascii hlt]
    simp only [hof, ih (fun d hd => hs d (by simp [hd])), Option.map_some]

theorem toNat_ofNat (n : Nat) : (Char.ofNat n).toNat = n ∨ (Char.ofNat n).toNat = 0 := by
  by_cases h : n.isValidChar
  · rw [Char.ofNat, dif_pos h]
    exact Or.inl rfl
  · rw [Char.ofNat, dif_neg h]
    exact Or.inr rfl

theorem secondOk_low {a b : UInt8} (h : secondOk a b = true) :
    (a.toNat = 0xE0 → 32 ≤ b.toNat % 64) ∧ (a.toNat = 0xF0 → 16 ≤ b.toNat % 64) := by
  constructor
  · intro ha
    obtain rfl : a = 0xE0 := UInt8.toNat_inj.mp ha
    simp only [secondOk, if_true, Bool.and_eq_true, decide_eq_true_eq, UInt8.le_iff_toNat_le,
      UInt8.toNat_ofNat] at h
    omega
  · intro ha
    obtain rfl : a = 0xF0 := UInt8.toNat_inj.mp ha
    have hne : ¬ (0xF0 : UInt8) = 0xE0 ∧ ¬ (0xF0 : UInt8) = 0xED := by decide
    simp only [secondOk, hne.1, hne.2, if_false, if_true, Bool.and_eq_true, decide_eq_true_eq,
      UInt8.le_iff_toNat_le, UInt8.toNat_ofNat] at h
    omega

theorem decodeChar_high {a : UInt8} {rest : Bytes} {c : Char} (ha : ¬ a < 0x80)
    (h : (decodeChar a rest).1 = some c) : c.toNat = 0 ∨ 0x80 ≤ c.toNat := by
  have hnat : ∀ {n : Nat}, 0x80 ≤ n → some (Char.ofNat n) = some c → c.toNat = 0 ∨ 0x80 ≤ c.toNat := by
    intro n hn hc
    cases hc
    have := toNat_ofNat n
    omega
  unfold decodeChar at h
  rw [if_neg ha] at h
  simp only [UInt8.le_iff_toNat_le, UInt8.toNat_ofNat] at h
  split at h
  · split at h
    · split at h
      · exact hnat (by omega) h
      · cases h
    · cases h
  split at h
  · split at h
    · split at h
      · next hb =>
        have hlow := secondOk_low hb
        split at h
        · exact hnat (by omega) h
        · cases h
      · cases h
    · split at h <;> cases h
    · cases h
  split at h
  · split at h
    · split at h
      · next hb =>
        have hlow := secondOk_low hb
        split at h
        · split at h
          · exact hnat (by omega) h
          · cases h
        · cases h
      · cases h
    · split at h
      · split at h <;> cases h
      · cases h
    · split at h <;> cases h
    · cases h
  · cases h

theorem encode_of_fromUtf8 {p : Bytes} {s : Str} (h : fromUtf8 p = some s)
    (hs : ∀ c ∈ s, 0 < c.toNat ∧ c.toNat < 0x80) : p = encode s := by
  induction p using fromUtf8.induct generalizing s with
  | case1 =>
    rw [fromUtf8] at h
    cases h
    rfl
  | case2 a rest c hc ih =>
    rw [fromUtf8, hc] at h
    obtain ⟨t, ht, rfl⟩ := Option.map_eq_some_iff.mp h
    obtain ⟨hc', ht'⟩ := List.forall_mem_cons.mp hs
    by_cases ha : a < 0x80
    · have hdec := decodeChar_ascii ha rest
      rw [hdec] at hc ht ih
      obtain rfl : Char.ofNat a.toNat = c := Option.some.inj hc
      have hsize : (Char.ofNat a.toNat).utf8Size = 1 :=
        Char.utf8Size_eq_one_iff.mpr (UInt32.le_iff_toNat_le.mpr (Nat.le_of_lt_succ hc'.2))
      have hcode : (Char.ofNat a.toNat).toNat = a.toNat := by
        have := toNat_ofNat a.toNat
        omega
      have hbyte : (Char.ofNat a.toNat).val.toUInt8 = a := by
        apply UInt8.toNat_inj.mp
        have hval : (Char.ofNat a.toNat).val.toNat = a.toNat := hcode
        have := a.toNat_lt
        rw [UInt32.toNat_toUInt8, hval]
        omega
      rw [encode_cons_ascii hsize, hbyte, ← ih ht ht']
    · have := decodeChar_high ha hc
      omega
  | case3 a rest hc =>
    rw [fromUtf8, hc] at h
    cases h

theorem encode_cons (c : Char) (s : Str) : encode (c :: s) = String.utf8EncodeChar c ++ encode s := rfl

theorem isCont_iff {b : UInt8} : isCont b = true ↔ 0x80 ≤ b.toNat ∧ b.toNat ≤ 0xBF := by
  simp [isCont, UInt8.le_iff_toNat_le]

theorem secondOk_iff {a b : UInt8} : secondOk a b = true ↔ 0x80 ≤ b.toNat ∧ b.toNat ≤ 0xBF ∧
    (a.toNat = 0xE0 → 0xA0 ≤ b.toNat) ∧ (a.toNat = 0xED → b.toNat ≤ 0x9F) ∧
    (a.toNat = 0xF0 → 0x90 ≤ b.toNat) ∧ (a.toNat = 0xF4 → b.toNat ≤ 0x8F) := by
  unfold secondOk
  simp only [← UInt8.toNat_inj, UInt8.toNat_ofNat]
  repeat' split
  all_goals simp only [isCont_iff, Bool.and_eq_true, decide_eq_true_eq, UInt8.le_iff_toNat_le,
    UInt8.toNat_ofNat]
  all_goals omega

theorem decodeChar_two {a b : UInt8} {rest : Bytes} (ha : 0xC2 ≤ a.toNat ∧ a.toNat ≤ 0xDF)
    (hb : isCont b = true) : decodeChar a (b :: rest) =
      (some (Char.ofNat (a.toNat % 32 * 64 + b.toNat % 64)), rest) := by
  simp only [decodeChar, UInt8.lt_iff_toNat_lt, UInt8.le_iff_toNat_le, UInt8.toNat_ofNat]
  rw [if_neg (by omega), if_pos ha, if_pos hb]

theorem decodeChar_three {a b c : UInt8} {rest : Bytes} (ha : 0xE0 ≤ a.toNat ∧ a.toNat ≤ 0xEF)
    (hb : secondOk a b = true) (hc : isCont c = true) : decodeChar a (b :: c :: rest) =
      (some (Char.ofNat ((a.toNat % 16 * 64 + b.toNat % 64) * 64 + c.toNat % 64)), rest) := by
  simp only [decodeChar, UInt8.lt_iff_toNat_lt, UInt8.le_iff_toNat_le, UInt8.toNat_ofNat]
  rw [if_neg (by omega), if_neg (by omega), if_pos ha, if_pos hb, if_pos hc]

theorem decodeChar_four {a b c d : UInt8} {rest : Bytes} (ha : 0xF0 ≤ a.toNat ∧ a.toNat ≤ 0xF4)
    (hb : secondOk a b = true) (hc : isCont c = true) (hd : isCont d = true) :
    decodeChar a (b :: c :: d :: rest) =
      (some (Char.ofNat
        (((a.toNat % 8 * 64 + b.toNat % 64) * 64 + c.toNat % 64) * 64 + d.toNat % 64)), rest) := by
  simp only [decodeChar, UInt8.lt_iff_toNat_lt, UInt8.le_iff_toNat_le, UInt8.toNat_ofNat]
  rw [if_neg (by omega), if_neg (by omega), if_neg (by omega), if_pos ha, if_pos hb, if_pos hc,
    if_pos hd]

/-- Decoding reads back the character that was encoded. -/
theorem decodeChar_encoded (c : Char) (rest : Bytes) : ∃ a bs,
    String.utf8EncodeChar c = a :: bs ∧ decodeChar a (bs ++ rest) = (some c, rest) := by
  have hvalid : c.val.toNat < 0xD800 ∨ 0xDFFF < c.val.toNat ∧ c.val.toNat < 0x110000 := c.valid
  have hof : ∀ {n : Nat}, n = c.val.toNat → Char.ofNat n = c := by
    rintro n rfl
    exact Char.ofNat_toNat c
  rw [String.utf8EncodeChar]
  generalize hv : c.val.toNat = v at *
  split
  · refine ⟨_, _, rfl, ?_⟩
    rw [List.nil_append, decodeChar_ascii, hof]
    · rw [UInt8.toNat_ofNat']
      omega
    · simp only [UInt8.lt_iff_toNat_lt, UInt8.toNat_ofNat', UInt8.toNat_ofNat]
      omega
  split
  · refine ⟨_, _, rfl, ?_⟩
    rw [List.cons_append, List.nil_append, decodeChar_two, hof]
    · simp only [UInt8.toNat_ofNat']
      omega
    · simp only [UInt8.toNat_ofNat']
      omega
    · simp only [isCont_iff, UInt8.toNat_ofNat']
      omega
  split
  · refine ⟨_, _, rfl, ?_⟩
    rw [List.cons_append, List.cons_append, List.nil_append, decodeChar_three, hof]
    · simp only [UInt8.toNat_ofNat']
      omega
    · simp only [UInt8.toNat_ofNat']
      omega
    · simp only [secondOk_iff, UInt8.toNat_ofNat']
      omega
    · simp only [isCont_iff, UInt8.toNat_ofNat']
      omega
  · refine ⟨_, _, rfl, ?_⟩
    rw [List.cons_append, List.cons_append, List.cons_append, List.nil_append, decodeChar_four, hof]
    · simp only [UInt8.toNat_ofNat']
      omega
    · simp only [UInt8.toNat_ofNat']
      omega
    · simp only [secondOk_iff, UInt8.toNat_ofNat']
      omega
    · simp only [isCont_iff, UInt8.toNat_ofNat']
      omega
    · simp only [isCont_iff, UInt8.toNat_ofNat']
      omega

theorem fromUtf8Lossy_append (s : Str) (rest : Bytes) :
    fromUtf8Lossy (encode s ++ rest) = s ++ fromUtf8Lossy rest := by
  induction s with
  | nil => rfl
  | cons c s ih =>
    obtain ⟨a, bs, hc, hd⟩ := decodeChar_encoded c (encode s ++ rest)
    rw [encode_cons, hc, List.append_assoc, List.cons_append, fromUtf8Lossy, hd, ih]
    rfl

theorem fromUtf8Lossy_encode (s : Str) : fromUtf8Lossy (encode s) = s := by
  simpa [fromUtf8Lossy] using fromUtf8Lossy_append s []

theorem mem_encode_iff {c : Char} (hc : c.utf8Size = 1) (s : Str) :
    c.val.toUInt8 ∈ encode s ↔ c ∈ s := by
  obtain ⟨hlt, hof⟩ := toUInt8_ascii hc
  induction s with
  | nil => simp [encode]
  | cons d s ih =>
    rw [encode_cons, List.mem_append, ih, List.mem_cons, or_congr_left]
    by_cases hd : d.utf8Size = 1
    · rw [String.utf8EncodeChar_eq_singleton hd, List.mem_singleton]
      constructor
      · intro h
        have hback : Char.ofNat d.val.toUInt8.toNat = d := (toUInt8_ascii hd).2
        rw [← hof, h]
        exact hback
      · rintro rfl
        rfl
    · constructor
      · intro h
        have hhigh := utf8EncodeChar_high hd _ h
        have hlow := UInt8.lt_iff_toNat_lt.mp hlt
        exact absurd hlow (Nat.not_lt.mpr hhigh)
      · rintro rfl
        exact absurd hc hd

theorem fromUtf8_text (s : Str) : fromUtf8 (encode s) = some s := by
  induction s with
  | nil => simp [encode, fromUtf8]
  | cons c s ih =>
    obtain ⟨a, bs, hc, hd⟩ := decodeChar_encoded c (encode s)
    rw [encode_cons, hc, List.cons_append, fromUtf8, hd, ih]
    rfl
example : fromUtf8Lossy [0x61, 0xFF, 0xC3, 0xA9] = ['a', '\uFFFD', 'é'] := by decide +kernel
example : fromUtf8Lossy [0xE2, 0x82, 0x41] = ['\uFFFD', 'A'] := by decide +kernel
example : fromUtf8Lossy (encode "né€😀".toList) = "né€😀".toList := by decide +kernel

end TptTelemetry.Lib.Utf8
