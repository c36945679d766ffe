import TptTelemetry.Compiler.Boundaries

namespace TptTelemetry.Compiler.Masking

open TptTelemetry.Lib.Text TptTelemetry.Compiler.Typed TptTelemetry.Compiler.Boundaries

/-- The text with all but its last two characters starred. -/
def starred (s : Str) : Str := List.replicate (s.length - 2) '*' ++ s.drop (s.length - 2)

/-- Masking keeps the last two characters, and stars each of the others. -/
def KeepsLastTwo (s : Str) : Prop :=
  ∃ out, maskValue s = .ok out ∧ out.length = s.length ∧
    out.drop (s.length - 2) = s.drop (s.length - 2) ∧ ∀ c ∈ out.take (s.length - 2), c = '*'

theorem keepsLastTwo_iff {s : Str} : KeepsLastTwo s ↔ maskValue s = .ok (starred s) := by
  constructor
  · rintro ⟨out, hout, hlen, hdrop, hstar⟩
    have htake : out.take (s.length - 2) = List.replicate (s.length - 2) '*' := by
      rw [List.eq_replicate_iff]
      refine ⟨?_, hstar⟩
      rw [List.length_take]
      omega
    rw [hout, starred, ← htake, ← hdrop, List.take_append_drop]
  · intro h
    have hlen : (List.replicate (s.length - 2) '*').length = s.length - 2 := List.length_replicate
    refine ⟨starred s, h, ?_, ?_, ?_⟩
    · simp only [starred, List.length_append, List.length_replicate, List.length_drop]
      omega
    · rw [starred, List.drop_left' hlen]
    · rw [starred, List.take_left' hlen]
      exact fun c hc => List.eq_of_mem_replicate hc

theorem maskValue_split {p q : Str} (h : byteLen q = min (byteLen (p ++ q)) 2) :
    maskValue (p ++ q) = .ok (List.replicate (byteLen p) '*' ++ q) := by
  have hsub : byteLen (p ++ q) - min (byteLen (p ++ q)) 2 = byteLen p := by
    rw [← h, byteLen_append]
    omega
  simp only [maskValue, hsub, sliceFrom_append, bind, Except.bind]

/-- Bytes and characters agree where the mask is cut: all characters are of one
byte, or all but the last one, which has two and stands alone or behind a star. -/
def BytesAsChars (s : Str) : Prop :=
  Ascii s ∨ ∃ p c, s = p ++ [c] ∧ Ascii p ∧ c.utf8Size = 2 ∧ (p = [] ∨ p.getLast? = some '*')

theorem starred_append (p : Str) (a b : Char) :
    starred (p ++ [a, b]) = List.replicate p.length '*' ++ [a, b] := by
  have hlen : (p ++ [a, b]).length - 2 = p.length := by simp
  rw [starred, hlen, List.drop_left]

theorem starred_of_length_le {s : Str} (h : s.length ≤ 2) : starred s = s := by
  have hlen : s.length - 2 = 0 := by omega
  rw [starred, hlen]
  rfl

theorem maskValue_ascii {s : Str} (hs : Ascii s) : maskValue s = .ok (starred s) := by
  have htake : s.take (s.length - 2) ++ s.drop (s.length - 2) = s := List.take_append_drop _ s
  obtain ⟨hp, hq⟩ := ascii_append.mp (htake.symm ▸ hs)
  have hlen : byteLen (s.take (s.length - 2)) = s.length - 2 := by
    rw [byteLen_ascii hp, List.length_take]
    omega
  have hcut : byteLen (s.drop (s.length - 2)) =
      min (byteLen (s.take (s.length - 2) ++ s.drop (s.length - 2))) 2 := by
    rw [htake, byteLen_ascii hq, byteLen_ascii hs, List.length_drop]
    omega
  have h := maskValue_split hcut
  rwa [htake, hlen] at h

theorem maskValue_wide {p : Str} {c : Char} (hp : Ascii p) (hc : c.utf8Size = 2) :
    maskValue (p ++ [c]) = .ok (List.replicate p.length '*' ++ [c]) := by
  have hcut : byteLen [c] = min (byteLen (p ++ [c])) 2 := by
    rw [byteLen_append, byteLen_cons, hc, byteLen_nil]
    omega
  rw [maskValue_split hcut, byteLen_ascii hp]

theorem starred_wide_iff {p : Str} {c : Char} :
    starred (p ++ [c]) = List.replicate p.length '*' ++ [c] ↔ p = [] ∨ p.getLast? = some '*' := by
  rcases List.eq_nil_or_concat p with rfl | ⟨p', d, rfl⟩
  · simp [starred_of_length_le]
  · have hlast : (p' ++ [d]).getLast? = some '*' ↔ d = '*' := by simp
    rw [List.concat_eq_append, hlast, List.append_assoc, List.singleton_append, starred_append,
      List.length_append, List.length_singleton, List.replicate_succ', List.append_assoc, List.singleton_append]
    simp

theorem keepsLastTwo_iff_bytesAsChars (s : Str) : KeepsLastTwo s ↔ BytesAsChars s := by
  rw [keepsLastTwo_iff]
  constructor
  · intro h
    obtain ⟨p, q, rfl, hq⟩ := maskValue_ok_iff.mp ⟨_, h⟩
    rw [maskValue_split hq] at h
    have he : List.replicate (byteLen p) '*' ++ q = starred (p ++ q) := Except.ok.inj h
    -- Both masks have the same length, so there is nothing wide before the cut.
    have hp : Ascii p := by
      have hlen := congrArg List.length he
      simp only [starred, List.length_append, List.length_replicate, List.length_drop] at hlen
      exact ascii_of_byteLen (by omega)
    rw [byteLen_append] at hq
    match q, hq with
    | [], _ => exact Or.inl (by simpa using hp)
    | [c], hq =>
      rw [byteLen_cons, byteLen_nil] at hq
      have hc : c.utf8Size = 1 ∨ c.utf8Size = 2 := by
        have hpos := Char.utf8Size_pos c
        omega
      obtain hc | hc := hc
      · exact Or.inl (ascii_append.mpr ⟨hp, by simp [Ascii, hc]⟩)
      · rw [byteLen_ascii hp] at he
        exact Or.inr ⟨p, c, rfl, hp, hc, starred_wide_iff.mp he.symm⟩
    | a :: b :: q, hq =>
      have ha := Char.utf8Size_pos a
      have hb := Char.utf8Size_pos b
      simp only [byteLen_cons] at hq
      have hnil : q = [] := byteLen_eq_zero.mp (by omega)
      subst hnil
      refine Or.inl (ascii_append.mpr ⟨hp, List.forall_mem_cons.mpr ⟨by omega, ?_⟩⟩)
      simp
      omega
  · rintro (hs | ⟨p, c, rfl, hp, hc, hlast⟩)
    · exact maskValue_ascii hs
    · rw [maskValue_wide hp hc, starred_wide_iff.mpr hlast]

theorem starred_congr {s t : Str} (hlen : s.length = t.length)
    (hlast : s.drop (s.length - 2) = t.drop (t.length - 2)) : starred s = starred t := by
  rw [starred, starred, hlast, hlen]

/-- Masking keeps the last two characters and stars the others exactly when
bytes and characters agree, and there it hides all but the length and the last
two characters. -/
theorem mask_keeps_last_two (s : Str) :
    (KeepsLastTwo s ↔ BytesAsChars s) ∧
      ∀ t, BytesAsChars s → BytesAsChars t → s.length = t.length →
        s.drop (s.length - 2) = t.drop (t.length - 2) → maskValue s = maskValue t := by
  refine ⟨keepsLastTwo_iff_bytesAsChars s, fun t hs ht hlen hlast => ?_⟩
  rw [keepsLastTwo_iff.mp ((keepsLastTwo_iff_bytesAsChars s).mpr hs),
    keepsLastTwo_iff.mp ((keepsLastTwo_iff_bytesAsChars t).mpr ht), starred_congr hlen hlast]

theorem mask_keeps_last_two_address :
    KeepsLastTwo "10.0.0.17".toList ∧
      maskValue "10.0.0.17".toList = maskValue "10.9.8.17".toList :=
  have hs : BytesAsChars "10.0.0.17".toList := Or.inl (by decide +kernel)
  have ht : BytesAsChars "10.9.8.17".toList := Or.inl (by decide +kernel)
  ⟨(mask_keeps_last_two _).1.mpr hs,
    (mask_keeps_last_two _).2 _ hs ht (by decide +kernel) (by decide +kernel)⟩

/-- The cut falls inside the euro sign, and a wide letter before it gets two
stars. -/
theorem mask_counts_bytes :
    maskValue ['€'] = .error .strIndex ∧
      maskValue ['é', 'a', 'b'] = .ok ['*', '*', 'a', 'b'] ∧
      maskValue ['x', 'a', 'b'] = .ok ['*', 'a', 'b'] ∧
      ¬ KeepsLastTwo ['€'] ∧ ¬ KeepsLastTwo ['é', 'a', 'b'] := by
  have hpanic : maskValue ['€'] = .error .strIndex := by decide +kernel
  have hlong : maskValue ['é', 'a', 'b'] = .ok ['*', '*', 'a', 'b'] := by decide +kernel
  refine ⟨hpanic, hlong, by decide +kernel, ?_, ?_⟩
  · rintro ⟨out, hout, -⟩
    rw [hpanic] at hout
    cases hout
  · rintro ⟨out, hout, hlen, -⟩
    rw [hlong] at hout
    cases hout
    simp at hlen

end TptTelemetry.Compiler.Masking
