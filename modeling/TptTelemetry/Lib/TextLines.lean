import Mathlib.Data.List.TakeWhile
import TptTelemetry.Lib.Lines
import TptTelemetry.Lib.Text

namespace TptTelemetry.Lib.TextLines

open TptTelemetry.Lib.Text

section Affixes

variable {p s : Str}

def stripPrefix (p s : Str) : Option Str := if p <+: s then some (s.drop p.length) else none

def stripSuffix (p s : Str) : Option Str :=
  if p <:+ s then some (s.take (s.length - p.length)) else none

theorem stripPrefix_append (p s : Str) : stripPrefix p (p ++ s) = some s := by
  rw [stripPrefix, if_pos (List.prefix_append p s), List.drop_left]

theorem stripSuffix_append (s p : Str) : stripSuffix p (s ++ p) = some s := by
  rw [stripSuffix, if_pos (List.suffix_append s p), List.length_append, Nat.add_sub_cancel,
    List.take_left]

end Affixes

section Lines

def stripCr (l : Str) : Str := if l.getLast? = some '\r' then l.dropLast else l

def lines (s : Str) : List Str :=
  let (ls, rest) := Lines.split '\n' s
  ls.map stripCr ++ if rest = [] then [] else [rest]

theorem lines_append {a : Str} (ha : '\n' ∉ a) (b : Str) :
    lines (a ++ '\n' :: b) = stripCr a :: lines b := by
  rw [lines, Lines.split_append ha]
  rfl

theorem lines_of_not_mem {s : Str} (h : '\n' ∉ s) : lines s = if s = [] then [] else [s] := by
  rw [lines, Lines.split_of_not_mem h]
  rfl

theorem not_mem_lines {s l : Str} (h : l ∈ lines s) : '\n' ∉ l := by
  induction s using Lines.pieces_induction '\n' generalizing l with
  | hlast t ht =>
    rw [lines_of_not_mem ht] at h
    by_cases hnil : t = []
    · simp [hnil] at h
    · rw [if_neg hnil, List.mem_singleton] at h
      rwa [h]
  | hpiece a b ha ih =>
    rw [lines_append ha, List.mem_cons] at h
    obtain rfl | h := h
    · rw [stripCr]
      split
      · exact fun hm => ha (List.mem_of_mem_dropLast hm)
      · exact ha
    · exact ih h

theorem lines_ne_nil {s : Str} (h : s ≠ []) : lines s ≠ [] := by
  induction s using Lines.pieces_induction '\n' with
  | hlast t ht =>
    rw [lines_of_not_mem ht, if_neg h]
    exact List.cons_ne_nil _ _
  | hpiece a b ha _ =>
    rw [lines_append ha]
    exact List.cons_ne_nil _ _

theorem intercalate_lines {s : Str} (h : ¬ ['\r', '\n'] <:+: s) :
    ['\n'].intercalate (lines s) = s ∨ ['\n'].intercalate (lines s) ++ ['\n'] = s := by
  induction s using Lines.pieces_induction '\n' with
  | hlast t ht =>
    rw [lines_of_not_mem ht]
    split
    · next hnil => exact Or.inl hnil.symm
    · exact Or.inl List.intercalate_singleton
  | hpiece a b ha ih =>
    have hcr : stripCr a = a := by
      refine if_neg fun hlast => h ?_
      obtain ⟨front, rfl⟩ := List.getLast?_eq_some_iff.mp hlast
      exact ⟨front, b, by simp⟩
    rw [lines_append ha, hcr]
    by_cases hb : b = []
    · rw [hb]
      exact Or.inr (by simp [lines, Lines.split])
    · have hrest : ¬ ['\r', '\n'] <:+: b := fun hin =>
        h (hin.trans ⟨a ++ ['\n'], [], by simp⟩)
      rw [List.intercalate_cons_of_ne_nil (lines_ne_nil hb)]
      obtain hall | hall := ih hrest
      · exact Or.inl (by rw [hall]; simp)
      · exact Or.inr (by rw [List.append_assoc, hall]; simp)

end Lines

section Trimming

/-- The characters with the Unicode property `White_Space`. -/
def isWhitespace (c : Char) : Bool :=
  let n := c.toNat
  (0x9 ≤ n ∧ n ≤ 0xd) ∨ n = 0x20 ∨ n = 0x85 ∨ n = 0xa0 ∨ n = 0x1680 ∨ (0x2000 ≤ n ∧ n ≤ 0x200a) ∨
    n = 0x2028 ∨ n = 0x2029 ∨ n = 0x202f ∨ n = 0x205f ∨ n = 0x3000

def trimEnd (s : Str) : Str := (s.reverse.dropWhile isWhitespace).reverse

def trim (blank : Char → Bool) (s : Str) : Str :=
  ((s.dropWhile blank).reverse.dropWhile blank).reverse

variable {blank : Char → Bool} {s w : Str}

theorem dropWhile_blank (hw : ∀ c ∈ w, blank c = true) : w.dropWhile blank = [] :=
  List.dropWhile_eq_nil_iff.mpr hw

theorem trim_blank_append (hw : ∀ c ∈ w, blank c = true) (s : Str) :
    trim blank (w ++ s) = trim blank s := by
  rw [trim, trim, List.dropWhile_append_of_pos hw]

theorem trim_append_blank (hw : ∀ c ∈ w, blank c = true) (s : Str) :
    trim blank (s ++ w) = trim blank s := by
  rw [trim, trim, List.dropWhile_append]
  split
  · next hnil =>
    rw [List.isEmpty_iff.mp hnil, dropWhile_blank hw]
  · have hrev : ∀ c ∈ w.reverse, blank c = true := fun c hc => hw c (List.mem_reverse.mp hc)
    rw [List.reverse_append, List.dropWhile_append_of_pos hrev]

theorem trim_eq_nil_iff : trim blank s = [] ↔ ∀ c ∈ s, blank c = true := by
  constructor
  · intro h c hc
    rw [trim, List.reverse_eq_nil_iff, List.dropWhile_eq_nil_iff] at h
    by_cases hb : s.dropWhile blank = []
    · exact List.dropWhile_eq_nil_iff.mp hb c hc
    · have hhead := List.head_dropWhile_not blank hb
      rw [h _ (List.mem_reverse.mpr (List.head_mem hb))] at hhead
      cases hhead
  · intro h
    rw [trim, dropWhile_blank h]
    rfl

end Trimming

end TptTelemetry.Lib.TextLines
