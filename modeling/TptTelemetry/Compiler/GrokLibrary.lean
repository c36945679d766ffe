import TptTelemetry.Compiler.Compile
import TptTelemetry.GrokEngine.Compile
import TptTelemetry.Lib.Regex

namespace TptTelemetry.Compiler.GrokLibrary

open TptTelemetry.Lib TptTelemetry.Lib.Text TptTelemetry.Lib.Regex
open TptTelemetry.Dsl.Ast TptTelemetry.Dsl.Patterns
open TptTelemetry.Compiler.Scalar TptTelemetry.Compiler.Compile

def LibraryMatches (name s : Str) : Prop :=
  ∃ body, GrokEngine.Compile.expand name = .ok body ∧ Matches ascii body [] s []

def libraryMatches (name s : Str) : Bool :=
  match GrokEngine.Compile.expand name with
  | .ok body => fullMatch ascii body s
  | .error _ => false

theorem libraryMatches_iff {name s : Str} : libraryMatches name s = true ↔ LibraryMatches name s := by
  rw [libraryMatches, LibraryMatches]
  split
  · next body hbody => simp [hbody, fullMatch_iff]
  · next e he => simp [he]

/-- What the name stands for in the library is accepted by the native type. -/
def NativeAccepts (C : Chrono) (name : Str) (t : TypeName) : Prop :=
  ∀ s, Ascii s → LibraryMatches name s → Accepts C t s

/-- The parsers of `chrono` that the compiler uses only accept texts with a
time of day, which has two colons. The format without one never gives a date
and time. -/
structure TimeOfDay (C : Chrono) : Prop where
  rfc3339 (s : Str) : (C.parseFromRfc3339 s).isSome → 2 ≤ s.count ':'
  fromStr (s fmt : Str) (h : fmt ∈ timestampFormats) :
    (C.parseFromStr s fmt).isSome → 2 ≤ s.count ':'

theorem parseTimestamp_colons {C : Chrono} (hC : TimeOfDay C) {s : Str}
    (h : (parseTimestamp C s).isSome) : 2 ≤ s.count ':' := by
  rw [parseTimestamp, Option.isSome_or, Bool.or_eq_true] at h
  obtain h | h := h
  · exact hC.rfc3339 s h
  · obtain ⟨x, hx⟩ := Option.isSome_iff_exists.mp h
    obtain ⟨fmt, hfmt, hparse⟩ := List.exists_of_findSome?_eq_some hx
    exact hC.fromStr s fmt hfmt (Option.isSome_iff_exists.mpr ⟨x, hparse⟩)

section Refused

def sample (name text : String) : Str × Str := (name.toList, text.toList)

/-- Texts of the library that the native types refuse: a number with a fraction
or one that is too large, a hexadecimal number, an octet with a leading zero, an
address with three colons, mixed separators, and parts of a timestamp. -/
def refused : List (Str × Str) := [
  sample "INT" "9223372036854775808", sample "NUMBER" "1.5", sample "BASE10NUM" "1.5",
  sample "POSINT" "18446744073709551616", sample "NONNEGINT" "18446744073709551616",
  sample "PORT" "18446744073709551616", sample "BASE16NUM" "ff", sample "BASE16FLOAT" "0x1",
  sample "IPV4" "01.2.3.4", sample "IPV6" ":::", sample "IP" "01.2.3.4",
  sample "MAC" "00:11-22:33:44:55", sample "MONTH" "Jan", sample "MONTHDAY" "1",
  sample "YEAR" "2024", sample "HOUR" "12", sample "MINUTE" "00", sample "SECOND" "1",
  sample "TIME" "12:34", sample "MONTHNUM" "1", sample "MONTHNUM2" "01",
  sample "ISO8601_SECOND" "2024-01-01T00:00"]

/-- The refusal can be seen without the crate `chrono`: a text that lacks a
time of day is no timestamp. -/
def refuses (t : TypeName) (s : Str) : Bool :=
  if t = .timestamp then s.count ':' < 2 else !typeMatches noTimestamps t s

set_option maxRecDepth 8000 in
theorem libraryMatches_refused : refused.all (fun p => libraryMatches p.1 p.2) = true := by
  unfold refused sample libraryMatches GrokEngine.Compile.expand lookup standardPatterns
  simp only [pattern, List.flatMap_cons, List.flatMap_nil, -String.reduceToList]
  -- the kernel is slow to decode string literals, so they are spelled out first
  repeat rw [String.toList_ofList]
  simp only [List.cons_append, List.nil_append]
  decide +kernel

theorem refuses_refused : refused.all (fun p =>
    (grokNativeType p.1).any (fun t => refuses t p.2) && decide (Ascii p.2)) = true := by
  decide +kernel

theorem typeMatches_chrono (C : Chrono) {t : TypeName} (ht : t ≠ .timestamp) (s : Str) :
    typeMatches C t s = typeMatches noTimestamps t s := by
  cases t <;> first | contradiction | rfl

theorem not_accepts_of_refuses {C : Chrono} (hC : TimeOfDay C) {t : TypeName} {s : Str}
    (ht : t ≠ .string) (h : refuses t s = true) : ¬ Accepts C t s := by
  rintro (hs | ⟨-, hs⟩)
  · rw [refuses] at h
    split at h
    · next htime =>
      rw [htime, typeMatches] at hs
      split at hs
      · cases hs
      · have hcolons := parseTimestamp_colons hC hs
        have hfew := of_decide_eq_true h
        omega
    · next htime =>
      rw [← typeMatches_chrono C htime, hs] at h
      cases h
  · exact ht hs

end Refused

section Names

def nativeNames : List Str :=
  (intNames ++ uintNames ++ floatNames ++ ["IPV4", "IPV6", "IP", "MAC"] ++ stringNames ++
    timestampNames).map String.toList

theorem not_string {s t : TypeName} (h : some s = some t) (hs : s ≠ .string) : t ≠ .string :=
  Option.some.inj h ▸ hs

theorem grokNativeType_cases {name : Str} {t : TypeName} (h : grokNativeType name = some t) :
    (name ∈ (intNames ++ uintNames ++ floatNames ++ ["IPV4", "IPV6", "IP", "MAC"]).map
        String.toList ∧ t ≠ .string) ∨
      (name ∈ stringNames.map String.toList ∧ t = .string) ∨
      (name ∈ timestampNames.map String.toList ∧ t ≠ .string) := by
  have hleft : name ∈ intNames.map String.toList ∨ name ∈ uintNames.map String.toList ∨
      name ∈ floatNames.map String.toList ∨ name = "IPV4".toList ∨ name = "IPV6".toList ∨
      name = "IP".toList ∨ name = "MAC".toList →
      name ∈ (intNames ++ uintNames ++ floatNames ++ ["IPV4", "IPV6", "IP", "MAC"]).map
        String.toList := by
    intro hname
    simpa only [List.map_append, List.mem_append, List.map_cons, List.map_nil, List.mem_cons,
      List.not_mem_nil, or_false, or_assoc] using hname
  rw [grokNativeType] at h
  split_ifs at h with hint huint hfloat hipv4 hipv6 hip hmac hstring htime
  · exact Or.inl ⟨hleft (Or.inl hint), not_string h (by decide)⟩
  · exact Or.inl ⟨hleft (by simp only [huint, true_or, or_true]), not_string h (by decide)⟩
  · exact Or.inl ⟨hleft (by simp only [hfloat, true_or, or_true]), not_string h (by decide)⟩
  · exact Or.inl ⟨hleft (by simp only [hipv4, true_or, or_true]), not_string h (by decide)⟩
  · exact Or.inl ⟨hleft (by simp only [hipv6, true_or, or_true]), not_string h (by decide)⟩
  · exact Or.inl ⟨hleft (by simp only [hip, true_or, or_true]), not_string h (by decide)⟩
  · exact Or.inl ⟨hleft (by simp only [hmac, or_true]), not_string h (by decide)⟩
  · exact Or.inr (Or.inl ⟨hstring, (Option.some.inj h).symm⟩)
  · exact Or.inr (Or.inr ⟨htime, not_string h (by decide)⟩)

theorem mem_nativeNames {name : Str} {t : TypeName} (h : grokNativeType name = some t) :
    name ∈ nativeNames := by
  rw [nativeNames, List.map_append, List.map_append, List.mem_append, List.mem_append, or_assoc]
  exact (grokNativeType_cases h).imp And.left (Or.imp And.left And.left)

theorem grokNativeType_string {name : Str} {t : TypeName} (h : grokNativeType name = some t) :
    t = .string ↔ name ∈ stringNames.map String.toList := by
  constructor
  · intro ht
    obtain ⟨-, hne⟩ | ⟨hname, -⟩ | ⟨-, hne⟩ := grokNativeType_cases h
    · exact absurd ht hne
    · exact hname
    · exact absurd ht hne
  · intro hname
    have hall : stringNames.all (fun n => grokNativeType n.toList = some .string) = true := by
      decide +kernel
    obtain ⟨n, hn, rfl⟩ := List.mem_map.mp hname
    have hn := of_decide_eq_true (List.all_eq_true.mp hall n hn)
    exact Option.some.inj (h.symm.trans hn)

/-- Every native name of another type than the string has a text in the list,
unless the library lacks it. -/
theorem nativeNames_cases : nativeNames.all (fun name =>
    decide (name ∈ stringNames.map String.toList) || name ∈ refused.map Prod.fst ||
      (lookup name).isNone) = true := by
  decide +kernel

end Names

/-- The native type of a name accepts what the library matches exactly when it
is the name of a string, or the library has no such name. -/
theorem nativeAccepts_iff {C : Chrono} (hC : TimeOfDay C) {name : Str} {t : TypeName}
    (ht : grokNativeType name = some t) :
    NativeAccepts C name t ↔ name ∈ stringNames.map String.toList ∨ lookup name = none := by
  constructor
  · intro h
    by_contra hnot
    obtain ⟨hname, hlookup⟩ := not_or.mp hnot
    have hstring : t ≠ .string := mt (grokNativeType_string ht).mp hname
    have hcases := List.all_eq_true.mp nativeNames_cases name (mem_nativeNames ht)
    have hmem : name ∈ refused.map Prod.fst := by
      simpa only [hname, hlookup, decide_false, Bool.false_or, Bool.or_eq_true, decide_eq_true_eq,
        Option.isNone_iff_eq_none, or_false] using hcases
    obtain ⟨⟨name, s⟩, hs, rfl⟩ := List.mem_map.mp hmem
    have hmatch := List.all_eq_true.mp libraryMatches_refused _ hs
    have hrefuse := List.all_eq_true.mp refuses_refused _ hs
    simp only [ht, Option.any_some, Bool.and_eq_true, decide_eq_true_eq] at hrefuse
    exact not_accepts_of_refuses hC hstring hrefuse.1 (h s hrefuse.2 (libraryMatches_iff.mp hmatch))
  · rintro (hname | hnone) s - hs
    · obtain rfl := (grokNativeType_string ht).mpr hname
      by_cases hnil : s = []
      · exact Or.inr ⟨hnil, rfl⟩
      · exact Or.inl (if_neg hnil)
    · obtain ⟨body, hbody, -⟩ := hs
      obtain ⟨regex, hregex⟩ := GrokEngine.Compile.lookup_of_expandRef hbody
      rw [hnone] at hregex
      cases hregex

theorem nativeAccepts_word : grokNativeType "WORD".toList = some .string ∧
    LibraryMatches "WORD".toList "up".toList ∧
    NativeAccepts noTimestamps "WORD".toList .string := by
  have htime : TimeOfDay noTimestamps := ⟨nofun, nofun⟩
  refine ⟨by decide, libraryMatches_iff.mp (by decide +kernel), ?_⟩
  exact (nativeAccepts_iff htime (by decide)).mpr (Or.inl (by decide))

theorem fraction_refused : grokNativeType "NUMBER".toList = some .int ∧ Ascii "1.5".toList ∧
    LibraryMatches "NUMBER".toList "1.5".toList ∧
    ¬ Accepts noTimestamps .int "1.5".toList := by
  refine ⟨by decide, by decide, libraryMatches_iff.mp (by decide +kernel), ?_⟩
  rintro (h | ⟨h, -⟩) <;> exact absurd h (by decide)

end TptTelemetry.Compiler.GrokLibrary
