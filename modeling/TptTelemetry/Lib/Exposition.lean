import TptTelemetry.Lib.Http

namespace TptTelemetry.Lib.Exposition

open TptTelemetry.Lib.Text TptTelemetry.Lib.Numeral TptTelemetry.Lib.TextLines

structure Metric where
  name : Str
  help : Str
  value : UInt64
  deriving DecidableEq, Repr

def Metric.lines (m : Metric) : List Str :=
  ["# HELP ".toList ++ m.name ++ [' '] ++ m.help, "# TYPE ".toList ++ m.name ++ " counter".toList,
    m.name ++ [' '] ++ decimal m.value.toNat]

def expose (ms : List Metric) : Str := (ms.flatMap Metric.lines).flatMap (· ++ ['\n'])

def sample (name text : Str) : Option UInt64 :=
  (((Lines.split '\n' text).1.findSome? (stripPrefix (name ++ [' ']))).bind
    (parseUnsigned 10 (2 ^ 64))).map UInt64.ofNat

structure WellFormed (name help : Str) : Prop where
  comment : name.head? ≠ some '#'
  blank : ' ' ∉ name
  line : '\n' ∉ name
  help_line : '\n' ∉ help

instance (name help : Str) : Decidable (WellFormed name help) :=
  decidable_of_iff (name.head? ≠ some '#' ∧ ' ' ∉ name ∧ '\n' ∉ name ∧ '\n' ∉ help)
    ⟨fun h => ⟨h.1, h.2.1, h.2.2.1, h.2.2.2⟩, fun h => ⟨h.1, h.2, h.3, h.4⟩⟩

variable {m : Metric} {ms : List Metric} {name : Str}

theorem no_newline (h : WellFormed m.name m.help) : ∀ l ∈ m.lines, '\n' ∉ l := by
  have hdecimal : '\n' ∉ decimal m.value.toNat := fun hm => by simpa using isDigit_decimal hm
  intro l hl
  simp only [Metric.lines, List.mem_cons, List.not_mem_nil, or_false] at hl
  obtain rfl | rfl | rfl := hl
  · simp [h.line, h.help_line]
  · simp [h.line]
  · simp [h.line, hdecimal]

theorem stripPrefix_name {a b t : Str} (ha : ' ' ∉ a) (hb : ' ' ∉ b) :
    stripPrefix (a ++ [' ']) (b ++ [' '] ++ t) = if a = b then some t else none := by
  split
  · next hab =>
    subst hab
    exact stripPrefix_append _ t
  · next hab =>
    refine if_neg fun h => hab ?_
    obtain ⟨r, hr⟩ := h
    simp only [List.append_assoc, List.singleton_append] at hr
    exact (Lines.append_cons_inj ha hb hr).1

theorem stripPrefix_comment {t : Str} (hname : name.head? ≠ some '#') :
    stripPrefix (name ++ [' ']) ('#' :: t) = none := by
  refine if_neg fun h => ?_
  obtain ⟨r, hr⟩ := h
  cases name with
  | nil => simp at hr
  | cons c name =>
    obtain ⟨rfl, -⟩ := List.cons.inj hr
    exact hname rfl

theorem findSome_lines (hname : name.head? ≠ some '#') (hblank : ' ' ∉ name)
    (hm : WellFormed m.name m.help) :
    m.lines.findSome? (stripPrefix (name ++ [' '])) =
      if name = m.name then some (decimal m.value.toNat) else none := by
  have hhelp : stripPrefix (name ++ [' ']) ("# HELP ".toList ++ m.name ++ [' '] ++ m.help) = none :=
    stripPrefix_comment hname
  have htype : stripPrefix (name ++ [' ']) ("# TYPE ".toList ++ m.name ++ " counter".toList) = none :=
    stripPrefix_comment hname
  rw [Metric.lines, List.findSome?_cons, hhelp, List.findSome?_cons, htype, List.findSome?_cons,
    stripPrefix_name hblank hm.blank]
  by_cases hn : name = m.name
  · rw [if_pos hn]
  · rw [if_neg hn]
    rfl

theorem sample_expose (hms : ∀ m ∈ ms, WellFormed m.name m.help) (hnodup : (ms.map Metric.name).Nodup)
    (hmem : m ∈ ms) : sample m.name (expose ms) = some m.value := by
  have hsplit : (Lines.split '\n' (expose ms)).1 = ms.flatMap Metric.lines := by
    have hlines : ∀ l ∈ ms.flatMap Metric.lines, '\n' ∉ l := by
      intro l hl
      obtain ⟨m, hm, hl⟩ := List.mem_flatMap.mp hl
      exact no_newline (hms m hm) l hl
    have h := Lines.split_flatMap hlines (t := []) (by simp)
    rw [List.append_nil] at h
    rw [expose, h]
  have hfind : (ms.flatMap Metric.lines).findSome? (stripPrefix (m.name ++ [' '])) =
      some (decimal m.value.toNat) := by
    have hm := hms m hmem
    clear hsplit
    induction ms with
    | nil => cases hmem
    | cons m' ms ih =>
      obtain ⟨hm', hms⟩ := List.forall_mem_cons.mp hms
      obtain ⟨hfresh, hnodup⟩ := List.nodup_cons.mp hnodup
      rw [List.flatMap_cons, List.findSome?_append, findSome_lines hm.comment hm.blank hm']
      obtain rfl | hmem := List.mem_cons.mp hmem
      · rw [if_pos rfl, Option.some_or]
      · have hne : m.name ≠ m'.name := fun he => hfresh (he ▸ List.mem_map_of_mem hmem)
        rw [if_neg hne, Option.none_or, ih hms hnodup hmem]
  rw [sample, hsplit, hfind, Option.bind_some, parseUnsigned_decimal m.value.toNat_lt,
    Option.map_some, UInt64.ofNat_toNat]

end TptTelemetry.Lib.Exposition
