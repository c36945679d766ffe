import TptTelemetry.Compiler.Exact
import TptTelemetry.Compiler.Typed

namespace TptTelemetry.Compiler.Redaction

open TptTelemetry.Lib TptTelemetry.Lib.Text TptTelemetry.Lib.Pattern TptTelemetry.Dsl.Ast
open TptTelemetry.Compiler.Scalar TptTelemetry.Compiler.Compile TptTelemetry.Compiler.Matcher
open TptTelemetry.Compiler.Search TptTelemetry.Compiler.Exact TptTelemetry.Compiler.Typed

variable {C : Chrono}

def lastMode : List (Str × RedactMode) → Str → Option RedactMode
  | [], _ => none
  | r :: rs, name => (lastMode rs name).or (if r.1 = name then some r.2 else none)

theorem lastMode_eq_none {rs : List (Str × RedactMode)} {name : Str} :
    lastMode rs name = none ↔ ∀ r ∈ rs, r.1 ≠ name := by
  induction rs with
  | nil => simp [lastMode]
  | cons r rs ih => simp [lastMode, ih, and_comm]

theorem exists_of_lastMode {rs : List (Str × RedactMode)} {name : Str} {mode : RedactMode}
    (h : lastMode rs name = some mode) : ∃ r ∈ rs, r.1 = name := by
  by_contra hno
  rw [lastMode_eq_none.mpr fun r hr hn => hno ⟨r, hr, hn⟩] at h
  cases h

def names (fields : List TypedField) : List Str := fields.map TypedField.name

theorem names_assignFirst (name : Str) (v : Value) (fields : List TypedField) :
    names (assignFirst name v fields) = names fields := by
  induction fields with
  | nil => rfl
  | cons tf fields ih =>
    rw [assignFirst]
    split
    · rfl
    · exact congrArg (tf.name :: ·) ih

theorem getElem?_assignFirst (name : Str) (v : Value) (fields : List TypedField) (i : Nat) :
    (assignFirst name v fields)[i]? = fields[i]?.map (fun tf =>
      if tf.name = name ∧ name ∉ (names fields).take i then ⟨tf.name, v⟩ else tf) := by
  induction fields generalizing i with
  | nil => simp [assignFirst]
  | cons tf fields ih =>
    rw [assignFirst]
    by_cases hn : tf.name = name
    · rw [if_pos hn]
      cases i with
      | zero => simp [hn]
      | succ i => simp [hn, names]
    · rw [if_neg hn]
      cases i with
      | zero => simp [hn]
      | succ i =>
        rw [List.getElem?_cons_succ, List.getElem?_cons_succ, ih]
        congr 1
        funext x
        apply if_congr _ rfl rfl
        simp only [names, List.map_cons, List.take_succ_cons, List.mem_cons, Ne.symm hn, false_or]

/-- The field after redaction in the given mode, over the text of the first
field of its name. -/
def Rewritten (raw : RawMatch) (mode : Option RedactMode) (tf tf' : TypedField) : Prop :=
  tf'.name = tf.name ∧
    match mode with
    | some mode => ∃ text, redactText mode (firstText raw tf.name) = .ok text ∧
        tf'.value = .ownedString text
    | none => tf'.value = tf.value

/-- The mode that reaches the field at position `i`: none but for the first
field of its name. -/
def modeAt (rs : List (Str × RedactMode)) (fieldNames : List Str) (i : Nat) (name : Str) :
    Option RedactMode :=
  if name ∈ fieldNames.take i then none else lastMode rs name

theorem redactField_get {raw : RawMatch} {r : Str × RedactMode} {fields fields' : List TypedField}
    (h : redactField raw fields r = .ok fields') :
    names fields' = names fields ∧ ∀ i tf, fields[i]? = some tf →
      ∃ tf', fields'[i]? = some tf' ∧ Rewritten raw (modeAt [r] (names fields) i tf.name) tf tf' := by
  rw [redactField] at h
  split at h
  · obtain ⟨text, ht, h⟩ := bind_eq_ok.mp h
    cases h
    refine ⟨names_assignFirst _ _ _, fun i tf hi => ?_⟩
    rw [getElem?_assignFirst, hi, Option.map_some]
    refine ⟨_, rfl, ?_⟩
    by_cases hn : tf.name = r.1
    · by_cases hm : r.1 ∈ (names fields).take i
      · simp [Rewritten, modeAt, hn, hm]
      · simp [Rewritten, modeAt, lastMode, hn, hm, ht]
    · simp [Rewritten, modeAt, lastMode, hn, Ne.symm hn]
  · next hmem =>
    cases h
    refine ⟨rfl, fun i tf hi => ⟨tf, hi, ?_⟩⟩
    have hn : r.1 ≠ tf.name := by
      rintro hr
      rw [hr] at hmem
      exact hmem (List.mem_map_of_mem (List.mem_of_getElem? hi))
    simp [Rewritten, modeAt, lastMode, hn]

/-- The redaction loop: the last redaction of a name is applied, to the first
field of that name. -/
theorem redactions_get {raw : RawMatch} {rs : List (Str × RedactMode)}
    {fields fields' : List TypedField} (h : rs.foldlM (redactField raw) fields = .ok fields') :
    names fields' = names fields ∧ ∀ i tf, fields[i]? = some tf →
      ∃ tf', fields'[i]? = some tf' ∧ Rewritten raw (modeAt rs (names fields) i tf.name) tf tf' := by
  induction rs generalizing fields with
  | nil =>
    cases h
    refine ⟨rfl, fun i tf hi => ⟨tf, hi, rfl, ?_⟩⟩
    simp [modeAt, lastMode]
  | cons r rs ih =>
    rw [List.foldlM_cons] at h
    obtain ⟨fields₁, h₁, h⟩ := bind_eq_ok.mp h
    obtain ⟨hn₁, hget₁⟩ := redactField_get h₁
    obtain ⟨hn, hget⟩ := ih h
    refine ⟨hn.trans hn₁, fun i tf hi => ?_⟩
    obtain ⟨tf₁, hi₁, hname₁, hval₁⟩ := hget₁ i tf hi
    obtain ⟨tf', hi', hname, hval⟩ := hget i tf₁ hi₁
    refine ⟨tf', hi', hname.trans hname₁, ?_⟩
    rw [hn₁, hname₁] at hval
    by_cases hm : tf.name ∈ (names fields).take i
    · simp only [modeAt, hm, if_true] at hval hval₁ ⊢
      exact hval.trans hval₁
    · simp only [modeAt, hm, if_false, lastMode] at hval hval₁ ⊢
      cases hl : lastMode rs tf.name with
      | some mode => simpa only [hl, Option.some_or] using hval
      | none =>
        rw [hl] at hval
        rw [Option.none_or]
        by_cases hr : r.1 = tf.name
        · simp only [hr, if_true, Option.none_or] at hval₁ ⊢
          exact hval.symm ▸ hval₁
        · simp only [hr, if_false, Option.none_or] at hval₁ ⊢
          exact hval.trans hval₁

theorem coerceField_ne (C : Chrono) (fmt : CompiledFormat) (name : Str) (declared : TypeName)
    (raw text : Str) : coerceField C fmt name declared raw ≠ .ownedString text := by
  have hopt : ∀ {β : Type} (x : Option β) (g : β → Value), (∀ b, g b ≠ .ownedString text) →
      (x.map g).getD (.str raw) ≠ .ownedString text := by
    intro β x g hg
    cases x with
    | none => simp
    | some b => exact hg b
  have hscalar : ∀ ty, coerceScalar C ty raw ≠ .ownedString text := by
    intro ty
    cases ty <;> first | exact hopt _ _ (by simp) | simp [coerceScalar]
  rw [coerceField]
  split
  · exact hscalar _
  · rw [coerceEnum]
    split
    · simp
    · split <;> simp
  · exact hscalar _

theorem names_typedFields (C : Chrono) (fmt : CompiledFormat) (raw : RawMatch) :
    names (typedFields C fmt raw) = raw.fields.map RawField.name := by
  simp [names, typedFields]

theorem firstText_eq {raw : RawMatch} {i : Nat} {f : RawField} (hi : raw.fields[i]? = some f)
    (hfirst : f.name ∉ (raw.fields.map RawField.name).take i) : firstText raw f.name = f.value := by
  have hfind : ∀ (l : List RawField) (i : Nat), l[i]? = some f → f.name ∉ (l.map RawField.name).take i →
      l.find? (fun g => g.name = f.name) = some f := by
    intro l
    induction l with
    | nil => simp
    | cons g l ih =>
      rintro (_ | i) hi hn
      · simp_all
      · rw [List.map_cons, List.take_succ_cons, List.mem_cons, not_or] at hn
        rw [List.find?_cons_of_neg (by simpa [eq_comm] using hn.1)]
        exact ih i (by simpa using hi) hn.2
  rw [firstText, hfind raw.fields i hi hfirst]
  rfl

theorem count_le_one_iff {l : List Str} {a : Str} :
    l.count a ≤ 1 ↔ ∀ i, l[i]? = some a → a ∉ l.take i := by
  induction l with
  | nil => simp
  | cons b l ih =>
    by_cases hb : b = a
    · subst hb
      rw [List.count_cons_self, Nat.succ_le_succ_iff, Nat.le_zero, List.count_eq_zero,
        List.mem_iff_getElem?]
      refine ⟨fun h i hi => ?_, fun h ⟨i, hi⟩ => h (i + 1) (by simpa using hi) (by simp)⟩
      cases i with
      | zero => simp
      | succ i => exact absurd ⟨i, by simpa using hi⟩ h
    · rw [List.count_cons_of_ne hb, ih]
      refine ⟨fun h i hi => ?_, fun h i hi hm => h (i + 1) (by simpa using hi) (by simp [hm])⟩
      cases i with
      | zero => simp
      | succ i => simpa [Ne.symm hb] using h i (by simpa using hi)

/-- Redaction is complete: the value of every field of a redacted name is made
from that very field's text by the last redaction of the name, and all other
fields are as they were before redaction. -/
def Redacted (C : Chrono) (fmt : CompiledFormat) (raw : RawMatch) (record : Record) : Prop :=
  record.fields.length = raw.fields.length ∧
    ∀ (i : Nat) (f : RawField) (tf : TypedField), raw.fields[i]? = some f →
      record.fields[i]? = some tf →
        tf.name = f.name ∧
          match lastMode fmt.redactions f.name with
          | some mode => ∃ text, redactText mode f.value = .ok text ∧ tf.value = .ownedString text
          | none => (typedFields C fmt raw)[i]? = some tf

/-- What `build_record` makes of a match: each field in the mode that reaches
it. -/
theorem buildRecord_get {fmt : CompiledFormat} {raw : RawMatch} {record : Record}
    (h : buildRecord C fmt raw = .ok record) :
    record.fields.length = raw.fields.length ∧
      ∀ i f, raw.fields[i]? = some f → ∃ tf tf', (typedFields C fmt raw)[i]? = some tf ∧
        tf.name = f.name ∧ (∀ text, tf.value ≠ .ownedString text) ∧
        record.fields[i]? = some tf' ∧
        Rewritten raw (modeAt fmt.redactions (raw.fields.map RawField.name) i f.name) tf tf' := by
  obtain ⟨fields, hfields, h⟩ := bind_eq_ok.mp h
  cases h
  obtain ⟨hn, hget⟩ := redactions_get hfields
  rw [names_typedFields] at hn hget
  refine ⟨by simpa [names] using congrArg List.length hn, fun i f hi => ?_⟩
  have htf : (typedFields C fmt raw)[i]? = some ⟨f.name,
      coerceField C fmt f.name ((declaredType fmt.segments f.name).getD .string) f.value⟩ := by
    rw [typedFields, List.getElem?_map, hi, Option.map_some]
  obtain ⟨tf', hi', hw⟩ := hget i _ htf
  exact ⟨_, tf', htf, rfl, coerceField_ne C fmt _ _ _, hi', hw⟩

theorem buildRecord_names {fmt : CompiledFormat} {raw : RawMatch} {record : Record}
    (h : buildRecord C fmt raw = .ok record) : record.format = raw.format ∧
      record.fields.map TypedField.name = raw.fields.map RawField.name := by
  obtain ⟨fields, hfields, h⟩ := bind_eq_ok.mp h
  cases h
  exact ⟨rfl, (redactions_get hfields).1.trans (names_typedFields C fmt raw)⟩

theorem buildRecord_of_parse {fmt : CompiledFormat} {line : Str} {raw : RawMatch} {record : Record}
    (hraw : matchRaw C fmt line = .ok (some raw)) (h : parse C fmt line = .ok (some record)) :
    buildRecord C fmt raw = .ok record := by
  rw [parse, hraw] at h
  obtain ⟨record', hb, h⟩ := bind_eq_ok.mp (show buildRecord C fmt raw >>= _ = _ from h)
  cases h
  exact hb

/-- Redaction is complete exactly for the formats that capture no redacted
name twice. -/
theorem redacted_iff {fmt : CompiledFormat} {line : Str} {raw : RawMatch} {record : Record}
    (hraw : matchRaw C fmt line = .ok (some raw)) (h : parse C fmt line = .ok (some record)) :
    Redacted C fmt raw record ↔
      ∀ r ∈ fmt.redactions, (captureNames fmt.segments).count r.1 ≤ 1 := by
  obtain ⟨hlen, hget⟩ := buildRecord_get (buildRecord_of_parse hraw h)
  simp only [← (matchRaw_eq_some hraw).1, count_le_one_iff]
  refine ⟨fun hred r hr i hi hm => ?_, fun hone => ⟨hlen, fun i f tf' hi hi' => ?_⟩⟩
  · -- a later field of a redacted name keeps its coerced value
    rw [List.getElem?_map, Option.map_eq_some_iff] at hi
    obtain ⟨f, hi, hname⟩ := hi
    obtain ⟨tf, tf', -, -, hne, hi', -, hval⟩ := hget i f hi
    rw [← hname] at hm
    simp only [modeAt, hm, if_true] at hval
    have hv := (hred.2 i f tf' hi hi').2
    split at hv
    · obtain ⟨text, -, hv⟩ := hv
      exact hne text (hval.symm.trans hv)
    · next hl => exact lastMode_eq_none.mp hl r hr hname.symm
  · obtain ⟨tf, tf'', htf, hname, -, hi'', hname', hval⟩ := hget i f hi
    rw [hi'] at hi''
    cases hi''
    refine ⟨hname'.trans hname, ?_⟩
    cases hl : lastMode fmt.redactions f.name with
    | none =>
      have hmode : modeAt fmt.redactions (raw.fields.map RawField.name) i f.name = none := by
        simp [modeAt, hl]
      rw [hmode] at hval
      rw [htf]
      cases tf
      cases tf'
      simp_all
    | some mode =>
      have hfirst : f.name ∉ (raw.fields.map RawField.name).take i := by
        obtain ⟨r, hr, hn⟩ := exists_of_lastMode hl
        rw [← hn]
        exact hone r hr i (by rw [List.getElem?_map, hi, hn, Option.map_some])
      simp only [modeAt, hfirst, if_false, hl, hname, firstText_eq hi hfirst] at hval
      exact hval

/-- The format `%{user:string} %{port:uint}` with `redact user with mask`. -/
def login : CompiledFormat :=
  ⟨"Login".toList, [.capture "user".toList .string, .literal " ".toList,
    .capture "port".toList .uint], [], [("user".toList, .mask)]⟩

theorem redacted_login :
    ∃ raw record, matchRaw noTimestamps login "alice 22".toList = .ok (some raw) ∧
      parse noTimestamps login "alice 22".toList = .ok (some record) ∧
      Redacted noTimestamps login raw record := by
  have hraw : matchRaw noTimestamps login "alice 22".toList = .ok (some ⟨"Login".toList,
      [⟨"user".toList, "alice".toList⟩, ⟨"port".toList, "22".toList⟩]⟩) := by decide +kernel
  have hparse : parse noTimestamps login "alice 22".toList = .ok (some ⟨"Login".toList,
      [⟨"user".toList, .ownedString "***ce".toList⟩, ⟨"port".toList, .uint 22⟩]⟩) := by
    decide +kernel
  exact ⟨_, _, hraw, hparse, (redacted_iff hraw hparse).mpr (by decide +kernel)⟩

/-- The schema `format Twice { pattern: "%{a:int} %{a:int}"; redact a with mask; }`. -/
def twiceSchema : Schema :=
  ⟨[⟨"Twice".toList, ⟨[.capture ⟨"a".toList, .int, false, none⟩, .literal " ".toList,
    .capture ⟨"a".toList, .int, false, none⟩]⟩, [], [], [⟨"a".toList, .mask⟩]⟩]⟩

def twice : CompiledFormat :=
  ⟨"Twice".toList, [.capture "a".toList .int, .literal " ".toList, .capture "a".toList .int], [],
    [("a".toList, .mask)]⟩

/-- The second field of a redacted name leaves the parser in the clear. -/
theorem not_redacted :
    compile twiceSchema = .ok ⟨[twice]⟩ ∧
      ∃ raw record, matchRaw noTimestamps twice "1234 5678".toList = .ok (some raw) ∧
        parse noTimestamps twice "1234 5678".toList = .ok (some record) ∧
        record.fields = [⟨"a".toList, .ownedString "**34".toList⟩, ⟨"a".toList, .int 5678⟩] ∧
        ¬ Redacted noTimestamps twice raw record := by
  refine ⟨by decide +kernel,
    ⟨"Twice".toList, [⟨"a".toList, "1234".toList⟩, ⟨"a".toList, "5678".toList⟩]⟩,
    ⟨"Twice".toList, [⟨"a".toList, .ownedString "**34".toList⟩, ⟨"a".toList, .int 5678⟩]⟩,
    by decide +kernel, by decide +kernel, rfl, fun h => ?_⟩
  obtain ⟨-, text, -, hv⟩ := h.2 1 _ _ rfl rfl
  cases hv

end TptTelemetry.Compiler.Redaction
