import TptTelemetry.Compiler.Coercion
import TptTelemetry.Otlp.Grpc

namespace TptTelemetry.Otlp.Numbers

open TptTelemetry.Lib.Text TptTelemetry.Lib.Numeral TptTelemetry.Dsl.Ast
open TptTelemetry.Compiler.Scalar TptTelemetry.Compiler.Compile TptTelemetry.Compiler.Matcher
open TptTelemetry.Compiler.Typed TptTelemetry.Compiler.Redaction TptTelemetry.Compiler.Coercion
open TptTelemetry.Otlp.Model TptTelemetry.Otlp.Grpc

section Integers

def carried : Value → Option Int
  | .int i => some i.toInt
  | .uint u => some u.toNat
  | .enum idx => some idx.toNat
  | .timestamp ts => some ts.toInt
  | _ => none

/-- A variant that says which integer it is. An integer that fits sixty-four
signed bits is not spelled out. -/
def Denotes (n : Int) : PlAnyValue → Prop
  | .intValue i => i.toInt = n
  | .stringValue s => ¬ (-2 ^ 63 ≤ n ∧ n < 2 ^ 63) ∧
      s = if n < 0 then '-' :: decimal n.natAbs else decimal n.natAbs
  | .boolValue _ => False
  | .doubleValue _ => False

def Keeps (v : Value) : Prop :=
  ∀ n, carried v = some n → ∃ x, populated (valueToAny v) = [x] ∧ Denotes n x

theorem toInt_toInt64 (u : UInt64) : u.toInt64.toInt = (u.toNat : Int) ↔ u.toNat < 2 ^ 63 := by
  have h : u.toInt64 = Int64.ofNat u.toNat := by rw [← UInt64.toInt64_ofNat', UInt64.ofNat_toNat]
  constructor
  · intro hu
    have hlt := Int64.toInt_lt u.toInt64
    omega
  · intro hu
    rw [h, Int64.toInt_ofNat_of_lt hu]

theorem keeps_of_int {v : Value} {n : Int} {i : Int64} (hv : carried v = some n)
    (hany : valueToAny v = .int i) : Keeps v ↔ i.toInt = n := by
  have hone : populated (valueToAny v) = [.intValue i] := by
    rw [hany]
    rfl
  constructor
  · intro hkeeps
    obtain ⟨x, hx, hd⟩ := hkeeps n hv
    cases hone.symm.trans hx
    exact hd
  · intro hi m hm
    cases hv.symm.trans hm
    exact ⟨_, hone, hi⟩

theorem keeps_of_none {v : Value} (hv : carried v = none) : Keeps v := by
  intro n hn
  cases hv.symm.trans hn

/-- An export keeps the number of every value but the unsigned ones that do not
fit sixty-four signed bits. -/
theorem keeps_iff (v : Value) : Keeps v ↔ ∀ u, v = .uint u → u.toNat < 2 ^ 63 := by
  cases v with
  | int i => exact iff_of_true ((keeps_of_int rfl rfl).mpr rfl) (fun u hu => by cases hu)
  | timestamp ts => exact iff_of_true ((keeps_of_int rfl rfl).mpr rfl) (fun u hu => by cases hu)
  | enum idx =>
    have hlt : idx.toNat < 2 ^ 63 := Nat.lt_trans (UInt8.toNat_lt idx) (by decide)
    have hidx : (Int64.ofNat idx.toNat).toInt = idx.toNat := Int64.toInt_ofNat_of_lt hlt
    exact iff_of_true ((keeps_of_int rfl rfl).mpr hidx) (fun u hu => by cases hu)
  | uint u =>
    rw [keeps_of_int rfl rfl, toInt_toInt64]
    simp
  | _ => exact iff_of_true (keeps_of_none rfl) (fun u hu => by cases hu)

/-- The largest unsigned integer, which a line may give, is exported as minus
one. -/
theorem uint_wraps :
    coerceScalar noTimestamps .uint "18446744073709551615".toList = .uint 18446744073709551615 ∧
      valueToAny (.uint 18446744073709551615) = .int (-1) ∧
        ¬ Keeps (.uint 18446744073709551615) := by
  refine ⟨by decide +kernel, by decide, ?_⟩
  rw [keeps_of_int rfl rfl]
  decide

end Integers

section Severity

variable {C : Chrono}

/-- The types that a severity may be declared to have. -/
inductive Carrier
  | int
  | uint
  | enum
  deriving DecidableEq, Repr

inductive Carries : Carrier → Int → Value → Prop
  | int {n : Int} {i : Int64} (h : i.toInt = n) : Carries .int n (.int i)
  | uint {n : Int} {u : UInt64} (h : (u.toNat : Int) = n) : Carries .uint n (.uint u)
  | enum {n : Int} {idx : UInt8} (h : (idx.toNat : Int) = n) : Carries .enum n (.enum idx)

/-- The numbers to which two carriers give the same severity: the unsigned one
has no table, and the tables differ at five. -/
def Agree : Carrier → Carrier → Int → Prop
  | .int, .uint, n => n = 5 ∨ n = 6
  | .uint, .int, n => n = 5 ∨ n = 6
  | .int, .enum, n => n ≠ 5
  | .enum, .int, n => n ≠ 5
  | .uint, .enum, n => n = 6
  | .enum, .uint, n => n = 6
  | _, _, _ => True

def level : Carrier → Int → UInt32
  | .int, n => if 0 ≤ n ∧ n ≤ 3 then 17 else if n = 4 then 13 else if n = 5 ∨ n = 6 then 9 else 7
  | .uint, _ => 9
  | .enum, n =>
    if n ≤ 3 then 17 else if n = 4 then 13 else if n = 5 then 11 else if n = 6 then 9 else 7

theorem severityOfInt_eq (i : Int64) : severityOfInt i = level .int i.toInt := by
  simp only [severityOfInt, level, Int64.le_iff_toInt_le, ← Int64.toInt_inj]
  rfl

theorem severityOfEnum_eq (idx : UInt8) : severityOfEnum idx = level .enum idx.toNat := by
  simp only [severityOfEnum, level, UInt8.le_iff_toNat_le, ← UInt8.toNat_inj, UInt8.reduceToNat]
  split_ifs <;> first | rfl | omega

theorem severityOf_eq {c : Carrier} {n : Int} {v : Value} (h : Carries c n v) :
    severityOf v = level c n := by
  cases h with
  | int h => rw [severityOf, severityOfInt_eq, h]
  | uint h => rfl
  | enum h => rw [severityOf, severityOfEnum_eq, h]

theorem nonneg_of_carries {c : Carrier} {n : Int} {v : Value} (h : Carries c n v) :
    c = .int ∨ 0 ≤ n := by
  cases h with
  | int h => exact Or.inl rfl
  | uint h => exact Or.inr (h ▸ Int.natCast_nonneg _)
  | enum h => exact Or.inr (h ▸ Int.natCast_nonneg _)

theorem level_int_uint (n : Int) : level .int n = level .uint n ↔ n = 5 ∨ n = 6 := by
  simp only [level]
  split_ifs with h h h
  · exact iff_of_false (by decide) (by omega)
  · exact iff_of_false (by decide) (by omega)
  · exact iff_of_true rfl h
  · exact iff_of_false (by decide) h

theorem level_int_enum {n : Int} (hn : 0 ≤ n) : level .int n = level .enum n ↔ n ≠ 5 := by
  by_cases h : n = 5
  · subst h
    decide
  · refine iff_of_true ?_ h
    simp only [level]
    split_ifs <;> first | rfl | omega

theorem level_uint_enum (n : Int) : level .uint n = level .enum n ↔ n = 6 := by
  simp only [level]
  split_ifs with h h h h
  · exact iff_of_false (by decide) (by omega)
  · exact iff_of_false (by decide) (by omega)
  · exact iff_of_false (by decide) (by omega)
  · exact iff_of_true rfl h
  · exact iff_of_false (by decide) h

theorem level_eq_iff {c c' : Carrier} {n : Int} (hn : 0 ≤ n) :
    level c n = level c' n ↔ Agree c c' n := by
  cases c with
  | int =>
    cases c' with
    | int => exact iff_of_true rfl trivial
    | uint => exact level_int_uint n
    | enum => exact level_int_enum hn
  | uint =>
    cases c' with
    | int => exact eq_comm.trans (level_int_uint n)
    | uint => exact iff_of_true rfl trivial
    | enum => exact level_uint_enum n
  | enum =>
    cases c' with
    | int => exact eq_comm.trans (level_int_enum hn)
    | uint => exact eq_comm.trans (level_uint_enum n)
    | enum => exact iff_of_true rfl trivial

theorem level_antitone {c : Carrier} {n m : Int} (hn : 0 ≤ n) (hm : n ≤ m) :
    level c m ≤ level c n := by
  cases c with
  | int => simp only [level]; split_ifs <;> first | omega | decide
  | uint => exact UInt32.le_refl 9
  | enum => simp only [level]; split_ifs <;> first | omega | decide

def severityName : Str := "severity".toList

def withSeverity (format : Str) (before after : List TypedField) (v : Value) : Record :=
  ⟨format, before ++ ⟨severityName, v⟩ :: after⟩

def Shadowed (before : List TypedField) : Prop := ∃ f ∈ before, f.name = severityName

theorem severityNumber_of_find {clock : Option Nat} {rec : Record} {f : TypedField}
    (h : rec.fields.find? (fun f => f.name = severityName) = some f) :
    (recordToLogRecord clock rec).severityNumber = some (severityOf f.value) := by
  have hsev : (recordToLogRecord clock rec).severityNumber = some (((rec.fields.find?
      (fun f => f.name = severityName)).map (fun f => severityOf f.value)).getD severityInfo) := rfl
  rw [hsev, h]
  rfl

theorem severityNumber_shadowed {before : List TypedField} (h : Shadowed before) :
    ∃ s, ∀ clock format after v,
      (recordToLogRecord clock (withSeverity format before after v)).severityNumber = some s := by
  obtain ⟨f, hf⟩ : ∃ f, before.find? (fun f => f.name = severityName) = some f := by
    obtain ⟨g, hg, hn⟩ := h
    rw [← Option.isSome_iff_exists, List.find?_isSome]
    exact ⟨g, hg, by simpa using hn⟩
  refine ⟨severityOf f.value, fun clock format after v => severityNumber_of_find ?_⟩
  rw [withSeverity, List.find?_append, hf, Option.some_or]

theorem severityNumber_withSeverity {before : List TypedField} (h : ¬ Shadowed before)
    (clock : Option Nat) (format : Str) (after : List TypedField) (v : Value) :
    (recordToLogRecord clock (withSeverity format before after v)).severityNumber =
      some (severityOf v) := by
  have hnone : before.find? (fun f => f.name = severityName) = none := by
    rw [List.find?_eq_none]
    intro f hf hn
    exact h ⟨f, hf, by simpa using hn⟩
  refine severityNumber_of_find (f := ⟨severityName, v⟩) ?_
  rw [withSeverity, List.find?_append, hnone, Option.none_or, List.find?_cons_of_pos (by simp)]

theorem record_agree_iff {c c' : Carrier} {n : Int} {v w : Value} (hv : Carries c n v)
    (hw : Carries c' n w) (clock clock' : Option Nat) (format : Str)
    (before after : List TypedField) :
    (recordToLogRecord clock (withSeverity format before after v)).severityNumber =
        (recordToLogRecord clock' (withSeverity format before after w)).severityNumber ↔
      Shadowed before ∨ Agree c c' n := by
  by_cases hs : Shadowed before
  · obtain ⟨s, hsev⟩ := severityNumber_shadowed hs
    rw [hsev, hsev]
    exact iff_of_true rfl (Or.inl hs)
  · rw [severityNumber_withSeverity hs, severityNumber_withSeverity hs, severityOf_eq hv,
      severityOf_eq hw, Option.some_inj, or_iff_right hs]
    obtain rfl | hn := nonneg_of_carries hv
    · obtain rfl | hn := nonneg_of_carries hw
      · exact iff_of_true rfl trivial
      · exact level_eq_iff hn
    · exact level_eq_iff hn

/-- A larger number is no more severe, in one carrier or between carriers that
agree with the signed one. -/
theorem record_antitone {c c' : Carrier} {n m : Int} {v w : Value} (hn : 0 ≤ n) (hm : n ≤ m)
    (hv : Carries c n v) (hw : Carries c' m w)
    (hc : c = c' ∨ Agree .int c n ∧ Agree .int c' m) (clock clock' : Option Nat) (format : Str)
    (before after : List TypedField) :
    ∃ s t, (recordToLogRecord clock (withSeverity format before after v)).severityNumber = some s ∧
      (recordToLogRecord clock' (withSeverity format before after w)).severityNumber = some t ∧
        t ≤ s := by
  by_cases hs : Shadowed before
  · obtain ⟨s, hsev⟩ := severityNumber_shadowed hs
    exact ⟨s, s, hsev _ _ _ _, hsev _ _ _ _, UInt32.le_refl s⟩
  · refine ⟨_, _, severityNumber_withSeverity hs _ _ _ _, severityNumber_withSeverity hs _ _ _ _, ?_⟩
    rw [severityOf_eq hv, severityOf_eq hw]
    obtain rfl | ⟨hcn, hcm⟩ := hc
    · exact level_antitone hn hm
    · rw [← (level_eq_iff hn).mpr hcn, ← (level_eq_iff (Int.le_trans hn hm)).mpr hcm]
      exact level_antitone hn hm

def declaration (fmt : CompiledFormat) : CoercionTarget :=
  ((fmt.coercions.find? (fun c => c.1 = severityName)).map Prod.snd).getD
    (.type ((declaredType fmt.segments severityName).getD .string))

def coerceTo (C : Chrono) : CoercionTarget → Str → Value
  | .type t, raw => coerceScalar C t raw
  | .enum variants, raw => coerceEnum variants raw

theorem coerceField_severity (fmt : CompiledFormat) (raw : Str) :
    coerceField C fmt severityName ((declaredType fmt.segments severityName).getD .string) raw =
      coerceTo C (declaration fmt) raw := by
  rw [coerceField, declaration]
  cases fmt.coercions.find? (fun c => c.1 = severityName) with
  | none => rfl
  | some c =>
    obtain ⟨field, target⟩ := c
    cases target with
    | type t => rfl
    | enum variants => rfl

/-- The format declares the severity in that carrier, and an enumeration has
enough variants for the number. -/
def Declares (fmt : CompiledFormat) (n : Nat) : Carrier → Prop
  | .int => declaration fmt = .type .int
  | .uint => declaration fmt = .type .uint
  | .enum => ∃ variants, declaration fmt = .enum variants ∧ n < variants.length ∧ n < 256

theorem carries_coerceTo {fmt : CompiledFormat} {n : Nat} {c : Carrier} {text : Str}
    (hd : Declares fmt n c) (ht : parseUnsigned 10 (2 ^ 63) text = some n) :
    Carries c n (coerceTo C (declaration fmt) text) := by
  have hu : parseUnsigned 10 (2 ^ 64) text = some n := parseUnsigned_mono (by decide) (by decide) ht
  have hlt : n < 2 ^ 63 := parseUnsigned_lt (by decide) ht
  cases c with
  | int =>
    rw [show declaration fmt = .type .int from hd, coerceTo, coerceScalar, parseInt,
      parseSigned_of_unsigned ht]
    exact .int (Int64.toInt_ofInt_of_le (by omega) (by omega))
  | uint =>
    rw [show declaration fmt = .type .uint from hd, coerceTo, coerceScalar, parseUint, hu]
    refine .uint ?_
    rw [UInt64.toNat_ofNat_of_lt' (Nat.lt_trans hlt (by decide))]
  | enum =>
    obtain ⟨variants, hd, hlen, hbyte⟩ := hd
    have hindex : enumIndex variants text = some n := by
      rw [enumIndex, hu, Option.filter_some_pos (by simpa using hlen), Option.some_or]
    rw [hd, coerceTo, coerceEnum_eq, hindex]
    refine .enum ?_
    rw [UInt8.toNat_ofNat_of_lt' hbyte]

theorem first_severity {raw : RawMatch} {f : RawField}
    (hf : raw.fields.find? (fun f => f.name = severityName) = some f) :
    f.name = severityName ∧ ∃ i : Nat, raw.fields[i]? = some f ∧
      severityName ∉ (raw.fields.map RawField.name).take i := by
  obtain ⟨hn, i, hi, hfi, hbefore⟩ := List.find?_eq_some_iff_getElem.mp hf
  refine ⟨by simpa using hn, i, by rw [List.getElem?_eq_getElem hi, hfi], fun hmem => ?_⟩
  obtain ⟨j, hj, hname⟩ := List.mem_take_iff_getElem.mp hmem
  have hne := hbefore j (by omega)
  rw [List.getElem_map] at hname
  simp [hname] at hne

theorem find_severity {fields : List TypedField} {i : Nat} {tf : TypedField}
    (hi : fields[i]? = some tf) (hn : tf.name = severityName)
    (hbefore : severityName ∉ (fields.map TypedField.name).take i) :
    fields.find? (fun f => f.name = severityName) = some tf := by
  obtain ⟨hlt, hget⟩ := List.getElem?_eq_some_iff.mp hi
  refine List.find?_eq_some_iff_getElem.mpr ⟨by simpa using hn, i, hlt, hget, fun j hj => ?_⟩
  have hne : fields[j].name ≠ severityName := by
    intro hname
    refine hbefore (List.mem_take_iff_getElem.mpr ⟨j, by simp; omega, ?_⟩)
    rw [List.getElem_map, hname]
  simpa using hne

theorem severityNumber_buildRecord {fmt : CompiledFormat} {raw : RawMatch} {record : Record}
    {f : RawField} (h : buildRecord C fmt raw = .ok record)
    (hf : raw.fields.find? (fun f => f.name = severityName) = some f) (clock : Option Nat) :
    (recordToLogRecord clock record).severityNumber = some
      (if ∃ r ∈ fmt.redactions, r.1 = severityName then severityInfo
        else severityOf (coerceTo C (declaration fmt) f.value)) := by
  obtain ⟨hname, i, hi, hbefore⟩ := first_severity hf
  obtain ⟨-, hget⟩ := buildRecord_get h
  obtain ⟨tf, tf', htf, hn, -, htf', hn', hval⟩ := hget i f hi
  have hfind : record.fields.find? (fun f => f.name = severityName) = some tf' := by
    refine find_severity htf' (hn'.trans (hn.trans hname)) ?_
    rwa [(buildRecord_names h).2]
  rw [hname, modeAt, if_neg hbefore] at hval
  rw [severityNumber_of_find hfind]
  cases hm : lastMode fmt.redactions severityName with
  | some mode =>
    rw [hm] at hval
    obtain ⟨text, -, hval⟩ := hval
    rw [if_pos (exists_of_lastMode hm), hval]
    rfl
  | none =>
    rw [hm] at hval
    have hno : ¬ ∃ r ∈ fmt.redactions, r.1 = severityName := by
      rintro ⟨r, hr, hname⟩
      exact lastMode_eq_none.mp hm r hr hname
    rw [typedFields, List.getElem?_map, hi, Option.map_some, Option.some_inj, hname,
      coerceField_severity] at htf
    rw [if_neg hno, show tf'.value = tf.value from hval, ← htf]

theorem parseFormats_append (line : Str) (before formats : List CompiledFormat) :
    parseFormats C line (before ++ formats) = (parseFormats C line before >>= fun found =>
      found.elim (parseFormats C line formats) (fun record => .ok (some record))) := by
  induction before with
  | nil => rfl
  | cons fmt before ih =>
    rw [List.cons_append, parseFormats, parseFormats, bind_assoc]
    cases parse C fmt line with
    | error e => rfl
    | ok found =>
      cases found with
      | none => exact ih
      | some record => rfl

/-- The format of the schema that takes the line, and what it captures. -/
def Takes (C : Chrono) (cs : CompiledSchema) (line : Str) (fmt : CompiledFormat) (raw : RawMatch) :
    Prop :=
  (∃ before after, cs.formats = before ++ fmt :: after ∧ parseFormats C line before = .ok none) ∧
    matchRaw C fmt line = .ok (some raw)

theorem buildRecord_of_takes {cs : CompiledSchema} {line : Str} {fmt : CompiledFormat}
    {raw : RawMatch} {record : Record} (ht : Takes C cs line fmt raw)
    (h : parseLine C cs line = .ok (some record)) : buildRecord C fmt raw = .ok record := by
  obtain ⟨⟨before, after, hcs, hbefore⟩, hraw⟩ := ht
  rw [parseLine, hcs, parseFormats_append, hbefore] at h
  obtain ⟨found, hfound, h⟩ := bind_eq_ok.mp
    (show parse C fmt line >>= _ = Except.ok (some record) from h)
  have hparse : parse C fmt line = buildRecord C fmt raw >>= fun record => .ok (some record) := by
    rw [parse, hraw]
    rfl
  obtain ⟨record', hb, hfound'⟩ := bind_eq_ok.mp (hparse.symm.trans hfound)
  cases hfound'
  cases h
  exact hb

/-- Two schemas take the same captures from the line, with a number for the
severity, and redact the same. -/
structure Redeclared (C : Chrono) (line : Str) (n : Nat) (cs cs' : CompiledSchema)
    (fmt fmt' : CompiledFormat) : Prop where
  captures : ∃ raw f, Takes C cs line fmt raw ∧ Takes C cs' line fmt' raw ∧
    raw.fields.find? (fun f => f.name = severityName) = some f ∧
      parseUnsigned 10 (2 ^ 63) f.value = some n
  redactions : fmt'.redactions = fmt.redactions

theorem schema_agree_iff {line : Str} {n : Nat} {cs cs' : CompiledSchema}
    {fmt fmt' : CompiledFormat} {c c' : Carrier} {record record' : Record}
    (hr : Redeclared C line n cs cs' fmt fmt') (hd : Declares fmt n c) (hd' : Declares fmt' n c')
    (h : parseLine C cs line = .ok (some record)) (h' : parseLine C cs' line = .ok (some record'))
    (clock clock' : Option Nat) :
    (recordToLogRecord clock record).severityNumber =
        (recordToLogRecord clock' record').severityNumber ↔
      (∃ r ∈ fmt.redactions, r.1 = severityName) ∨ Agree c c' n := by
  obtain ⟨⟨raw, f, ht, ht', hf, hn⟩, hred⟩ := hr
  rw [severityNumber_buildRecord (buildRecord_of_takes ht h) hf,
    severityNumber_buildRecord (buildRecord_of_takes ht' h') hf, hred,
    severityOf_eq (carries_coerceTo hd hn), severityOf_eq (carries_coerceTo hd' hn), Option.some_inj]
  by_cases hex : ∃ r ∈ fmt.redactions, r.1 = severityName
  · simp [hex]
  · rw [if_neg hex, if_neg hex, or_iff_right hex]
    exact level_eq_iff (Int.natCast_nonneg n)

/-- The severity of a record is that of its number exactly if the carriers agree
on the number, or the severity is not the one that is read: it is shadowed, or
redacted. -/
theorem severity_iff (C : Chrono) :
    (∀ c c' n v w, Carries c n v → Carries c' n w → ∀ clock clock' format before after,
      ((recordToLogRecord clock (withSeverity format before after v)).severityNumber =
          (recordToLogRecord clock' (withSeverity format before after w)).severityNumber ↔
        Shadowed before ∨ Agree c c' n)) ∧
    (∀ c c' n m v w, 0 ≤ n → n ≤ m → Carries c n v → Carries c' m w →
      (c = c' ∨ Agree .int c n ∧ Agree .int c' m) → ∀ clock clock' format before after,
        ∃ s t, (recordToLogRecord clock (withSeverity format before after v)).severityNumber =
            some s ∧
          (recordToLogRecord clock' (withSeverity format before after w)).severityNumber =
            some t ∧ t ≤ s) ∧
    ∀ line n cs cs' fmt fmt' c c' record record', Redeclared C line n cs cs' fmt fmt' →
      Declares fmt n c → Declares fmt' n c' → parseLine C cs line = .ok (some record) →
        parseLine C cs' line = .ok (some record') → ∀ clock clock',
          ((recordToLogRecord clock record).severityNumber =
              (recordToLogRecord clock' record').severityNumber ↔
            (∃ r ∈ fmt.redactions, r.1 = severityName) ∨ Agree c c' n) := by
  refine ⟨?_, ?_, ?_⟩
  · intro c c' n v w hv hw
    exact record_agree_iff hv hw
  · intro c c' n m v w hn hm hv hw hc
    exact record_antitone hn hm hv hw hc
  · intro line n cs cs' fmt fmt' c c' record record' hr hd hd' h h'
    exact schema_agree_iff hr hd hd' h h'

def severityAs (ty : TypeName) : CompiledSchema :=
  ⟨[⟨"Level".toList, [.capture severityName ty], [], []⟩]⟩

def levelRecord (v : Value) : Record := withSeverity "Level".toList [] [] v

/-- A warning is information when it is unsigned, and the two tables differ on a
notice. -/
theorem severity_by_carrier :
    (recordToLogRecord none (levelRecord (.int 4))).severityNumber = some 13 ∧
      (recordToLogRecord none (levelRecord (.uint 4))).severityNumber = some 9 ∧
      (recordToLogRecord none (levelRecord (.int 5))).severityNumber = some 9 ∧
      (recordToLogRecord none (levelRecord (.enum 5))).severityNumber = some 11 ∧
      parseLine noTimestamps (severityAs .int) "4".toList = .ok (some (levelRecord (.int 4))) ∧
      parseLine noTimestamps (severityAs .uint) "4".toList = .ok (some (levelRecord (.uint 4))) := by
  refine ⟨by decide, by decide, by decide, by decide, ?_, ?_⟩
  · decide +kernel
  · decide +kernel

end Severity

end TptTelemetry.Otlp.Numbers
