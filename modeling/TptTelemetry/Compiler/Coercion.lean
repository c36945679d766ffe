import TptTelemetry.Compiler.Redaction

namespace TptTelemetry.Compiler.Coercion

open TptTelemetry.Lib TptTelemetry.Lib.Text TptTelemetry.Lib.Numeral TptTelemetry.Lib.Pattern
open TptTelemetry.Dsl.Ast TptTelemetry.Compiler.Scalar TptTelemetry.Compiler.Compile
open TptTelemetry.Compiler.Matcher TptTelemetry.Compiler.Search TptTelemetry.Compiler.Exact
open TptTelemetry.Compiler.Typed TptTelemetry.Compiler.Redaction

variable {C : Chrono}

section Scalar

def scalarType : Value → Option TypeName
  | .str _ => some .string
  | .int _ => some .int
  | .uint _ => some .uint
  | .float _ => some .float
  | .bool _ => some .bool
  | .ipv4 _ => some .ipv4
  | .ipv6 _ => some .ipv6
  | .ip _ => some .ip
  | .mac _ => some .mac
  | .timestamp _ => some .timestamp
  | .ownedString _ | .enum _ => none

def parseBool (text : Str) : Option Bool :=
  if lowercase text ∈ ["true".toList, "1".toList] then some true
  else if lowercase text ∈ ["false".toList, "0".toList] then some false
  else none

def typedValue (C : Chrono) (ty : TypeName) (text : Str) : Option Value :=
  match ty with
  | .int => (parseInt text).map .int
  | .uint => (parseUint text).map .uint
  | .float => (Float.parseFloat text).map .float
  | .bool => (parseBool text).map .bool
  | .string => some (.str text)
  | .ipv4 => (Net.parseIpv4 text).map .ipv4
  | .ipv6 => (Net.parseIpv6 text).map .ipv6
  | .ip => (Net.parseIp text).map .ip
  | .mac => (parseMac text).map .mac
  | .timestamp => (parseTimestamp C text).map (fun p => .timestamp p.1)

theorem scalarType_typedValue {ty : TypeName} {text : Str} {v : Value}
    (h : typedValue C ty text = some v) : scalarType v = some ty := by
  cases ty <;> simp only [typedValue, Option.map_eq_some_iff, Option.some.injEq] at h
  case string =>
    subst h
    rfl
  all_goals
    obtain ⟨x, -, rfl⟩ := h
    rfl

theorem coerceScalar_eq {ty : TypeName} (hty : ty ≠ .bool) (raw : Str) :
    coerceScalar C ty raw = (typedValue C ty raw).getD (.str raw) := by
  cases ty <;> first | contradiction | rfl

theorem parseBool_cases (raw : Str) :
    (lowercase raw ∈ ["true".toList, "1".toList] ∧ parseBool raw = some true) ∨
      (lowercase raw ∈ ["false".toList, "0".toList] ∧ parseBool raw = some false) ∨
      lowercase raw ∉ ["true".toList, "false".toList, "1".toList, "0".toList] ∧
        parseBool raw = none := by
  rw [parseBool]
  split
  · next h => exact Or.inl ⟨h, rfl⟩
  · next ht =>
    split
    · next h => exact Or.inr (Or.inl ⟨h, rfl⟩)
    · next hf =>
      refine Or.inr (Or.inr ⟨fun h => ?_, rfl⟩)
      simp only [List.mem_cons, List.not_mem_nil, or_false] at h ht hf
      tauto

theorem coerceScalar_bool {raw : Str} {b : Bool} (h : parseBool raw = some b) :
    coerceScalar C .bool raw = .bool b := by
  obtain ⟨hw, hp⟩ | ⟨hw, hp⟩ | ⟨-, hp⟩ := parseBool_cases raw
  · cases hp.symm.trans h
    rw [coerceScalar, decide_eq_true]
    simp only [List.mem_cons, List.not_mem_nil, or_false] at hw ⊢
    tauto
  · cases hp.symm.trans h
    rw [coerceScalar, decide_eq_false]
    simp only [List.mem_cons, List.not_mem_nil, or_false] at hw
    obtain hw | hw := hw
    · rw [hw]
      decide
    · rw [hw]
      decide
  · cases hp.symm.trans h

theorem coerceScalar_typed {ty : TypeName} {raw : Str} {v : Value}
    (h : typedValue C ty raw = some v) : coerceScalar C ty raw = v := by
  by_cases hty : ty = .bool
  · subst hty
    obtain ⟨b, hb, rfl⟩ := Option.map_eq_some_iff.mp h
    exact coerceScalar_bool hb
  · rw [coerceScalar_eq hty, h]
    rfl

theorem parseBool_isSome {raw : Str} : (parseBool raw).isSome ↔
    lowercase raw ∈ ["true".toList, "false".toList, "1".toList, "0".toList] := by
  obtain ⟨hw, hp⟩ | ⟨hw, hp⟩ | ⟨hw, hp⟩ := parseBool_cases raw
  · simp only [List.mem_cons, List.not_mem_nil, or_false] at hw ⊢
    rw [hp]
    exact iff_of_true rfl (by tauto)
  · simp only [List.mem_cons, List.not_mem_nil, or_false] at hw ⊢
    rw [hp]
    exact iff_of_true rfl (by tauto)
  · rw [hp]
    exact iff_of_false Bool.false_ne_true hw

/-- The two case analyses over the types agree: a text has the type when it is
not empty and parses. -/
theorem typeMatches_iff {ty : TypeName} {raw : Str} :
    typeMatches C ty raw = true ↔ raw ≠ [] ∧ (typedValue C ty raw).isSome := by
  by_cases hraw : raw = []
  · simp [hraw]
  · cases ty with
    | bool =>
      simp only [typeMatches, hraw, if_false, decide_eq_true_eq, typedValue, Option.isSome_map,
        parseBool_isSome, ne_eq, not_false_eq_true, true_and]
    | _ => simp [typeMatches, typedValue, hraw]

theorem typedValue_of_accepts {ty : TypeName} {text : Str} (h : Accepts C ty text) :
    typedValue C ty text = some (coerceScalar C ty text) := by
  have hsome : (typedValue C ty text).isSome := by
    obtain h | ⟨-, rfl⟩ := h
    · exact (typeMatches_iff.mp h).2
    · rfl
  obtain ⟨v, hv⟩ := Option.isSome_iff_exists.mp hsome
  rw [hv, coerceScalar_typed hv]

/-- The coercion of a text to a type invents nothing: the variant of the type
comes out exactly when the text is acceptable, and the text itself otherwise. -/
def Faithful (C : Chrono) (ty : TypeName) (raw : Str) : Prop :=
  (scalarType (coerceScalar C ty raw) = some ty ↔ typeMatches C ty raw = true ∨ ty = .string) ∧
    (¬ (typeMatches C ty raw = true ∨ ty = .string) → coerceScalar C ty raw = .str raw)

/-- The crate `chrono` finds no timestamp in the empty text. -/
def EmptyRefused (C : Chrono) : Prop := parseTimestamp C [] = none

theorem typedValue_nil {ty : TypeName} (hC : ty = .timestamp → EmptyRefused C)
    (hty : ty ≠ .string) : typedValue C ty [] = none := by
  cases ty with
  | string => contradiction
  | timestamp => rw [typedValue, hC rfl, Option.map_none]
  | _ => rfl

theorem typedValue_isSome_iff (hC : EmptyRefused C) {ty : TypeName} {raw : Str} :
    (typedValue C ty raw).isSome ↔ typeMatches C ty raw = true ∨ ty = .string := by
  rw [typeMatches_iff]
  by_cases hty : ty = .string
  · exact iff_of_true (by rw [hty]; rfl) (Or.inr hty)
  · refine ⟨fun h => Or.inl ⟨?_, h⟩, fun h => (h.resolve_right hty).2⟩
    rintro rfl
    rw [typedValue_nil (fun _ => hC) hty] at h
    cases h

theorem faithful_of_ne_bool (hC : EmptyRefused C) {ty : TypeName} (hty : ty ≠ .bool) (raw : Str) :
    Faithful C ty raw := by
  rw [Faithful, ← typedValue_isSome_iff hC, coerceScalar_eq hty]
  cases h : typedValue C ty raw with
  | some v => exact ⟨iff_of_true (scalarType_typedValue h) rfl, fun hno => absurd rfl hno⟩
  | none =>
    refine ⟨iff_of_false (fun hs => ?_) Bool.false_ne_true, fun _ => rfl⟩
    have hstr : ty = .string := (Option.some.inj hs).symm
    rw [hstr] at h
    cases h

/-- Coercion is faithful exactly to the types other than the boolean, and to
the boolean on its four words. -/
theorem faithful_iff (hC : EmptyRefused C) (ty : TypeName) (raw : Str) :
    Faithful C ty raw ↔ (ty = .bool →
      lowercase raw ∈ ["true".toList, "false".toList, "1".toList, "0".toList]) := by
  by_cases hty : ty = .bool
  · subst hty
    have hwords : typeMatches C .bool raw = true ∨ TypeName.bool = .string ↔
        lowercase raw ∈ ["true".toList, "false".toList, "1".toList, "0".toList] := by
      rw [← typedValue_isSome_iff hC, typedValue, Option.isSome_map, parseBool_isSome]
    rw [Faithful, hwords]
    refine ⟨fun h _ => h.1.mp rfl, fun h => ⟨iff_of_true rfl (h rfl), fun hno => ?_⟩⟩
    exact absurd (h rfl) hno
  · exact iff_of_true (faithful_of_ne_bool hC hty raw) (fun h => absurd h hty)

theorem faithful_port :
    coerceScalar noTimestamps .uint "22".toList = .uint 22 ∧
      Faithful noTimestamps .uint "22".toList :=
  ⟨by decide +kernel, (faithful_iff (C := noTimestamps) rfl .uint "22".toList).mpr nofun⟩

/-- A text that is no boolean becomes one: false, and a word that is not
acceptable becomes true. -/
theorem bool_invented :
    coerceScalar noTimestamps .bool "maybe".toList = .bool false ∧
      coerceScalar noTimestamps .bool "yes".toList = .bool true ∧
      ¬ Faithful noTimestamps .bool "maybe".toList ∧ ¬ Faithful noTimestamps .bool "yes".toList := by
  refine ⟨by decide +kernel, by decide +kernel, fun h => ?_, fun h => ?_⟩
  · exact absurd (h.1.mp rfl) (by decide +kernel)
  · exact absurd (h.1.mp rfl) (by decide +kernel)

end Scalar

section Captures

def captures : List Seg → List (Str × TypeName)
  | [] => []
  | .literal _ :: segs => captures segs
  | .capture field ty :: segs => (field, ty) :: captures segs

theorem captures_names (segs : List Seg) : (captures segs).map Prod.fst = captureNames segs := by
  induction segs with
  | nil => rfl
  | cons seg segs ih =>
    cases seg with
    | literal l => exact ih
    | capture field ty => exact congrArg (field :: ·) ih

theorem mem_captures {segs : List Seg} {field : Str} {ty : TypeName} :
    (field, ty) ∈ captures segs ↔ .capture field ty ∈ segs := by
  induction segs with
  | nil => simp [captures]
  | cons seg segs ih => cases seg <;> simp [captures, ih]

theorem holes_parts (segs : List Seg) :
    holes (parts C segs) = (captures segs).map (fun c => Accepts C c.2) := by
  induction segs with
  | nil => rfl
  | cons seg segs ih =>
    cases seg with
    | literal l => exact ih
    | capture field ty => exact congrArg (Accepts C ty :: ·) ih

theorem accepts_of_fits {segs : List Seg} {ts : List Str} {s : Str}
    (h : Fits (parts C segs) ts s) {i : Nat} {c : Str × TypeName} {t : Str}
    (hc : (captures segs)[i]? = some c) (ht : ts[i]? = some t) : Accepts C c.2 t := by
  have hf := h.1
  rw [holes_parts, List.forall₂_map_left_iff] at hf
  obtain ⟨hi, rfl⟩ := List.getElem?_eq_some_iff.mp hc
  obtain ⟨hi', rfl⟩ := List.getElem?_eq_some_iff.mp ht
  exact hf.get hi hi'

theorem filter_eq_singleton {β : Type} {f : β → Str} {l : List β} {x : β} (hx : x ∈ l)
    (hone : (l.map f).count (f x) = 1) : l.filter (fun y => f y = f x) = [x] := by
  have hlen : (l.filter (fun y => f y = f x)).length = 1 := by
    rw [← List.countP_eq_length_filter, ← hone, List.count, List.countP_map]
    exact List.countP_congr (fun y _ => by simp)
  have hmem : x ∈ l.filter (fun y => f y = f x) := List.mem_filter.mpr ⟨hx, by simp⟩
  obtain ⟨z, hz⟩ := List.length_eq_one_iff.mp hlen
  rw [hz] at hmem ⊢
  rw [List.mem_singleton.mp hmem]

theorem foldl_declared (segs : List Seg) (name : Str) (acc : Option TypeName) :
    segs.foldl (fun found seg =>
      match seg with
      | .capture field ty => if field = name then some ty else found
      | .literal _ => found) acc =
        (((captures segs).filter (fun c => c.1 = name)).getLast?.map Prod.snd).or acc := by
  induction segs generalizing acc with
  | nil => simp [captures]
  | cons seg segs ih =>
    rw [List.foldl_cons, ih]
    cases seg with
    | literal l => rfl
    | capture field ty =>
      by_cases hf : field = name
      · cases hl : ((captures segs).filter (fun c => c.1 = name)).getLast? <;>
          simp [captures, hf, hl, List.getLast?_cons]
      · simp [captures, hf]

theorem declaredType_eq_last (segs : List Seg) (name : Str) : declaredType segs name =
    ((captures segs).filter (fun c => c.1 = name)).getLast?.map Prod.snd := by
  have h := foldl_declared segs name none
  rwa [Option.or_none] at h

theorem declaredType_eq {segs : List Seg} {field : Str} {ty : TypeName}
    (hseg : .capture field ty ∈ segs) (hone : (captureNames segs).count field = 1) :
    declaredType segs field = some ty := by
  rw [← captures_names] at hone
  rw [declaredType_eq_last, filter_eq_singleton (mem_captures.mpr hseg) hone]
  rfl

/-- Every typed capture yields its typed value: the value of a field that is
captured once, and that no coercion or redaction names, is the variant of its
declared type with the value of its text. -/
theorem capture_typed {fmt : CompiledFormat} {line : Str} {record : Record}
    (hparse : parse C fmt line = .ok (some record)) {field : Str} {ty : TypeName}
    (hseg : .capture field ty ∈ fmt.segments) (hone : (captureNames fmt.segments).count field = 1)
    (hcoerce : ∀ c ∈ fmt.coercions, c.1 ≠ field) (hredact : ∀ r ∈ fmt.redactions, r.1 ≠ field) :
    ∃ (raw : RawMatch) (i : Nat) (text : Str) (v : Value), matchRaw C fmt line = .ok (some raw) ∧
      raw.fields[i]? = some ⟨field, text⟩ ∧ typedValue C ty text = some v ∧
      record.fields[i]? = some ⟨field, v⟩ ∧ scalarType v = some ty ∧
      record.fields.filter (fun tf => tf.name = field) = [⟨field, v⟩] := by
  obtain ⟨raw, hraw⟩ : ∃ raw, matchRaw C fmt line = .ok (some raw) := by
    rw [parse] at hparse
    obtain ⟨_ | raw, hraw, h⟩ := bind_eq_ok.mp hparse
    · cases h
    · exact ⟨raw, hraw⟩
  obtain ⟨hnames, hgreatest⟩ := matchRaw_eq_some hraw
  obtain ⟨hlen, hget⟩ := buildRecord_get (buildRecord_of_parse hraw hparse)
  obtain ⟨i, hi⟩ := List.mem_iff_getElem?.mp (mem_captures.mpr hseg)
  -- the field at that position has the name of the capture and a text of its type
  obtain ⟨f, hf, hname⟩ : ∃ f, raw.fields[i]? = some f ∧ f.name = field := by
    have h := congrArg (·[i]?) hnames
    simp only [← captures_names, List.getElem?_map, hi, Option.map_some] at h
    exact Option.map_eq_some_iff.mp h
  have haccepts : Accepts C ty f.value :=
    accepts_of_fits hgreatest.1 hi (by rw [List.getElem?_map, hf, Option.map_some])
  have hvalue := typedValue_of_accepts haccepts
  obtain ⟨tf, tf', htf, -, -, htf', hname', hval⟩ := hget i f hf
  -- no redaction reaches the field
  have hmode : modeAt fmt.redactions (raw.fields.map RawField.name) i f.name = none := by
    rw [modeAt, hname, lastMode_eq_none.mpr hredact, ite_self]
  simp only [hmode] at hval
  -- no coercion does, and the map of declared types has its type
  have hfind : fmt.coercions.find? (fun c => c.1 = f.name) = none := by
    rw [List.find?_eq_none]
    intro c hc
    simpa [hname] using hcoerce c hc
  have htyped : tf = ⟨f.name, coerceScalar C ty f.value⟩ := by
    rw [typedFields, List.getElem?_map, hf, Option.map_some, coerceField, hfind, hname,
      declaredType_eq hseg hone] at htf
    exact (Option.some.inj htf).symm.trans (by rw [hname]; rfl)
  have htf'' : tf' = ⟨field, coerceScalar C ty f.value⟩ := by
    rw [htyped] at hname' hval
    cases tf'
    exact (TypedField.mk.injEq ..).mpr ⟨hname'.trans hname, hval⟩
  rw [htf''] at htf'
  refine ⟨raw, i, f.value, coerceScalar C ty f.value, hraw, ?_, hvalue, htf',
    scalarType_typedValue hvalue, ?_⟩
  · rw [hf, ← hname]
  · have hcount : (record.fields.map TypedField.name).count field = 1 := by
      rw [(buildRecord_names (buildRecord_of_parse hraw hparse)).2, hnames, hone]
    exact filter_eq_singleton (List.mem_of_getElem? htf') hcount

def loginRecord : Record :=
  ⟨"Login".toList, [⟨"user".toList, .ownedString "***ce".toList⟩, ⟨"port".toList, .uint 22⟩]⟩

theorem capture_typed_port :
    ∃ (raw : RawMatch) (i : Nat) (text : Str) (v : Value),
      matchRaw noTimestamps login "alice 22".toList = .ok (some raw) ∧
      raw.fields[i]? = some ⟨"port".toList, text⟩ ∧ typedValue noTimestamps .uint text = some v ∧
      loginRecord.fields[i]? = some ⟨"port".toList, v⟩ ∧ scalarType v = some .uint ∧
      loginRecord.fields.filter (fun tf => tf.name = "port".toList) = [⟨"port".toList, v⟩] := by
  have hparse : parse noTimestamps login "alice 22".toList = .ok (some loginRecord) := by
    decide +kernel
  have hseg : Seg.capture "port".toList .uint ∈ login.segments := by decide
  exact capture_typed hparse hseg (by decide) (by decide) (by decide)

end Captures

section Enum

def named (variants : List Str) (raw : Str) : Option Nat :=
  variants.findIdx? (fun v => lowercase v = lowercase raw)

/-- The index that a text stands for: its number if there are that many
variants, and else the first variant of that name. -/
def enumIndex (variants : List Str) (raw : Str) : Option Nat :=
  ((parseUnsigned 10 (2 ^ 64) raw).filter (· < variants.length)).or (named variants raw)

theorem coerceEnum_eq (variants : List Str) (raw : Str) : coerceEnum variants raw =
    ((enumIndex variants raw).map (fun n => .enum (UInt8.ofNat n))).getD (.str raw) := by
  rw [coerceEnum, enumIndex, named]
  cases (parseUnsigned 10 (2 ^ 64) raw).filter (· < variants.length) with
  | some n => rfl
  | none =>
    cases variants.findIdx? (fun v => lowercase v = lowercase raw) with
    | some n => rfl
    | none => rfl

/-- The value names the right variant: an index is that of a variant, given by
its number or as the first of its name, and a number of a variant or a name of
one becomes an index. -/
def RightVariant (variants : List Str) (raw : Str) (value : Value) : Prop :=
  (∀ k, value = .enum k → k.toNat < variants.length ∧
    (parseUnsigned 10 (2 ^ 64) raw = some k.toNat ∨ named variants raw = some k.toNat)) ∧
  ((∃ n, parseUnsigned 10 (2 ^ 64) raw = some n ∧ n < variants.length) ∨
      (∃ v ∈ variants, lowercase v = lowercase raw) →
    ∃ k, value = .enum k)

theorem enumIndex_cases {variants : List Str} {raw : Str} {n : Nat}
    (h : enumIndex variants raw = some n) : n < variants.length ∧
      (parseUnsigned 10 (2 ^ 64) raw = some n ∨
        (∀ m, parseUnsigned 10 (2 ^ 64) raw = some m → variants.length ≤ m) ∧
          named variants raw = some n) := by
  rw [enumIndex, Option.or_eq_some_iff] at h
  obtain h | ⟨hnone, h⟩ := h
  · obtain ⟨hn, hlt⟩ := Option.filter_eq_some_iff.mp h
    exact ⟨of_decide_eq_true hlt, Or.inl hn⟩
  · refine ⟨?_, Or.inr ⟨fun m hm => ?_, h⟩⟩
    · obtain ⟨hlt, -⟩ := List.findIdx?_eq_some_iff_getElem.mp h
      exact hlt
    · have hle := Option.filter_eq_none_iff.mp hnone m hm
      simpa using hle

theorem enumIndex_eq_none {variants : List Str} {raw : Str}
    (h : enumIndex variants raw = none) :
    ¬ ((∃ n, parseUnsigned 10 (2 ^ 64) raw = some n ∧ n < variants.length) ∨
      ∃ v ∈ variants, lowercase v = lowercase raw) := by
  rw [enumIndex, Option.or_eq_none_iff] at h
  obtain ⟨hnum, hname⟩ := h
  rintro (⟨n, hn, hlt⟩ | ⟨v, hv, he⟩)
  · have hle := Option.filter_eq_none_iff.mp hnum n hn
    simp only [decide_eq_true_eq] at hle
    exact hle hlt
  · have hne := List.findIdx?_eq_none_iff.mp hname v hv
    simp only [decide_eq_false_iff_not] at hne
    exact hne he

/-- A coercion to an enumeration names the right variant exactly if the index is
below 256, which is what a byte holds, or the variant at the wrapped index
happens to have the number for its name. -/
theorem rightVariant_iff {fmt : CompiledFormat} {name field : Str} {variants : List Str}
    (hfind : fmt.coercions.find? (fun c => c.1 = name) = some (field, .enum variants))
    (declared : TypeName) (raw : Str) :
    RightVariant variants raw (coerceField C fmt name declared raw) ↔
      ∀ n, enumIndex variants raw = some n → n < 256 ∨ named variants raw = some (n % 256) := by
  rw [coerceField, hfind]
  simp only [coerceEnum_eq]
  cases h : enumIndex variants raw with
  | none =>
    refine iff_of_true ⟨fun k hk => ?_, fun hex => absurd hex (enumIndex_eq_none h)⟩ fun n hn => ?_
    · cases hk
    · cases hn
  | some n =>
    obtain ⟨hlen, hn⟩ := enumIndex_cases h
    have hwrap : (UInt8.ofNat n).toNat = n % 256 := UInt8.toNat_ofNat'
    have hmod : n % 256 ≤ n := Nat.mod_le n 256
    constructor
    · rintro ⟨hright, -⟩ m hm
      cases hm
      obtain ⟨-, hk⟩ := hright _ rfl
      rw [hwrap] at hk
      obtain hk | hk := hk
      · refine Or.inl ?_
        obtain hn | ⟨hn, -⟩ := hn
        · have heq : n = n % 256 := Option.some.inj (hn.symm.trans hk)
          rw [heq]
          exact Nat.mod_lt n (by decide)
        · have hle := hn _ hk
          omega
      · exact Or.inr hk
    · intro hcond
      refine ⟨fun k hk => ?_, fun _ => ⟨_, rfl⟩⟩
      cases hk
      rw [hwrap]
      refine ⟨Nat.lt_of_le_of_lt hmod hlen, ?_⟩
      obtain hlt | hk := hcond n rfl
      · rw [Nat.mod_eq_of_lt hlt]
        exact hn.imp_right And.right
      · exact Or.inr hk

def severity : CompiledFormat :=
  ⟨"Severity".toList, [.capture "level".toList .string],
    [("level".toList, .enum ["EMERGENCY".toList, "ALERT".toList, "CRITICAL".toList])], []⟩

theorem rightVariant_alert :
    RightVariant ["EMERGENCY".toList, "ALERT".toList, "CRITICAL".toList] "alert".toList
      (coerceField noTimestamps severity "level".toList .string "alert".toList) := by
  have hfind : severity.coercions.find? (fun c => c.1 = "level".toList) = some ("level".toList,
      .enum ["EMERGENCY".toList, "ALERT".toList, "CRITICAL".toList]) := by decide
  refine (rightVariant_iff hfind .string "alert".toList).mpr fun n hn => Or.inl ?_
  have hindex : enumIndex ["EMERGENCY".toList, "ALERT".toList, "CRITICAL".toList]
      "alert".toList = some 1 := by decide +kernel
  cases hindex.symm.trans hn
  decide

def manyVariants : List Str := (List.range 257).map (fun i => 'v' :: decimal i)

def codes : CompiledFormat :=
  ⟨"Codes".toList, [.capture "code".toList .string], [("code".toList, .enum manyVariants)], []⟩

/-- The index 256 wraps to that of the first variant. -/
theorem enum_wraps :
    ¬ RightVariant manyVariants "256".toList
        (coerceField noTimestamps codes "code".toList .string "256".toList) ∧
      ¬ RightVariant manyVariants "v256".toList
        (coerceField noTimestamps codes "code".toList .string "v256".toList) := by
  constructor
  · have hvalue : coerceField noTimestamps codes "code".toList .string "256".toList = .enum 0 := by
      decide +kernel
    rintro ⟨hright, -⟩
    exact absurd (hright 0 hvalue) (by decide +kernel)
  · have hvalue : coerceField noTimestamps codes "code".toList .string "v256".toList = .enum 0 := by
      decide +kernel
    rintro ⟨hright, -⟩
    exact absurd (hright 0 hvalue) (by decide +kernel)

end Enum

end TptTelemetry.Compiler.Coercion
