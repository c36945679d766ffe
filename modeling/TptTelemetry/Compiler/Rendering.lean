import Mathlib.Data.List.Nodup
import TptTelemetry.Compiler.Boundaries
import TptTelemetry.Compiler.Coercion
import TptTelemetry.Lib.Delimited
import TptTelemetry.Otlp.Mac

namespace TptTelemetry.Compiler.Rendering

open TptTelemetry.Lib TptTelemetry.Lib.Text TptTelemetry.Lib.Numeral TptTelemetry.Lib.Pattern
open TptTelemetry.Lib.Delimited TptTelemetry.Dsl.Ast TptTelemetry.Compiler.Scalar
open TptTelemetry.Compiler.Compile TptTelemetry.Compiler.Matcher TptTelemetry.Compiler.Search
open TptTelemetry.Compiler.Exact TptTelemetry.Compiler.Typed TptTelemetry.Compiler.Redaction
open TptTelemetry.Compiler.Coercion TptTelemetry.Compiler.Boundaries TptTelemetry.Otlp.Model
open TptTelemetry.Otlp.Mac

variable {C : Chrono}

section Texts

def rawOf (fmt : CompiledFormat) (ts : List Str) : RawMatch :=
  ⟨fmt.name, List.zipWith RawField.mk (captureNames fmt.segments) ts⟩

variable {fmt : CompiledFormat} {sep : Char → Bool} {ts : List Str} {line : Str}

theorem matchRaw_rendered (hclosed : Closed sep (parts C fmt.segments)) (hfree : Free sep ts)
    (hfits : Fits (parts C fmt.segments) ts line) (hascii : Ascii line) :
    matchRaw C fmt line = .ok (some (rawOf fmt ts)) := by
  obtain ⟨hs, -, -⟩ | ⟨-, hm, -⟩ | ⟨-, us, hus, -, hr⟩ := match_cases C fmt line MatchCtx.new
  · exact absurd (safe_of_ascii hascii) hs
  · exact absurd ⟨ts, hfits⟩ hm
  · rw [hr, fits_unique hclosed hfree hfits hus.1]
    rfl

theorem guarded_of_ascii {masked : Str → Prop} {segs : List Seg} {s : Str} (hs : Ascii s) :
    Guarded C masked segs s := by
  induction segs generalizing s with
  | nil => trivial
  | cons seg segs ih =>
    cases seg with
    | literal l =>
      rintro s' rfl
      exact ih (ascii_append.mp hs).2
    | capture field ty => exact Or.inl hs

theorem parse_of_matchRaw {raw : RawMatch} {record : Record}
    (hraw : matchRaw C fmt line = .ok (some raw)) (hbuild : buildRecord C fmt raw = .ok record) :
    parse C fmt line = .ok (some record) := by
  rw [parse, hraw]
  simp only [bind, Except.bind, hbuild]

theorem parse_rendered (hclosed : Closed sep (parts C fmt.segments)) (hfree : Free sep ts)
    (hfits : Fits (parts C fmt.segments) ts line) (hascii : Ascii line) :
    ∃ record, buildRecord C fmt (rawOf fmt ts) = .ok record ∧
      parse C fmt line = .ok (some record) := by
  have hg : Greatest (parts C fmt.segments) ts line :=
    ⟨hfits, fun us hus => Or.inl (fits_unique hclosed hfree hfits hus)⟩
  obtain ⟨record, hrecord⟩ :=
    (buildRecord_ok_iff (safe_of_ascii hascii) hg).mpr (guarded_of_ascii hascii)
  exact ⟨record, hrecord,
    parse_of_matchRaw (matchRaw_rendered hclosed hfree hfits hascii) hrecord⟩

end Texts

section Headers

def header (fmt : CompiledFormat) : Option Str :=
  match fmt.segments with
  | .literal l :: _ => some l
  | _ => none

/-- Both formats have a header, and neither header begins with the other. -/
def Apart (f g : CompiledFormat) : Prop :=
  ∃ l m, header f = some l ∧ header g = some m ∧ ¬ l <+: m ∧ ¬ m <+: l

theorem segments_of_header {fmt : CompiledFormat} {l : Str} (h : header fmt = some l) :
    ∃ segs, fmt.segments = .literal l :: segs := by
  rw [header] at h
  split at h
  · next segs hsegs =>
    cases h
    exact ⟨segs, hsegs⟩
  · cases h

theorem parse_apart {f g : CompiledFormat} {ts : List Str} {line : Str} (h : Apart f g)
    (hfits : Fits (parts C g.segments) ts line) : parse C f line = .ok none := by
  obtain ⟨l, m, hl, hm, hlm, hml⟩ := h
  obtain ⟨fs, hf⟩ := segments_of_header hl
  obtain ⟨gs, hg⟩ := segments_of_header hm
  rw [hg] at hfits
  obtain ⟨s, rfl, -⟩ := fits_lit.mp hfits
  have hnot : ∀ s', m ++ s ≠ l ++ s' := fun s' hs =>
    (List.prefix_or_prefix_of_prefix ⟨s', hs.symm⟩ ⟨s, rfl⟩).elim hlm hml
  have hsafe : Safe C f.segments (m ++ s) := by
    rw [hf]
    exact fun s' hs => absurd hs (hnot s')
  have hmatch : ¬ Matches (parts C f.segments) (m ++ s) := by
    rw [hf]
    intro hm
    obtain ⟨s', hs, -⟩ := matches_lit.mp hm
    exact hnot s' hs
  obtain ⟨hs, -⟩ | ⟨-, -, -, hr⟩ | ⟨-, us, hus, -⟩ := match_cases C f (m ++ s) MatchCtx.new
  · exact absurd hsafe hs
  · rw [parse, hr]
    rfl
  · exact absurd ⟨us, hus.1⟩ hmatch

theorem parseFormats_rendered {formats : List CompiledFormat} {fmt : CompiledFormat}
    {ts : List Str} {line : Str} {record : Record} (happart : formats.Pairwise Apart)
    (hmem : fmt ∈ formats) (hfits : Fits (parts C fmt.segments) ts line)
    (hparse : parse C fmt line = .ok (some record)) :
    parseFormats C line formats = .ok (some record) := by
  induction formats with
  | nil => cases hmem
  | cons f formats ih =>
    obtain ⟨hfirst, happart⟩ := List.pairwise_cons.mp happart
    rw [parseFormats]
    obtain rfl | hmem := List.mem_cons.mp hmem
    · rw [hparse]
      rfl
    · rw [parse_apart (hfirst fmt hmem) hfits]
      exact ih happart hmem

end Headers

section Values

/-- The text that a value of a scalar type is written as. A value of any type may
also be given as another text that the type's own parser takes for it, as floats,
timestamps and IPv6 addresses are. -/
inductive Scalar (C : Chrono) : TypeName → Value → Str → Prop
  | string (s : Str) : Scalar C .string (.str s) s
  | int (n : Int64) : Scalar C .int (.int n) (signed n.toInt)
  | uint (n : UInt64) : Scalar C .uint (.uint n) (decimal n.toNat)
  | yes : Scalar C .bool (.bool true) "true".toList
  | no : Scalar C .bool (.bool false) "false".toList
  | ipv4 (addr : Net.Ipv4Addr) : Scalar C .ipv4 (.ipv4 addr) addr.display
  | mac (m : MacAddr) : Scalar C .mac (.mac m) (fmtMac m)
  | parsed {ty : TypeName} {v : Value} {t : Str} (hne : t ≠ []) (h : typedValue C ty t = some v) :
    Scalar C ty v t

variable {ty : TypeName} {v : Value} {t : Str}

theorem Scalar.typed (h : Scalar C ty v t) : typedValue C ty t = some v := by
  cases h with
  | string s => rfl
  | int n =>
    have hle : -((2 ^ 63 : Nat) : Int) ≤ n.toInt := n.le_toInt
    have hlt : n.toInt < ((2 ^ 63 : Nat) : Int) := n.toInt_lt
    rw [typedValue, parseInt, parseSigned_signed hle hlt, Option.map_some, Int64.ofInt_toInt]
    rfl
  | uint n =>
    rw [typedValue, parseUint, parseUnsigned_decimal n.toNat_lt, Option.map_some,
      UInt64.ofNat_toNat]
    rfl
  | yes => rfl
  | no => rfl
  | ipv4 addr => rw [typedValue, Net.parseIpv4_display, Option.map_some]
  | mac m => rw [typedValue, parseMac_iff.mpr (loose_of_grammar (grammar_fmtMac m)), Option.map_some]
  | parsed _ h => exact h

theorem Scalar.ne_nil (h : Scalar C ty v t) (hty : ty ≠ .string) : t ≠ [] := by
  intro hnil
  have htyped := h.typed
  rw [hnil] at htyped
  cases h with
  | string s => exact hty rfl
  | parsed hne _ => exact hne hnil
  | int n | uint n | yes | no | ipv4 addr | mac m =>
    cases htyped.symm.trans (typedValue_nil nofun hty)

theorem Scalar.accepts (h : Scalar C ty v t) : Accepts C ty t := by
  by_cases ht : t = []
  · by_cases hty : ty = .string
    · rw [ht, hty]
      exact accepts_nil.mpr rfl
    · exact absurd ht (h.ne_nil hty)
  · exact Or.inl (typeMatches_iff.mpr ⟨ht, by rw [h.typed]; rfl⟩)

/-- The text that the value of a captured field is written as: the text of a
scalar, or the name of a variant where the field is coerced to an enumeration. -/
inductive Writes (C : Chrono) (fmt : CompiledFormat) (c : Str × TypeName) : Value → Str → Prop
  | scalar {v : Value} {t : Str} (hplain : fmt.coercions.find? (fun k => k.1 = c.1) = none)
    (h : Scalar C c.2 v t) : Writes C fmt c v t
  | variant {field t : Str} {variants : List Str} {k : Nat}
    (henum : fmt.coercions.find? (fun k => k.1 = c.1) = some (field, .enum variants))
    (hstring : c.2 = .string) (hget : variants[k]? = some t) (hsmall : k < 256)
    (hfirst : ∀ j u, j < k → variants[j]? = some u → lowercase u ≠ lowercase t)
    (hnumber : (parseUnsigned 10 (2 ^ 64) t).filter (· < variants.length) = none) :
    Writes C fmt c (.enum (UInt8.ofNat k)) t

variable {fmt : CompiledFormat} {c : Str × TypeName}

theorem Writes.accepts (h : Writes C fmt c v t) : Accepts C c.2 t := by
  cases h with
  | scalar hplain h => exact h.accepts
  | variant henum hstring hget hsmall hfirst hnumber =>
    rw [hstring]
    by_cases ht : t = []
    · exact Or.inr ⟨ht, rfl⟩
    · exact Or.inl (by simp [typeMatches, ht])

/-- One value for every capture, with its text. -/
def Row (C : Chrono) (fmt : CompiledFormat) (row : List (Value × Str)) : Prop :=
  List.Forall₂ (fun c vt => Writes C fmt c vt.1 vt.2) (captures fmt.segments) row

variable {row : List (Value × Str)}

theorem Row.fits (h : Row C fmt row) : Fits (parts C fmt.segments) (row.map Prod.snd)
    (render (parts C fmt.segments) (row.map Prod.snd)) := by
  refine ⟨?_, rfl⟩
  rw [holes_parts, List.forall₂_map_left_iff, List.forall₂_map_right_iff]
  exact h.imp fun _ _ hw => hw.accepts

end Values

/-- A line is parsed by the format that it is made of, whatever the other formats
are, if their headers tell them apart. Coercion and redaction see exactly the
texts that it is made of. -/
theorem parseLine_rendered {cs : CompiledSchema} {fmt : CompiledFormat} {sep : Char → Bool}
    {ts : List Str} {line : Str} (happart : cs.formats.Pairwise Apart) (hmem : fmt ∈ cs.formats)
    (hclosed : Closed sep (parts C fmt.segments)) (hfree : Free sep ts)
    (hfits : Fits (parts C fmt.segments) ts line) (hascii : Ascii line) :
    ∃ record, buildRecord C fmt (rawOf fmt ts) = .ok record ∧
      parseLine C cs line = .ok (some record) := by
  obtain ⟨record, hbuild, hparse⟩ := parse_rendered hclosed hfree hfits hascii
  exact ⟨record, hbuild, parseFormats_rendered happart hmem hfits hparse⟩

/-- The format `LEVEL %{n:int} %{level:string}` with
`coerce level to enum { LOW, HIGH }`. -/
def level : CompiledFormat :=
  ⟨"Level".toList, [.literal "LEVEL ".toList, .capture "n".toList .int, .literal [' '],
    .capture "level".toList .string], [("level".toList, .enum ["LOW".toList, "HIGH".toList])], []⟩

end TptTelemetry.Compiler.Rendering
