import TptTelemetry.Dsl.Reading

namespace TptTelemetry.Dsl.RoundTrip

open TptTelemetry.Lib TptTelemetry.Lib.Text TptTelemetry.Lib.Peg
open TptTelemetry.Dsl.Ast TptTelemetry.Dsl.Grammar TptTelemetry.Dsl.Parser TptTelemetry.Dsl.Print
open TptTelemetry.Dsl.Reading

section Building

theorem unquote_stringPair (s : Str) : unquote (stringPair s) = s := by
  simp [unquote, stringPair, quoted]

def add (b : Block) : Stmt → Block
  | .pattern p => { b with pattern := some p }
  | .extract e => { b with extracts := b.extracts ++ [e], seenFields := e.field :: b.seenFields }
  | .coerce c => { b with coercions := b.coercions ++ [c], seenFields := c.field :: b.seenFields }
  | .redact r => { b with redactions := b.redactions ++ [r] }

def fields : Stmt → List Str
  | .pattern _ => []
  | .extract e => [e.field]
  | .coerce c => [c.field]
  | .redact _ => []

theorem seenFields_add (b : Block) (i : Stmt) :
    (add b i).seenFields = fields i ++ b.seenFields := by
  cases i <;> rfl

theorem checkField_new {seen : List Str} {field : Str} (h : field ∉ seen) (fmt : Str) :
    checkField seen field fmt = .ok (field :: seen) := if_neg h

theorem parseExtract_pair (e : Extract) : parseExtract (extractPair e) = .ok e := by
  simp only [parseExtract, extractPair, unquote_stringPair, identPair]

theorem parseCoerce_pair (c : Coercion) : parseCoerce (coercePair c) = .ok c := by
  obtain ⟨field, target⟩ := c
  cases target with
  | type t =>
    simp only [parseCoerce, coercePair, targetPair, typePair, identPair, if_true,
      parseType_typeWord]
    rfl
  | enum variants =>
    have hvariants : (variants.map identPair).map Pair.str = variants := by
      simp [List.map_map, Function.comp_def, identPair]
    simp [parseCoerce, coercePair, targetPair, enumPair, hvariants]
    rfl

theorem parseRedact_pair (r : Redaction) : parseRedact (redactPair r) = .ok r := by
  obtain ⟨field, mode⟩ := r
  cases mode <;> rfl

theorem parseItem_pair {b : Block} {i : Stmt} (h : i.Printable)
    (hnew : ∀ f ∈ fields i, f ∉ b.seenFields) : parseItem b i.pair = .ok (add b i) := by
  cases i with
  | pattern p =>
    have hp := tokenizePattern_patternText h.1 h.2
    simp only [Stmt.pair, patternPair, parseItem, unquote_stringPair, hp]
    rfl
  | extract e =>
    have hc := checkField_new (hnew e.field (by simp [fields])) b.label
    change (parseExtract (extractPair e) >>= _) = _
    rw [parseExtract_pair]
    change (checkField b.seenFields e.field b.label >>= _) = _
    rw [hc]
    rfl
  | coerce c =>
    have hc := checkField_new (hnew c.field (by simp [fields])) b.label
    change (parseCoerce (coercePair c) >>= _) = _
    rw [parseCoerce_pair]
    change (checkField b.seenFields c.field b.label >>= _) = _
    rw [hc]
    rfl
  | redact r =>
    change (parseRedact (redactPair r) >>= _) = _
    rw [parseRedact_pair]
    rfl

theorem parseItems_pairs {is : List Stmt} (h : ∀ i ∈ is, i.Printable) {b : Block}
    (hnew : (is.flatMap fields).Nodup)
    (hseen : ∀ f ∈ is.flatMap fields, f ∉ b.seenFields) :
    (is.map Stmt.pair).foldlM parseItem b = .ok (is.foldl add b) := by
  induction is generalizing b with
  | nil => rfl
  | cons i is ih =>
    rw [List.flatMap_cons] at hnew hseen
    obtain ⟨-, hrest, hdisjoint⟩ := List.nodup_append.mp hnew
    have hi := parseItem_pair (h i (by simp)) (fun f hf => hseen f (by simp [hf]))
    have hseen' : ∀ f ∈ is.flatMap fields, f ∉ (add b i).seenFields := by
      intro f hf hmem
      rw [seenFields_add] at hmem
      obtain hmem | hmem := List.mem_append.mp hmem
      · exact hdisjoint f hmem f hf rfl
      · exact hseen f (List.mem_append_right _ hf) hmem
    rw [List.map_cons, List.foldlM_cons, hi]
    exact ih (fun j hj => h j (by simp [hj])) hrest hseen'

theorem foldl_extracts (es : List Extract) (b : Block) : (es.map Stmt.extract).foldl add b =
    { b with
      extracts := b.extracts ++ es
      seenFields := (es.map Extract.field).reverse ++ b.seenFields } := by
  induction es generalizing b with
  | nil => simp
  | cons e es ih => simp [ih, add]

theorem foldl_coercions (cs : List Coercion) (b : Block) : (cs.map Stmt.coerce).foldl add b =
    { b with
      coercions := b.coercions ++ cs
      seenFields := (cs.map Coercion.field).reverse ++ b.seenFields } := by
  induction cs generalizing b with
  | nil => simp
  | cons c cs ih => simp [ih, add]

theorem foldl_redactions (rs : List Redaction) (b : Block) : (rs.map Stmt.redact).foldl add b =
    { b with redactions := b.redactions ++ rs } := by
  induction rs generalizing b with
  | nil => simp
  | cons r rs ih => simp [ih, add]

theorem fields_statements (f : Format) : (statements f).flatMap fields =
    f.extracts.map Extract.field ++ f.coercions.map Coercion.field := by
  have hextracts : (f.extracts.map Stmt.extract).flatMap fields =
      f.extracts.map Extract.field := by
    rw [List.flatMap_map, List.map_eq_flatMap]
    rfl
  have hcoercions : (f.coercions.map Stmt.coerce).flatMap fields =
      f.coercions.map Coercion.field := by
    rw [List.flatMap_map, List.map_eq_flatMap]
    rfl
  have hredactions : (f.redactions.map Stmt.redact).flatMap fields = [] := by
    simp [List.flatMap_map, fields]
  rw [statements, List.flatMap_cons, List.flatMap_append, List.flatMap_append, hextracts,
    hcoercions, hredactions, List.append_nil]
  rfl

theorem parseItems_format {f : Format} (h : NormalFormat f)
    (hr : ∀ c ∈ f.coercions, Readable c.target) :
    ∃ seen, (formatPair f).inner.foldlM parseItem Block.new =
      .ok ⟨some f.name, some f.pattern, f.extracts, f.coercions, f.redactions, seen⟩ := by
  have hitems := parseItems_pairs (printable_statements h hr)
    (b := { Block.new with name := some f.name }) (by rw [fields_statements]; exact h.distinct)
    (by simp [Block.new])
  rw [statements, List.foldl_cons, List.foldl_append, List.foldl_append, foldl_extracts,
    foldl_coercions, foldl_redactions] at hitems
  simp only [add, Block.new, List.nil_append] at hitems
  exact ⟨_, hitems⟩

theorem parseBlock_formatPair {formats : List Format} {f : Format} (h : NormalFormat f)
    (hr : ∀ c ∈ f.coercions, Readable c.target) (hnew : f.name ∉ formats.map Format.name) :
    parseBlock formats (formatPair f) = .ok (formats ++ [f]) := by
  obtain ⟨seen, hitems⟩ := parseItems_format h hr
  change ((formatPair f).inner.foldlM parseItem Block.new >>= _) = _
  rw [hitems]
  exact if_neg hnew

theorem parseBlocks_formats {fs formats : List Format} (h : ∀ f ∈ fs, NormalFormat f)
    (hr : ∀ f ∈ fs, ∀ c ∈ f.coercions, Readable c.target)
    (hnew : ((formats ++ fs).map Format.name).Nodup) :
    (fs.map formatPair ++ [eoiPair]).foldlM parseBlock formats = .ok (formats ++ fs) := by
  induction fs generalizing formats with
  | nil =>
    rw [List.append_nil]
    rfl
  | cons f fs ih =>
    rw [← List.singleton_append, ← List.append_assoc] at hnew
    have hf : f.name ∉ formats.map Format.name := by
      intro hmem
      rw [List.map_append, List.map_append] at hnew
      have hpair := (List.nodup_append.mp (List.nodup_append.mp hnew).1).2.2
      exact hpair f.name hmem f.name (by simp) rfl
    have hblock := parseBlock_formatPair (h f (by simp)) (hr f (by simp)) hf
    rw [List.map_cons, List.cons_append, List.foldlM_cons, hblock]
    have hrest := ih (fun g hg => h g (by simp [hg])) (fun g hg => hr g (by simp [hg])) hnew
    rw [List.append_assoc] at hrest
    exact hrest

theorem parse_print {schema : Schema} (h : NormalSchema schema)
    (hr : ∀ f ∈ schema.formats, ∀ c ∈ f.coercions, Readable c.target) (pestError : Str → Str) :
    parse pestError (print schema) = .ok schema := by
  obtain ⟨text, hpairs⟩ := schema_print h hr
  have hdistinct : (([] ++ schema.formats).map Format.name).Nodup := h.distinct
  have hblocks := parseBlocks_formats h.formats hr hdistinct
  simp only [parse, hpairs, List.flatMap_cons, List.flatMap_nil, List.append_nil, hblocks]
  rfl

end Building

section Reach

/-- The words that `type_name` matches. It never gets to `ipv4` and `ipv6`, whose
first letters are the word `ip`. -/
def shortTypes : List Str :=
  ["int", "uint", "float", "bool", "string", "ip", "mac", "timestamp"].map String.toList

theorem typeName_text {s t : Str} {x : List (Pair Rule)} (h : typeName s = some (x, t)) :
    ∃ w ∈ shortTypes, s = w ++ t := by
  obtain ⟨y, hy, -⟩ := rule_eq_some.mp h
  simp only [alts, List.foldr_cons, List.foldr_nil, alt_eq_some] at hy
  obtain hy | ⟨-, hy | ⟨-, hy | ⟨-, hy | ⟨-, hy | ⟨-, hy | ⟨hip, hy⟩⟩⟩⟩⟩⟩ := hy
  case inr.inr.inr.inr.inr.inr =>
    obtain hy | ⟨-, hy | ⟨-, hy | ⟨-, hy | ⟨-, hy⟩⟩⟩⟩ := hy
    · cases lit_eq_some hy
      cases hip
    · cases lit_eq_some hy
      cases hip
    · exact ⟨_, by decide, lit_eq_some hy⟩
    · exact ⟨_, by decide, lit_eq_some hy⟩
    · cases hy
  all_goals exact ⟨_, by decide, lit_eq_some hy⟩

def ShortType (m : Pair Rule) : Prop := m.rule = .typeName → m.str ∈ shortTypes

theorem produces_typeName : Produces typeName ShortType := by
  intro s x t h m hm
  obtain ⟨w, hw, rfl⟩ := typeName_text h
  obtain ⟨y, -, rfl⟩ := rule_eq_some.mp h
  cases List.mem_singleton.mp hm
  intro _
  change (w ++ t).take _ ∈ shortTypes
  rwa [take_length_sub]

theorem produces_comment {Q : Pair Rule → Prop} : Produces comment Q :=
  (produces_lit _).seq ((produces_notP _).seq (produces_satisfy _)).star

theorem produces_skip {Q : Pair Rule → Prop} : Produces skip Q := by
  have hw : Produces whitespace Q := by
    apply Produces.alts
    simp only [List.mem_cons, List.not_mem_nil, or_false, forall_eq_or_imp, forall_eq]
    exact ⟨produces_lit _, produces_lit _, produces_lit _, produces_lit _, produces_comment⟩
  exact hw.star.seq (produces_comment.seq hw.star).star

theorem produces_ident : Produces ident (fun m => m.rule = .ident ∧ ∀ i ∈ m.inner, False) := by
  have hchar : ∀ f : Char → Bool, Produces (alt (satisfy f) (word "_")) (fun _ => False) :=
    fun f => (produces_satisfy f).alt (produces_lit _)
  exact produces_rule ((hchar _).seq (hchar _).star)

theorem produces_coerceTarget : Produces coerceTarget (fun m => ∀ i ∈ m.inner, ShortType i) := by
  have henum : Produces enumDecl ShortType := by
    refine (produces_rule (produces_true _)).mono ?_
    rintro m ⟨hm, -⟩ h
    rw [hm] at h
    cases h
  have hbody : Produces (alts [enumDecl, typeName]) ShortType := by
    apply Produces.alts
    simp only [List.mem_cons, List.not_mem_nil, or_false, forall_eq_or_imp, forall_eq]
    exact ⟨henum, produces_typeName⟩
  exact (produces_rule hbody).mono (fun m hm => hm.2)

def ShortCoerce (m : Pair Rule) : Prop :=
  m.rule = .coerceDecl → ∀ i ∈ m.inner, ∀ j ∈ i.inner, ShortType j

theorem produces_coerceDecl : Produces coerceDecl ShortCoerce := by
  have hbody : Produces (chain skip [word "coerce", ident, word "to", coerceTarget, word ";"])
      (fun m => ∀ i ∈ m.inner, ShortType i) := by
    refine Produces.chain produces_skip ?_
    simp only [List.mem_cons, List.not_mem_nil, or_false, forall_eq_or_imp, forall_eq]
    refine ⟨produces_lit _, ?_, produces_lit _, produces_coerceTarget, produces_lit _⟩
    exact produces_ident.mono (fun m hm i hi => (hm.2 i hi).elim)
  exact (produces_rule hbody).mono (fun m hm _ => hm.2)

theorem produces_other {r : Rule} (hr : r ≠ .coerceDecl) (p : Parser Rule) :
    Produces (rule r p) ShortCoerce := by
  refine (produces_rule (produces_true p)).mono ?_
  rintro m ⟨rfl, -⟩ h
  exact absurd h hr

theorem produces_formatBlock : Produces formatBlock (fun m => ∀ i ∈ m.inner, ShortCoerce i) := by
  have hstmt : Produces stmt ShortCoerce := by
    apply Produces.alts
    simp only [List.mem_cons, List.not_mem_nil, or_false, forall_eq_or_imp, forall_eq]
    exact ⟨produces_other (by decide) _, produces_other (by decide) _, produces_coerceDecl,
      produces_other (by decide) _⟩
  have hbody : Produces (chain skip [word "format", ident, word "\x7b", repeats skip stmt,
      word "\x7d"]) ShortCoerce := by
    refine Produces.chain produces_skip ?_
    simp only [List.mem_cons, List.not_mem_nil, or_false, forall_eq_or_imp, forall_eq]
    exact ⟨produces_lit _, produces_other (by decide) _, produces_lit _,
      hstmt.repeats produces_skip, produces_lit _⟩
  exact (produces_rule hbody).mono (fun m hm => hm.2)

theorem produces_schema :
    Produces Grammar.schema (fun m => ∀ b ∈ m.inner, ∀ i ∈ b.inner, ShortCoerce i) := by
  have hbody : Produces (chain skip [fun s => some ([], s), repeats skip formatBlock, eoi .eoi])
      (fun m => ∀ i ∈ m.inner, ShortCoerce i) := by
    refine Produces.chain produces_skip ?_
    simp only [List.mem_cons, List.not_mem_nil, or_false, forall_eq_or_imp, forall_eq]
    refine ⟨?_, produces_formatBlock.repeats produces_skip, produces_eoi (by simp)⟩
    intro s x t h m hm
    cases h
    cases hm
  exact (produces_rule hbody).mono (fun m hm => hm.2)

theorem parseType_short {s : Str} {t : TypeName} (h : parseType s = .ok t) (hs : s ∈ shortTypes) :
    t ≠ .ipv4 ∧ t ≠ .ipv6 := by
  rw [parseType_eq_ok] at h
  subst h
  constructor
  · rintro rfl
    exact absurd hs (by decide)
  · rintro rfl
    exact absurd hs (by decide)

theorem parseCoerce_readable {m : Pair Rule} {c : Coercion}
    (hm : ∀ i ∈ m.inner, ∀ j ∈ i.inner, ShortType j) (h : parseCoerce m = .ok c) :
    Readable c.target := by
  rw [parseCoerce] at h
  split at h
  · cases h
  · cases h
  · next field target rest hinner =>
    split at h
    · cases h
    · next j js htarget =>
      have hj : ShortType j := hm target (by simp [hinner]) j (by simp [htarget])
      split at h
      · next hrule =>
        obtain ⟨t, ht, hc⟩ := bind_eq_ok.mp h
        cases hc
        have hshort := parseType_short ht (hj hrule)
        exact ⟨fun h => hshort.1 (by cases h; rfl), fun h => hshort.2 (by cases h; rfl)⟩
      · split at h
        · cases h
          exact ⟨nofun, nofun⟩
        · cases h

theorem parseItem_readable {b b' : Block} {m : Pair Rule} (hm : ShortCoerce m)
    (hb : ∀ c ∈ b.coercions, Readable c.target) (h : parseItem b m = .ok b') :
    ∀ c ∈ b'.coercions, Readable c.target := by
  rw [parseItem] at h
  split at h
  · cases h
    exact hb
  · split at h
    · cases h
    · obtain ⟨p, -, h⟩ := bind_eq_ok.mp h
      cases h
      exact hb
  · obtain ⟨e, -, h⟩ := bind_eq_ok.mp h
    obtain ⟨seen, -, h⟩ := bind_eq_ok.mp h
    cases h
    exact hb
  · next hrule =>
    obtain ⟨c, hc, h⟩ := bind_eq_ok.mp h
    obtain ⟨seen, -, h⟩ := bind_eq_ok.mp h
    cases h
    have hread := parseCoerce_readable (hm hrule) hc
    intro d hd
    obtain hd | hd := List.mem_append.mp hd
    · exact hb d hd
    · cases List.mem_singleton.mp hd
      exact hread
  · obtain ⟨r, -, h⟩ := bind_eq_ok.mp h
    cases h
    exact hb
  · cases h
    exact hb

theorem parseBlock_readable {formats formats' : List Format} {m : Pair Rule}
    (hm : ∀ i ∈ m.inner, ShortCoerce i) (hf : ∀ f ∈ formats, ∀ c ∈ f.coercions, Readable c.target)
    (h : parseBlock formats m = .ok formats') :
    ∀ f ∈ formats', ∀ c ∈ f.coercions, Readable c.target := by
  rw [parseBlock] at h
  split at h
  · obtain ⟨b, hb, h⟩ := bind_eq_ok.mp h
    have hread : ∀ c ∈ b.coercions, Readable c.target :=
      foldlM_invariant (fun b i hi b' hb hi' => parseItem_readable (hm i hi) hb hi')
        (by simp [Block.new]) hb
    split at h
    · cases h
    · split at h
      · cases h
      · split at h
        · cases h
        · cases h
          intro f hmem
          obtain hmem | hmem := List.mem_append.mp hmem
          · exact hf f hmem
          · cases List.mem_singleton.mp hmem
            exact hread
  · cases h
    exact hf

/-- No text parses to a coercion to `ipv4` or `ipv6`. -/
theorem readable_of_parse {pestError : Str → Str} {input : Str} {schema : Schema}
    (h : parse pestError input = .ok schema) :
    ∀ f ∈ schema.formats, ∀ c ∈ f.coercions, Readable c.target := by
  rw [parse] at h
  split at h
  · cases h
  · next pairs t hpairs =>
    obtain ⟨formats, hformats, h⟩ := bind_eq_ok.mp h
    cases h
    apply foldlM_invariant (fun fs b hb fs' hfs h => ?_) (by simp) hformats
    obtain ⟨m, hm, hb⟩ := List.mem_flatMap.mp hb
    exact parseBlock_readable (produces_schema hpairs m hm b hb) hfs h

/-- Printing and parsing give the schema back exactly when no field is coerced
to `ipv4` or `ipv6`. -/
theorem parse_print_iff {schema : Schema} (h : NormalSchema schema) (pestError : Str → Str) :
    parse pestError (print schema) = .ok schema ↔
      ∀ f ∈ schema.formats, ∀ c ∈ f.coercions, c.target ≠ .type .ipv4 ∧ c.target ≠ .type .ipv6 :=
  ⟨readable_of_parse, fun hr => parse_print h hr pestError⟩

def connPattern : Pattern :=
  ⟨[.capture ⟨"src".toList, .string, false, none⟩, .literal " ok".toList]⟩

def connSchema (target : CoercionTarget) : Schema :=
  ⟨[⟨"conn".toList, connPattern, [], [⟨"src".toList, target⟩], [⟨"src".toList, .hash⟩]⟩]⟩

theorem normal_connSchema (t : TypeName) : NormalSchema (connSchema (.type t)) where
  distinct := List.pairwise_singleton _ _
  formats := by
    intro f hf
    cases List.mem_singleton.mp hf
    have hident : IsIdent "src".toList := by decide
    have hpieces : Template.Normal (connPattern.parts.map partPiece) := by decide
    have hparts : ∀ part ∈ connPattern.parts, NormalPart part := by
      simp only [connPattern, List.mem_cons, List.not_mem_nil, or_false, forall_eq_or_imp,
        forall_eq]
      exact ⟨.native .string (by decide), (by decide : '"' ∉ " ok".toList)⟩
    exact {
      name := (by decide : IsIdent "conn".toList)
      pieces := hpieces
      parts := hparts
      extracts := by simp
      coercions := by simpa using ⟨hident, trivial⟩
      redactions := by simpa using hident
      distinct := List.pairwise_singleton _ _ }

theorem parse_print_ip : parse id (print (connSchema (.type .ip))) = .ok (connSchema (.type .ip)) :=
  (parse_print_iff (normal_connSchema .ip) id).mpr (by simp [connSchema])

theorem ipv4_not_parsed : NormalSchema (connSchema (.type .ipv4)) ∧
    print (connSchema (.type .ipv4)) =
      ("format conn \x7b pattern : \"%\x7bsrc:string\x7d ok\" ; " ++
        "coerce src to ipv4 ; redact src with hash ; \x7d").toList ∧
    parse id (print (connSchema (.type .ipv4))) =
      .error (.parse (print (connSchema (.type .ipv4)))) :=
  ⟨normal_connSchema .ipv4, by decide +kernel, by decide +kernel⟩

end Reach

end TptTelemetry.Dsl.RoundTrip
