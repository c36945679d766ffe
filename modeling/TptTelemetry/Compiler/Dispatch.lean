import TptTelemetry.Compiler.Boundaries

namespace TptTelemetry.Compiler.Dispatch

open TptTelemetry.Lib TptTelemetry.Lib.Text TptTelemetry.Lib.Pattern TptTelemetry.Dsl.Ast
open TptTelemetry.Compiler.Scalar TptTelemetry.Compiler.Compile TptTelemetry.Compiler.Matcher
open TptTelemetry.Compiler.Search TptTelemetry.Compiler.Exact TptTelemetry.Compiler.Typed
open TptTelemetry.Compiler.Redaction TptTelemetry.Compiler.Boundaries

variable {C : Chrono}

def matchFormats (C : Chrono) (line : Str) :
    List CompiledFormat → MatchCtx → Except Panic (Option RawMatch × MatchCtx)
  | [], ctx => .ok (none, ctx)
  | fmt :: formats, ctx => do
    let (found, ctx) ← matchInto C fmt line ctx.reset
    if found then
      let raw ← ctx.intoRaw line fmt.name fmt.segments
      .ok (some raw, ctx)
    else matchFormats C line formats ctx

def matchLine (C : Chrono) (cs : CompiledSchema) (line : Str) (ctx : MatchCtx) :
    Except Panic (Option RawMatch × MatchCtx) := matchFormats C line cs.formats ctx

def matchesFormats (C : Chrono) (line : Str) :
    List CompiledFormat → MatchCtx → Except Panic (Bool × MatchCtx)
  | [], ctx => .ok (false, ctx)
  | fmt :: formats, ctx => do
    let (found, ctx) ← matchInto C fmt line ctx.reset
    if found then .ok (true, ctx) else matchesFormats C line formats ctx

def matchesLine (C : Chrono) (cs : CompiledSchema) (line : Str) (ctx : MatchCtx) :
    Except Panic (Bool × MatchCtx) := matchesFormats C line cs.formats ctx

/-- The first format, in schema order, whose pattern fits the line. -/
def FirstFit (C : Chrono) (line : Str) (formats : List CompiledFormat) (fmt : CompiledFormat) :
    Prop :=
  ∃ before after, formats = before ++ fmt :: after ∧
    (∀ g ∈ before, ¬ Matches (parts C g.segments) line) ∧ Matches (parts C fmt.segments) line

/-- The three entry points agree: on whether there is a match, which is that
of the first format that fits and does not depend on what the context held,
and on the names of the fields of the record. -/
def Agrees (C : Chrono) (cs : CompiledSchema) (line : Str) (ctx : MatchCtx) : Prop :=
  ((∃ record, parseLine C cs line = .ok (some record)) ↔
    ∃ raw ctx', matchLine C cs line ctx = .ok (some raw, ctx')) ∧
  ((∃ raw ctx', matchLine C cs line ctx = .ok (some raw, ctx')) ↔
    ∃ ctx', matchesLine C cs line ctx = .ok (true, ctx')) ∧
  ∀ raw ctx', matchLine C cs line ctx = .ok (some raw, ctx') →
    (∃ fmt, FirstFit C line cs.formats fmt ∧ raw.format = fmt.name ∧
      matchRaw C fmt line = .ok (some raw)) ∧
    matchLine C cs line MatchCtx.new = .ok (some raw, ctx') ∧
    ∃ record, parseLine C cs line = .ok (some record) ∧ record.format = raw.format ∧
      record.fields.map TypedField.name = raw.fields.map RawField.name

/-- If the search gets to a format that fits, its first capture is guarded. -/
def MaskSafe (C : Chrono) (line : Str) : List CompiledFormat → Prop
  | [] => True
  | fmt :: formats =>
    Safe C fmt.segments line →
      (Matches (parts C fmt.segments) line → Guarded C (Masked fmt) fmt.segments line) ∧
      (¬ Matches (parts C fmt.segments) line → MaskSafe C line formats)

/-- What a format makes of a line on its own, in each of the three ways. -/
inductive Tried (C : Chrono) (fmt : CompiledFormat) (line : Str) (ctx : MatchCtx) : Prop
  | panics (hs : ¬ Safe C fmt.segments line) (hp : parse C fmt line = .error .strIndex)
      (hi : matchInto C fmt line ctx = .error .strIndex)
  | misses (hs : Safe C fmt.segments line) (hm : ¬ Matches (parts C fmt.segments) line)
      (hp : parse C fmt line = .ok none) (hi : matchInto C fmt line ctx = .ok (false, ⟨[]⟩))
  | fits (raw : RawMatch) (ctx' : MatchCtx) (hs : Safe C fmt.segments line)
      (hm : Matches (parts C fmt.segments) line) (hn : raw.format = fmt.name)
      (hr : matchRaw C fmt line = .ok (some raw)) (hi : matchInto C fmt line ctx = .ok (true, ctx'))
      (hraw : ctx'.intoRaw line fmt.name fmt.segments = .ok raw)
      (hp : (¬ Guarded C (Masked fmt) fmt.segments line ∧ ∃ e, parse C fmt line = .error e) ∨
        (Guarded C (Masked fmt) fmt.segments line ∧ ∃ record,
          parse C fmt line = .ok (some record) ∧ record.format = raw.format ∧
            record.fields.map TypedField.name = raw.fields.map RawField.name))

theorem tried (C : Chrono) (fmt : CompiledFormat) (line : Str) (ctx : MatchCtx) :
    Tried C fmt line ctx := by
  obtain ⟨hs, hi, hr⟩ | ⟨hs, hm, hi, hr⟩ | ⟨hs, ts, hts, hi, hr⟩ := match_cases C fmt line ctx
  · apply Tried.panics hs _ hi
    rw [parse, hr]
    rfl
  · apply Tried.misses hs hm _ hi
    rw [parse, hr]
    rfl
  · have hraw : (MatchCtx.mk (spans fmt.segments 0 0 ts)).intoRaw line fmt.name fmt.segments =
        .ok ⟨fmt.name, List.zipWith RawField.mk (captureNames fmt.segments) ts⟩ := by
      have h := rawFields_spans hts.1 [] []
      simp only [List.nil_append, List.length_nil, byteLen_nil] at h
      simp only [MatchCtx.intoRaw, h, bind, Except.bind]
    refine Tried.fits _ _ hs ⟨ts, hts.1⟩ rfl hr hi hraw ?_
    obtain ⟨hg, hp⟩ | ⟨-, hn, -⟩ | ⟨hg, -, record, hp⟩ := parse_cases C fmt line
    · exact Or.inl ⟨hg, hp⟩
    · exact absurd ⟨ts, hts.1⟩ hn
    · exact Or.inr ⟨hg, record, hp, buildRecord_names (buildRecord_of_parse hr hp)⟩

/-- What the three loops do with a line: all panic in the search, all find
nothing, or both matching loops stop at the first format that fits, and
parsing panics unless its first capture is guarded. -/
inductive Dispatched (C : Chrono) (line : Str) (formats : List CompiledFormat) (ctx : MatchCtx) :
    Prop
  | panics (hk : MaskSafe C line formats) (hp : parseFormats C line formats = .error .strIndex)
      (hl : matchFormats C line formats ctx = .error .strIndex)
      (hm : matchesFormats C line formats ctx = .error .strIndex)
  | misses (ctx' : MatchCtx) (hk : MaskSafe C line formats)
      (hp : parseFormats C line formats = .ok none)
      (hl : matchFormats C line formats ctx = .ok (none, ctx'))
      (hm : matchesFormats C line formats ctx = .ok (false, ctx'))
  | fits (fmt : CompiledFormat) (raw : RawMatch) (ctx' : MatchCtx)
      (hf : FirstFit C line formats fmt) (hn : raw.format = fmt.name)
      (hr : matchRaw C fmt line = .ok (some raw))
      (hl : ∀ ctx, matchFormats C line formats ctx = .ok (some raw, ctx'))
      (hm : matchesFormats C line formats ctx = .ok (true, ctx'))
      (hp : (¬ MaskSafe C line formats ∧ ∃ e, parseFormats C line formats = .error e) ∨
        (MaskSafe C line formats ∧ ∃ record, parseFormats C line formats = .ok (some record) ∧
          record.format = raw.format ∧
          record.fields.map TypedField.name = raw.fields.map RawField.name))

section Loops

variable {line : Str} {fmt : CompiledFormat} {formats : List CompiledFormat}

theorem matchFormats_cons (ctx : MatchCtx) : matchFormats C line (fmt :: formats) ctx = (do
    let (found, ctx) ← matchInto C fmt line ⟨[]⟩
    if found then
      let raw ← ctx.intoRaw line fmt.name fmt.segments
      .ok (some raw, ctx)
    else matchFormats C line formats ctx) := rfl

theorem matchesFormats_cons (ctx : MatchCtx) : matchesFormats C line (fmt :: formats) ctx = (do
    let (found, ctx) ← matchInto C fmt line ⟨[]⟩
    if found then .ok (true, ctx) else matchesFormats C line formats ctx) := rfl

theorem Dispatched.skip {ctx : MatchCtx} (hs : Safe C fmt.segments line)
    (hn : ¬ Matches (parts C fmt.segments) line) (hp : parse C fmt line = .ok none)
    (hi : matchInto C fmt line ⟨[]⟩ = .ok (false, ⟨[]⟩)) (h : Dispatched C line formats ⟨[]⟩) :
    Dispatched C line (fmt :: formats) ctx := by
  have hp' : parseFormats C line (fmt :: formats) = parseFormats C line formats := by
    rw [parseFormats, hp]
    rfl
  have hl' : ∀ ctx, matchFormats C line (fmt :: formats) ctx = matchFormats C line formats ⟨[]⟩ := by
    intro ctx
    rw [matchFormats_cons, hi]
    rfl
  have hm' : matchesFormats C line (fmt :: formats) ctx = matchesFormats C line formats ⟨[]⟩ := by
    rw [matchesFormats_cons, hi]
    rfl
  have hk : MaskSafe C line (fmt :: formats) ↔ MaskSafe C line formats :=
    ⟨fun h => (h hs).2 hn, fun h _ => ⟨fun hy => absurd hy hn, fun _ => h⟩⟩
  cases h with
  | panics hk' hp₁ hl₁ hm₁ =>
    exact Dispatched.panics (hk.mpr hk') (hp'.trans hp₁) ((hl' ctx).trans hl₁) (hm'.trans hm₁)
  | misses ctx' hk' hp₁ hl₁ hm₁ =>
    exact Dispatched.misses ctx' (hk.mpr hk') (hp'.trans hp₁) ((hl' ctx).trans hl₁)
      (hm'.trans hm₁)
  | fits fmt' raw ctx' hf hn' hr hl₁ hm₁ hp₁ =>
    obtain ⟨before, after, rfl, hbefore, hfit⟩ := hf
    apply Dispatched.fits fmt' raw ctx' _ hn' hr _ (hm'.trans hm₁)
    · rwa [hk, hp']
    · refine ⟨fmt :: before, after, rfl, ?_, hfit⟩
      intro g hg
      obtain rfl | hg := List.mem_cons.mp hg
      · exact hn
      · exact hbefore g hg
    · intro ctx
      rw [hl', hl₁]

end Loops

theorem dispatched (C : Chrono) (line : Str) (formats : List CompiledFormat) (ctx : MatchCtx) :
    Dispatched C line formats ctx := by
  induction formats generalizing ctx with
  | nil => exact Dispatched.misses ctx trivial rfl rfl rfl
  | cons fmt formats ih =>
    cases tried C fmt line ⟨[]⟩ with
    | panics hs hp hi =>
      apply Dispatched.panics
      · exact fun h => absurd h hs
      · rw [parseFormats, hp]
        rfl
      · rw [matchFormats_cons, hi]
        rfl
      · rw [matchesFormats_cons, hi]
        rfl
    | misses hs hn hp hi => exact Dispatched.skip hs hn hp hi (ih ⟨[]⟩)
    | fits raw ctx' hs hy hn hr hi hraw hp =>
      have hk : MaskSafe C line (fmt :: formats) ↔ Guarded C (Masked fmt) fmt.segments line :=
        ⟨fun h => (h hs).1 hy, fun h _ => ⟨fun _ => h, fun hn => absurd hy hn⟩⟩
      refine Dispatched.fits fmt raw ctx' ⟨[], formats, rfl, by simp, hy⟩ hn hr ?_ ?_ ?_
      · intro ctx
        rw [matchFormats_cons, hi]
        simp only [bind, Except.bind, if_true, hraw]
      · rw [matchesFormats_cons, hi]
        rfl
      · obtain ⟨hg, e, hp⟩ | ⟨hg, record, hp, hrec⟩ := hp
        · refine Or.inl ⟨fun h => hg (hk.mp h), e, ?_⟩
          rw [parseFormats, hp]
          rfl
        · refine Or.inr ⟨hk.mpr hg, record, ?_, hrec⟩
          rw [parseFormats, hp]
          rfl

/-- The three entry points agree, whatever the context holds, exactly when no
mask panics on the match that the two matching ones return. -/
theorem agrees_iff (C : Chrono) (cs : CompiledSchema) (line : Str) (ctx : MatchCtx) :
    Agrees C cs line ctx ↔ MaskSafe C line cs.formats := by
  cases dispatched C line cs.formats ctx with
  | panics hk hp hl hm =>
    refine ⟨fun _ => hk, fun _ => ?_⟩
    simp [Agrees, parseLine, matchLine, matchesLine, hp, hl, hm]
  | misses ctx' hk hp hl hm =>
    refine ⟨fun _ => hk, fun _ => ?_⟩
    simp [Agrees, parseLine, matchLine, matchesLine, hp, hl, hm]
  | fits fmt raw ctx' hf hn hr hl hm hp =>
    obtain ⟨hk, e, hp⟩ | ⟨hk, record, hp, hrec⟩ := hp
    · refine ⟨fun h => ?_, fun h => absurd h hk⟩
      obtain ⟨record, hrec⟩ := h.1.mpr ⟨raw, ctx', hl ctx⟩
      rw [parseLine, hp] at hrec
      cases hrec
    · refine ⟨fun _ => hk, fun _ => ⟨?_, ?_, ?_⟩⟩
      · exact ⟨fun _ => ⟨raw, ctx', hl ctx⟩, fun _ => ⟨record, hp⟩⟩
      · exact ⟨fun _ => ⟨ctx', hm⟩, fun _ => ⟨raw, ctx', hl ctx⟩⟩
      · intro raw₁ ctx₁ h₁
        cases (hl ctx).symm.trans h₁
        exact ⟨⟨fmt, hf, hn, hr⟩, hl MatchCtx.new, record, hp, hrec⟩

/-- The schema `format User { pattern: "%{u:string}"; redact u with mask; }`,
compiled. -/
def userSchema : CompiledSchema :=
  ⟨[⟨"User".toList, [.capture "u".toList .string], [], [("u".toList, .mask)]⟩]⟩

/-- On a line of one three-byte character the match is found, and parsing
panics in the mask. -/
theorem dispatch_disagrees : ¬ Agrees noTimestamps userSchema "€".toList MatchCtx.new := by
  have hl : matchLine noTimestamps userSchema "€".toList MatchCtx.new =
      .ok (some ⟨"User".toList, [⟨"u".toList, "€".toList⟩]⟩, ⟨[⟨0, 0, 3⟩]⟩) := by decide +kernel
  have hp : parseLine noTimestamps userSchema "€".toList = .error .strIndex := by decide +kernel
  intro h
  obtain ⟨record, hrec⟩ := h.1.mpr ⟨_, _, hl⟩
  rw [hp] at hrec
  cases hrec

end TptTelemetry.Compiler.Dispatch
