import TptTelemetry.Inference.Provider
import TptTelemetry.Lib.TextLines

namespace TptTelemetry.Inference.Prompt

open TptTelemetry.Lib TptTelemetry.Lib.Text TptTelemetry.Lib.TextLines
open TptTelemetry.Inference.Provider

def systemPrompt : Str :=
  ("You are a log-format analysis assistant. Given raw log line samples, you produce a " ++
    ".tpt-log schema that parses them.\n\nRules:\n" ++
    "- Emit ONLY a `.tpt-log` schema: one or more `format NAME \x7b ... \x7d` blocks.\n" ++
    "- Use native captures `%\x7bfield:type\x7d` where type is one of: int, uint, float, " ++
    "bool, string, ip, ipv4, ipv6, mac, timestamp.\n" ++
    "- Use Grok captures `%\x7bPATTERN:field\x7d` (e.g. %\x7bIP:client\x7d) when a standard Grok " ++
    "pattern fits.\n" ++
    "- Add `coerce field to enum \x7b ... \x7d` for categorical fields, and " ++
    "`redact field with mask` for PII (emails, IPs, credit cards).\n" ++
    "- Do NOT wrap the schema in markdown code fences. Output the raw schema text only.\n\n" ++
    "Example output:\nformat CiscoASA \x7b\n" ++
    "  pattern: \"%ASA-%\x7bseverity:int\x7d-%\x7bmsg_id:int\x7d: %\x7bmessage:string\x7d\";\n" ++
    "  coerce severity to enum \x7b EMERGENCY, ALERT, CRITICAL, ERROR, WARNING, NOTICE, INFO, " ++
    "DEBUG \x7d;\n\x7d").toList

def userMessage (samples : List Str) (context : Str) : Str :=
  if context = [] then buildUserPrompt samples
  else buildUserPrompt samples ++ '\n' :: context

section Fences

def fence : Str := ['`', '`', '`']

def stripCodeFences (text : Str) : Str :=
  let trimmed := trim isWhitespace text
  match (stripPrefix fence trimmed).bind (stripSuffix fence) with
  | some stripped =>
    let first := trim isWhitespace ((lines stripped).headD [])
    if first ≠ [] ∧ first.head? ≠ some '{' then
      -- the first line is the language tag
      trim isWhitespace (['\n'].intercalate (lines stripped).tail)
    else trim isWhitespace stripped
  | none => trimmed

/-- A reply gives a text, as it is or in a code fence. With a language tag the
lines must not end in carriage returns, for these are lost. -/
inductive Gives (t : Str) : Str → Prop
  | bare {reply : Str} (h : trim isWhitespace reply = t) (hf : ¬ fence <+: t) : Gives t reply
  | fenced {reply tag body : Str}
      (h : trim isWhitespace reply = fence ++ (tag ++ '\n' :: body ++ fence)) (htag : '\n' ∉ tag)
      (hbody : trim isWhitespace body = t)
      (hname : trim isWhitespace tag = [] ∨
        (trim isWhitespace tag).head? ≠ some '{' ∧ ¬ ['\r', '\n'] <:+: body) : Gives t reply

variable {t reply : Str}

theorem isWhitespace_break : ∀ c ∈ ['\n'], isWhitespace c = true := by simp [isWhitespace]

theorem trim_stripCr (l : Str) : trim isWhitespace (stripCr l) = trim isWhitespace l := by
  rw [stripCr]
  split
  · next h =>
    obtain ⟨front, rfl⟩ := List.getLast?_eq_some_iff.mp h
    have hcr : ∀ c ∈ ['\r'], isWhitespace c = true := by simp [isWhitespace]
    rw [trim_append_blank hcr, List.dropLast_concat]
  · rfl

theorem trim_intercalate_lines {s : Str} (h : ¬ ['\r', '\n'] <:+: s) :
    trim isWhitespace (['\n'].intercalate (lines s)) = trim isWhitespace s := by
  obtain hall | hall := intercalate_lines h
  · rw [hall]
  · calc trim isWhitespace (['\n'].intercalate (lines s))
        = trim isWhitespace (['\n'].intercalate (lines s) ++ ['\n']) :=
          (trim_append_blank isWhitespace_break _).symm
      _ = trim isWhitespace s := by rw [hall]

theorem stripCodeFences_gives (h : Gives t reply) : stripCodeFences reply = t := by
  cases h with
  | bare h hf =>
    rw [stripCodeFences, h, stripPrefix, if_neg hf]
    rfl
  | @fenced tag body h htag hbody hname =>
    rw [stripCodeFences, h, stripPrefix_append, Option.bind_some, stripSuffix_append]
    dsimp only
    rw [lines_append htag, List.headD_cons, List.tail_cons, trim_stripCr]
    split
    · next hfirst =>
      obtain hblank | ⟨-, hcrlf⟩ := hname
      · exact absurd hblank hfirst.1
      · rw [trim_intercalate_lines hcrlf, hbody]
    · next hfirst =>
      have hblank : ∀ c ∈ tag ++ ['\n'], isWhitespace c = true := by
        have htrim : trim isWhitespace tag = [] := by
          by_contra hne
          exact hfirst ⟨hne, (hname.resolve_left hne).1⟩
        intro c hc
        obtain hc | hc := List.mem_append.mp hc
        · exact trim_eq_nil_iff.mp htrim c hc
        · exact isWhitespace_break c hc
      have hsplit : tag ++ '\n' :: body = (tag ++ ['\n']) ++ body := by simp
      rw [hsplit, trim_blank_append hblank, hbody]

end Fences

end TptTelemetry.Inference.Prompt
