import TptTelemetry.GrokEngine.Tokenizer
import Mathlib.Data.List.Nodup

namespace TptTelemetry.GrokEngine.Expansion

open TptTelemetry.Lib TptTelemetry.Lib.Text
open TptTelemetry.GrokEngine.Compile TptTelemetry.GrokEngine.Tokenizer

/-- The state of an expansion is the stack of the names that are being
expanded, the last one first. There is no outcome when the fuel is spent. -/
abbrev Run := List Str → Option (Except CompileError Str × List Str)

def expandTokens (expand : Str → Run) (out : Str) : List Token → Run
  | [], stack => some (.ok out, stack)
  | .literal s :: tokens, stack => expandTokens expand (out ++ s) tokens stack
  | .capture sub _ _ :: tokens, stack =>
    match expand sub stack with
    | some (.ok re, stack) => expandTokens expand (out ++ nonCapturing re) tokens stack
    | fails => fails

def runRef (lookup : Str → Option Str) : Nat → Str → Run
  | 0, _, _ => none
  | fuel + 1, name, stack =>
    if name ∈ stack then some (.error (.cycle name), stack)
    else if maxDepth ≤ stack.length then some (.error (.tooDeep name), stack)
    else
      match lookup name with
      | none => some (.error (.unknownPattern name), name :: stack)
      | some regex =>
        match tokenize regex with
        | .error e => some (.error e, name :: stack)
        | .ok tokens =>
          match expandTokens (runRef lookup fuel) [] tokens (name :: stack) with
          | some (.ok out, stack) => some (.ok out, stack.tail)
          | fails => fails

def compileTokens (escape : Str → Str) (expand : Str → Run) (out : Str) :
    List Token → List Str → Option (Except CompileError Str)
  | [], _ => some (.ok out)
  | .literal s :: tokens, stack => compileTokens escape expand (out ++ escape s) tokens stack
  | .capture name field _ :: tokens, stack =>
    match expand name stack with
    | none => none
    | some (.error e, _) => some (.error e)
    | some (.ok sub, stack) =>
      match field with
      | some f =>
        if isValidGroupName f then
          compileTokens escape expand (out ++ capturing f sub) tokens stack
        else some (.error (.invalidGroupName f))
      | none => compileTokens escape expand (out ++ nonCapturing sub) tokens stack

def runCompile (escape : Str → Str) (fuel : Nat) (pattern : Str) :
    Option (Except CompileError Str) :=
  match tokenize pattern with
  | .error e => some (.error e)
  | .ok tokens => compileTokens escape (runRef Dsl.Patterns.lookup fuel) [] tokens []

section Runs

variable {lookup : Str → Option Str}

def tokenText (g : Str → Except CompileError Str) : Token → Except CompileError Str
  | .literal s => .ok s
  | .capture sub _ _ => (g sub).map nonCapturing

def Returns (run : Run) (stack : List Str) (out : Except CompileError Str) : Prop :=
  ∃ stack', run stack = some (out, stack') ∧ ∀ body, out = .ok body → stack' = stack

theorem expandRef_cycle {room : Nat} {stack : List Str} {name : Str} (h : name ∈ stack) :
    expandRef lookup room stack name = .error (.cycle name) := by
  rw [expandRef.eq_def, if_pos h]

theorem expandRef_tooDeep {stack : List Str} {name : Str} (h : name ∉ stack) :
    expandRef lookup 0 stack name = .error (.tooDeep name) := by
  rw [expandRef.eq_def, if_neg h]

theorem expandRef_unknown {room : Nat} {stack : List Str} {name : Str} (h : name ∉ stack)
    (hl : lookup name = none) :
    expandRef lookup (room + 1) stack name = .error (.unknownPattern name) := by
  rw [expandRef.eq_def, if_neg h]
  simp only [hl]

theorem expandRef_error {room : Nat} {stack : List Str} {name regex : Str} {e : CompileError}
    (h : name ∉ stack) (hl : lookup name = some regex) (ht : tokenize regex = .error e) :
    expandRef lookup (room + 1) stack name = .error e := by
  rw [expandRef.eq_def, if_neg h]
  simp only [hl, ht]
  rfl

theorem expandRef_tokens {room : Nat} {stack : List Str} {name regex : Str} {tokens : List Token}
    (h : name ∉ stack) (hl : lookup name = some regex) (ht : tokenize regex = .ok tokens) :
    expandRef lookup (room + 1) stack name =
      (tokens.mapM (tokenText (expandRef lookup room (name :: stack)))).map List.flatten := by
  rw [expandRef.eq_def, if_neg h]
  simp only [hl, ht]
  have hfun : tokenText (expandRef lookup room (name :: stack)) = fun
      | .literal s => .ok s
      | .capture sub _ _ => (expandRef lookup room (name :: stack) sub).map nonCapturing := by
    funext tok
    cases tok <;> rfl
  rw [hfun]
  rfl

theorem mapM_flatten {f : Token → Except CompileError Str} {tok : Token} {tokens : List Token}
    {text out : Str} (h : f tok = .ok text) :
    ((tok :: tokens).mapM f).map (fun parts => out ++ parts.flatten) =
      (tokens.mapM f).map (fun parts => out ++ text ++ parts.flatten) := by
  rw [List.mapM_cons, h]
  cases tokens.mapM f with
  | error e => rfl
  | ok parts => exact congrArg Except.ok (List.append_assoc _ _ _).symm

theorem expandTokens_returns {expand : Str → Run} {stack : List Str}
    {g : Str → Except CompileError Str} (hexpand : ∀ sub, Returns (expand sub) stack (g sub))
    (tokens : List Token) (out : Str) :
    Returns (expandTokens expand out tokens) stack
      ((tokens.mapM (tokenText g)).map (fun parts => out ++ parts.flatten)) := by
  induction tokens generalizing out with
  | nil => exact ⟨stack, congrArg (fun s => some (Except.ok s, stack)) (List.append_nil out).symm,
      fun _ _ => rfl⟩
  | cons tok tokens ih =>
    cases tok with
    | literal s =>
      rw [mapM_flatten rfl]
      obtain ⟨stack', hrun, hstack⟩ := ih (out ++ s)
      exact ⟨stack', by rw [expandTokens, hrun], hstack⟩
    | capture sub field ty =>
      obtain ⟨stack', hsub, hrestored⟩ := hexpand sub
      cases hg : g sub with
      | error e =>
        rw [hg] at hsub
        refine ⟨stack', ?_, ?_⟩
        · rw [expandTokens, hsub, List.mapM_cons, tokenText, hg]
          rfl
        · rw [List.mapM_cons, tokenText, hg]
          intro body hbody
          cases hbody
      | ok re =>
        rw [hg] at hsub
        obtain rfl := hrestored re hg
        have htext : tokenText g (.capture sub field ty) = .ok (nonCapturing re) := by
          rw [tokenText, hg]
          rfl
        rw [mapM_flatten htext]
        obtain ⟨stack'', hrun, hstack⟩ := ih (out ++ nonCapturing re)
        exact ⟨stack'', by rw [expandTokens, hsub]; exact hrun, hstack⟩

/-- The expansion by a run with a stack is the one by recursion alone. -/
theorem runRef_returns {room fuel : Nat} {stack : List Str} (hroom : stack.length + room = maxDepth)
    (hfuel : room < fuel) (name : Str) :
    Returns (runRef lookup fuel name) stack (expandRef lookup room stack name) := by
  induction room generalizing fuel stack name with
  | zero =>
    obtain ⟨fuel, rfl⟩ := Nat.exists_eq_succ_of_ne_zero (Nat.ne_of_gt hfuel)
    rw [Returns, runRef]
    by_cases hmem : name ∈ stack
    · rw [if_pos hmem, expandRef_cycle hmem]
      exact ⟨stack, rfl, fun _ _ => rfl⟩
    · rw [if_neg hmem, if_pos (by omega), expandRef_tooDeep hmem]
      exact ⟨stack, rfl, fun _ _ => rfl⟩
  | succ room ih =>
    obtain ⟨fuel, rfl⟩ := Nat.exists_eq_succ_of_ne_zero (Nat.ne_of_gt (Nat.zero_lt_of_lt hfuel))
    rw [Returns, runRef]
    by_cases hmem : name ∈ stack
    · rw [if_pos hmem, expandRef_cycle hmem]
      exact ⟨stack, rfl, fun _ _ => rfl⟩
    rw [if_neg hmem, if_neg (by omega)]
    cases hl : lookup name with
    | none =>
      rw [expandRef_unknown hmem hl]
      exact ⟨name :: stack, rfl, fun body h => by cases h⟩
    | some regex =>
      cases ht : tokenize regex with
      | error e =>
        rw [expandRef_error hmem hl ht]
        exact ⟨name :: stack, by simp only [ht], fun body h => by cases h⟩
      | ok tokens =>
        rw [expandRef_tokens hmem hl ht]
        have hlen : (name :: stack).length + room = maxDepth := by
          rw [List.length_cons]
          omega
        obtain ⟨stack', hrun, hstack⟩ := expandTokens_returns
          (fun sub => ih hlen (Nat.lt_of_succ_lt_succ hfuel) sub) tokens []
        simp only [List.nil_append] at hrun hstack
        simp only [ht, hrun]
        cases hparts : tokens.mapM (tokenText (expandRef lookup room (name :: stack))) with
        | error e => exact ⟨stack', rfl, fun body h => by cases h⟩
        | ok parts =>
          rw [hparts] at hstack
          exact ⟨stack'.tail, rfl, fun body _ => by rw [hstack parts.flatten rfl, List.tail_cons]⟩

theorem runRef_empty {fuel : Nat} (hfuel : maxDepth < fuel) (name : Str) :
    Returns (runRef lookup fuel name) [] (expandRef lookup maxDepth [] name) :=
  runRef_returns (Nat.zero_add maxDepth) hfuel name

end Runs

section Chains

variable (lookup : Str → Option Str)

def Known (name : Str) : Prop := ∃ regex tokens, lookup name = some regex ∧ tokenize regex = .ok tokens

def Refers (name sub : Str) : Prop :=
  ∃ regex tokens field ty, lookup name = some regex ∧ tokenize regex = .ok tokens ∧
    .capture sub field ty ∈ tokens

def Chain (name : Str) (c : List Str) : Prop := c.head? = some name ∧ c.IsChain (Refers lookup)

/-- Every chain of references from the name is over known names, repeats none
of its names or of the stack, and finds room. -/
def Fits (room : Nat) (stack : List Str) (name : Str) : Prop :=
  ∀ c, Chain lookup name c →
    c.Nodup ∧ c.Disjoint stack ∧ c.length ≤ room ∧ ∀ n ∈ c, Known lookup n

variable {lookup}

theorem chain_singleton (name : Str) : Chain lookup name [name] := ⟨rfl, .singleton name⟩

theorem chain_cons {name sub : Str} {c : List Str} (h : Refers lookup name sub)
    (hc : Chain lookup sub c) : Chain lookup name (name :: c) := by
  obtain ⟨hhead, hchain⟩ := hc
  cases c with
  | nil => cases hhead
  | cons n c =>
    cases hhead
    exact ⟨rfl, .cons_cons h hchain⟩

theorem chain_cases {name : Str} {c : List Str} (h : Chain lookup name c) :
    c = [name] ∨ ∃ sub c', c = name :: c' ∧ Refers lookup name sub ∧ Chain lookup sub c' := by
  obtain ⟨hhead, hchain⟩ := h
  cases hchain with
  | nil => cases hhead
  | singleton n =>
    cases hhead
    exact Or.inl rfl
  | @cons_cons n sub c hr hrest =>
    cases hhead
    exact Or.inr ⟨sub, sub :: c, rfl, hr, rfl, hrest⟩

theorem not_fits_zero {stack : List Str} {name : Str} : ¬ Fits lookup 0 stack name := by
  intro h
  obtain ⟨-, -, hlen, -⟩ := h _ (chain_singleton name)
  cases hlen

theorem fits_succ {room : Nat} {stack : List Str} {name : Str} :
    Fits lookup (room + 1) stack name ↔ name ∉ stack ∧ Known lookup name ∧
      ∀ sub, Refers lookup name sub → Fits lookup room (name :: stack) sub := by
  constructor
  · intro h
    obtain ⟨-, hstack, -, hknown⟩ := h _ (chain_singleton name)
    refine ⟨by simpa using hstack, hknown name (by simp), fun sub hsub c hc => ?_⟩
    obtain ⟨hnodup, hdisj, hlen, hall⟩ := h _ (chain_cons hsub hc)
    obtain ⟨hname, hnodup⟩ := List.nodup_cons.mp hnodup
    refine ⟨hnodup, ?_, by simpa using hlen, fun n hn => hall n (by simp [hn])⟩
    intro n hn hn'
    obtain rfl | hn' := List.mem_cons.mp hn'
    · exact hname hn
    · exact hdisj (by simp [hn]) hn'
  · rintro ⟨hstack, hknown, hsubs⟩ c hc
    obtain rfl | ⟨sub, c, rfl, hsub, hc⟩ := chain_cases hc
    · exact ⟨by simp, by simpa using hstack, by simp, by simpa using hknown⟩
    · obtain ⟨hnodup, hdisj, hlen, hall⟩ := hsubs sub hsub c hc
      refine ⟨List.nodup_cons.mpr ⟨fun h => hdisj h (by simp), hnodup⟩, ?_, by simpa using hlen,
        List.forall_mem_cons.mpr ⟨hknown, hall⟩⟩
      intro n hn hn'
      obtain rfl | hn := List.mem_cons.mp hn
      · exact hstack hn'
      · exact hdisj hn (by simp [hn'])

theorem tokenText_ok_iff {g : Str → Except CompileError Str} {tok : Token} :
    (∃ text, tokenText g tok = .ok text) ↔
      ∀ sub field ty, tok = .capture sub field ty → ∃ body, g sub = .ok body := by
  cases tok with
  | literal s => exact iff_of_true ⟨s, rfl⟩ (fun _ _ _ h => by cases h)
  | capture name field ty =>
    rw [tokenText]
    constructor
    · rintro ⟨text, htext⟩ sub f t h
      cases h
      cases hg : g name with
      | error e =>
        rw [hg] at htext
        cases htext
      | ok body => exact ⟨body, rfl⟩
    · intro h
      obtain ⟨body, hbody⟩ := h name field ty rfl
      exact ⟨_, by rw [hbody]; rfl⟩

theorem expandRef_ok_succ {room : Nat} {stack : List Str} {name : Str} :
    (∃ body, expandRef lookup (room + 1) stack name = .ok body) ↔
      name ∉ stack ∧ Known lookup name ∧
        ∀ sub, Refers lookup name sub → ∃ body, expandRef lookup room (name :: stack) sub = .ok body := by
  by_cases hmem : name ∈ stack
  · rw [expandRef_cycle hmem]
    exact iff_of_false (fun ⟨_, h⟩ => by cases h) (fun h => h.1 hmem)
  cases hl : lookup name with
  | none =>
    rw [expandRef_unknown hmem hl]
    refine iff_of_false (fun ⟨_, h⟩ => by cases h) ?_
    rintro ⟨-, ⟨regex, tokens, h, -⟩, -⟩
    rw [hl] at h
    cases h
  | some regex =>
    cases ht : tokenize regex with
    | error e =>
      rw [expandRef_error hmem hl ht]
      refine iff_of_false (fun ⟨_, h⟩ => by cases h) ?_
      rintro ⟨-, ⟨regex', tokens, hl', ht'⟩, -⟩
      rw [hl] at hl'
      cases hl'
      rw [ht] at ht'
      cases ht'
    | ok tokens =>
      have hmap : (∃ body, expandRef lookup (room + 1) stack name = .ok body) ↔
          ∃ parts, tokens.mapM (tokenText (expandRef lookup room (name :: stack))) = .ok parts := by
        rw [expandRef_tokens hmem hl ht]
        cases tokens.mapM (tokenText (expandRef lookup room (name :: stack))) <;>
          simp [Except.map]
      rw [hmap, Traverse.mapM_ok_iff]
      simp only [tokenText_ok_iff]
      constructor
      · intro h
        refine ⟨hmem, ⟨regex, tokens, hl, ht⟩, ?_⟩
        rintro sub ⟨regex', tokens', field, ty, hl', ht', hmem'⟩
        rw [hl] at hl'
        cases hl'
        rw [ht] at ht'
        cases ht'
        exact h _ hmem' sub field ty rfl
      · rintro ⟨-, -, h⟩ tok htok sub field ty rfl
        exact h sub ⟨regex, tokens, field, ty, hl, ht, htok⟩

/-- A name is expanded when all chains of references from it fit. -/
theorem expandRef_ok_iff {room : Nat} {stack : List Str} {name : Str} :
    (∃ body, expandRef lookup room stack name = .ok body) ↔ Fits lookup room stack name := by
  induction room generalizing stack name with
  | zero =>
    refine iff_of_false ?_ not_fits_zero
    rintro ⟨body, h⟩
    by_cases hmem : name ∈ stack
    · rw [expandRef_cycle hmem] at h
      cases h
    · rw [expandRef_tooDeep hmem] at h
      cases h
  | succ room ih =>
    rw [expandRef_ok_succ, fits_succ]
    simp only [ih]

end Chains

section Result

variable {lookup : Str → Option Str}

def replaced (body : Str → Str) : Token → Str
  | .literal s => s
  | .capture sub _ _ => nonCapturing (body sub)

/-- The regex of a name with each reference replaced by its expansion, in a
group that captures nothing. -/
inductive Expands (lookup : Str → Option Str) : Str → Str → Prop
  | intro {name regex : Str} {tokens : List Token} (hl : lookup name = some regex)
      (ht : tokenize regex = .ok tokens) (body : Str → Str)
      (h : ∀ sub field ty, .capture sub field ty ∈ tokens → Expands lookup sub (body sub)) :
      Expands lookup name (tokens.flatMap (replaced body))

theorem expandRef_expands {room : Nat} {stack : List Str} {name body : Str}
    (h : expandRef lookup room stack name = .ok body) : Expands lookup name body := by
  induction room generalizing stack name body with
  | zero => exact absurd (expandRef_ok_iff.mp ⟨body, h⟩) not_fits_zero
  | succ room ih =>
    obtain ⟨hmem, ⟨regex, tokens, hl, ht⟩, hsubs⟩ := expandRef_ok_succ.mp ⟨body, h⟩
    let bodies : Str → Str := fun sub =>
      (expandRef lookup room (name :: stack) sub).toOption.getD []
    have hbodies : ∀ sub field ty, .capture sub field ty ∈ tokens →
        expandRef lookup room (name :: stack) sub = .ok (bodies sub) := by
      intro sub field ty htok
      obtain ⟨re, hre⟩ := hsubs sub ⟨regex, tokens, field, ty, hl, ht, htok⟩
      simp only [bodies, hre]
      rfl
    have htext : ∀ tok ∈ tokens,
        tokenText (expandRef lookup room (name :: stack)) tok = .ok (replaced bodies tok) := by
      intro tok htok
      cases tok with
      | literal s => rfl
      | capture sub field ty =>
        rw [tokenText, hbodies sub field ty htok]
        rfl
    have hbody : body = tokens.flatMap (replaced bodies) := by
      rw [expandRef_tokens hmem hl ht, Traverse.mapM_of_ok htext] at h
      exact (Except.ok.inj h).symm.trans List.flatMap_def.symm
    rw [hbody]
    exact .intro hl ht bodies fun sub field ty htok => ih (hbodies sub field ty htok)

/-- Groups keep the texts of the tokens apart, and two literals never meet. -/
theorem closed_flatMap {body : Str → Str} {tokens : List Token}
    (hapart : tokens.IsChain (fun a b => ¬ (isLit a ∧ isLit b)))
    (h : ∀ tok ∈ tokens, ¬ ['%', '{'] <:+: replaced body tok) :
    ¬ ['%', '{'] <:+: tokens.flatMap (replaced body) := by
  induction tokens with
  | nil => simp
  | cons tok tokens ih =>
    obtain ⟨htok, htokens⟩ := List.forall_mem_cons.mp h
    rw [List.flatMap_cons]
    intro hopen
    obtain hopen | hopen | ⟨hlast, hhead⟩ := Template.open_append hopen
    · exact htok hopen
    · exact ih (List.IsChain.of_cons hapart) htokens hopen
    · cases tok with
      | capture sub field ty =>
        rw [replaced, nonCapturing, List.getLast?_concat] at hlast
        cases hlast
      | literal s =>
        cases tokens with
        | nil => cases hhead
        | cons next tokens =>
          cases hapart with
          | cons_cons hnot _ =>
            cases next with
            | literal t => exact hnot ⟨rfl, rfl⟩
            | capture sub field ty => simp [replaced, nonCapturing] at hhead

theorem closed_nonCapturing {body : Str} (h : ¬ ['%', '{'] <:+: body) :
    ¬ ['%', '{'] <:+: nonCapturing body := by
  rw [nonCapturing]
  intro hopen
  obtain hopen | hopen | ⟨-, hhead⟩ := Template.open_append hopen
  · obtain hopen | hopen | ⟨hlast, -⟩ := Template.open_append hopen
    · revert hopen
      decide
    · exact h hopen
    · cases hlast
  · revert hopen
    decide
  · cases hhead

theorem Expands.closed {name body : Str} (h : Expands lookup name body) :
    ¬ ['%', '{'] <:+: body := by
  induction h with
  | @intro name regex tokens hl ht body hsubs ih =>
    have hout := tokenize_outcome regex
    rw [ht] at hout
    cases hout with
    | tokens hlossless =>
      refine closed_flatMap hlossless.apart fun tok htok => ?_
      cases tok with
      | literal s => exact hlossless.closed s htok
      | capture sub field ty => exact closed_nonCapturing (ih sub field ty htok)

theorem tokenText_error {g : Str → Except CompileError Str} {tok : Token} {e : CompileError}
    (h : tokenText g tok = .error e) :
    ∃ sub field ty, tok = .capture sub field ty ∧ g sub = .error e := by
  cases tok with
  | literal s => cases h
  | capture sub field ty =>
    refine ⟨sub, field, ty, rfl, ?_⟩
    rw [tokenText] at h
    cases hg : g sub with
    | error e' =>
      rw [hg] at h
      exact h
    | ok body =>
      rw [hg] at h
      cases h

theorem tokenize_ne_cycle {regex n : Str} : tokenize regex ≠ .error (.cycle n) := by
  intro h
  have hout := tokenize_outcome regex
  rw [h] at hout
  cases hout

/-- A cycle is reported by the call that finds its name on the stack, and
handed on by the calls around it. -/
theorem expandRef_cycle_cases {room : Nat} {stack : List Str} {name n : Str}
    (h : expandRef lookup room stack name = .error (.cycle n)) :
    (name ∈ stack ∧ name = n) ∨ ∃ room' sub, room = room' + 1 ∧ Refers lookup name sub ∧
      expandRef lookup room' (name :: stack) sub = .error (.cycle n) := by
  by_cases hmem : name ∈ stack
  · rw [expandRef_cycle hmem] at h
    exact Or.inl ⟨hmem, GrokError.cycle.inj (Except.error.inj h)⟩
  cases room with
  | zero =>
    rw [expandRef_tooDeep hmem] at h
    cases h
  | succ room =>
    cases hl : lookup name with
    | none =>
      rw [expandRef_unknown hmem hl] at h
      cases h
    | some regex =>
      cases ht : tokenize regex with
      | error e =>
        rw [expandRef_error hmem hl ht] at h
        cases h
        exact absurd ht tokenize_ne_cycle
      | ok tokens =>
        rw [expandRef_tokens hmem hl ht] at h
        cases hparts : tokens.mapM (tokenText (expandRef lookup room (name :: stack))) with
        | ok parts =>
          rw [hparts] at h
          cases h
        | error e =>
          rw [hparts] at h
          obtain rfl : e = .cycle n := Except.error.inj h
          obtain ⟨tok, htok, herr⟩ := mapM_error hparts
          obtain ⟨sub, field, ty, rfl, hsub⟩ := tokenText_error herr
          exact Or.inr ⟨room, sub, rfl, ⟨regex, tokens, field, ty, hl, ht, htok⟩, hsub⟩

theorem expandRef_cycle_error {room : Nat} {stack : List Str} {name n : Str}
    (h : expandRef lookup room stack name = .error (.cycle n)) :
    ∃ c, Chain lookup name c ∧ c.getLast? = some n ∧ (n ∈ stack ∨ n ∈ c.dropLast) := by
  induction room generalizing stack name with
  | zero =>
    obtain ⟨hmem, rfl⟩ | ⟨room, sub, hroom, -⟩ := expandRef_cycle_cases h
    · exact ⟨[name], chain_singleton name, rfl, Or.inl hmem⟩
    · cases hroom
  | succ room ih =>
    obtain ⟨hmem, rfl⟩ | ⟨room', sub, hroom, hrefers, hsub⟩ := expandRef_cycle_cases h
    · exact ⟨[name], chain_singleton name, rfl, Or.inl hmem⟩
    cases hroom
    obtain ⟨c, hc, hlast, hn⟩ := ih hsub
    have hne : c ≠ [] := by
      rintro rfl
      cases hlast
    refine ⟨name :: c, chain_cons hrefers hc, ?_, ?_⟩
    · rw [List.getLast?_cons, hlast]
      rfl
    · rw [List.dropLast_cons_of_ne_nil hne]
      obtain hn | hn := hn
      · obtain rfl | hn := List.mem_cons.mp hn
        · exact Or.inr (by simp)
        · exact Or.inl hn
      · exact Or.inr (by simp [hn])

/-- A name is expanded whatever the table is, with fuel for one more call than
the depth limit has names. The expansion succeeds when all chains of references
from the name are over known names, without a repetition and of at most 64
names. It then leaves the stack as it was, and no reference in its result. A
cycle is reported only where a chain comes back to one of its names. -/
theorem expand_correct (lookup : Str → Option Str) (name : Str) :
    ∃ out, (∀ fuel, maxDepth < fuel → ∃ stack, runRef lookup fuel name [] = some (out, stack) ∧
        ∀ body, out = .ok body → stack = []) ∧
      ((∃ body, out = .ok body) ↔ ∀ c, Chain lookup name c →
        c.Nodup ∧ c.length ≤ 64 ∧ ∀ n ∈ c, Known lookup n) ∧
      (∀ body, out = .ok body → Expands lookup name body ∧ ¬ ['%', '{'] <:+: body) ∧
      (∀ n, out = .error (.cycle n) →
        ∃ c, Chain lookup name c ∧ c.getLast? = some n ∧ n ∈ c.dropLast) := by
  refine ⟨expandRef lookup maxDepth [] name, fun fuel hfuel => runRef_empty hfuel name, ?_, ?_, ?_⟩
  · rw [expandRef_ok_iff, Fits]
    simp only [List.disjoint_nil_right, true_and, maxDepth]
  · intro body hbody
    have hexp := expandRef_expands hbody
    exact ⟨hexp, hexp.closed⟩
  · intro n hn
    obtain ⟨c, hc, hlast, hn | hn⟩ := expandRef_cycle_error hn
    · cases hn
    · exact ⟨c, hc, hlast, hn⟩

end Result

section Patterns

theorem compileTokens_eq (escape : Str → Str) {run : Str → Run}
    (hrun : ∀ name, Returns (run name) [] (expand name)) (tokens : List Token) (out : Str) :
    compileTokens escape run out tokens [] =
      some ((tokens.mapM (compileToken escape)).map (fun parts => out ++ parts.flatten)) := by
  induction tokens generalizing out with
  | nil => exact congrArg (fun s => some (Except.ok s)) (List.append_nil out).symm
  | cons tok tokens ih =>
    cases tok with
    | literal s => rw [mapM_flatten rfl, compileTokens, ih]
    | capture name field ty =>
      obtain ⟨stack, hname, hstack⟩ := hrun name
      cases hsub : expand name with
      | error e =>
        rw [compileTokens, hname, hsub, List.mapM_cons, compileToken, hsub]
        rfl
      | ok sub =>
        obtain rfl := hstack sub hsub
        rw [compileTokens, hname, hsub]
        cases field with
        | none =>
          have htext : compileToken escape (.capture name none ty) = .ok (nonCapturing sub) := by
            rw [compileToken, hsub]
            rfl
          rw [mapM_flatten htext]
          exact ih _
        | some f =>
          by_cases hf : isValidGroupName f
          · have htext : compileToken escape (.capture name (some f) ty) =
                .ok (capturing f sub) := by
              rw [compileToken, hsub]
              exact if_pos hf
            rw [mapM_flatten htext]
            simp only [hf, if_true]
            exact ih _
          · have htext : compileToken escape (.capture name (some f) ty) =
                .error (.invalidGroupName f) := by
              rw [compileToken, hsub]
              exact if_neg hf
            rw [List.mapM_cons, htext]
            simp only [hf]
            rfl

theorem runCompile_eq {fuel : Nat} (hfuel : maxDepth < fuel) (escape : Str → Str) (pattern : Str) :
    runCompile escape fuel pattern = some (compile escape pattern) := by
  rw [runCompile, compile]
  cases tokenize pattern with
  | error e => rfl
  | ok tokens => exact compileTokens_eq escape (fun name => runRef_empty hfuel name) tokens []

end Patterns

end TptTelemetry.GrokEngine.Expansion
