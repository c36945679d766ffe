import TptTelemetry.Compiler.Compile
import TptTelemetry.Dsl.Parser
import TptTelemetry.Lib.Numeral
import TptTelemetry.Lib.TextLines
import TptTelemetry.Lib.Traverse

namespace TptTelemetry.Inference.Provider

open TptTelemetry.Lib.Text TptTelemetry.Lib.Numeral TptTelemetry.Lib.TextLines
open TptTelemetry.Lib.Traverse TptTelemetry.Dsl.Ast

inductive InferenceError
  | http (message : Str)
  | api (body : Str)
  | invalidSchema (message : Str)
  | compile (message : Str)
  | noApiKey (name : Str)
  | json (message : Str)
  | validationFailed (message : Str)
  | other (message : Str)
  deriving DecidableEq, Repr

def InferenceError.display : InferenceError → Str
  | .http message => "http error: ".toList ++ message
  | .api body => "provider api error: ".toList ++ body
  | .invalidSchema message => "invalid schema: ".toList ++ message
  | .compile message => "schema failed to compile: ".toList ++ message
  | .noApiKey name => "missing api key: set the `".toList ++ name ++ "` environment variable".toList
  | .json message => "json error: ".toList ++ message
  | .validationFailed message =>
    "schema inference failed after retries: last error: ".toList ++ message
  | .other message => message

structure AttemptContext where
  attempt : Nat
  error : Str
  schemaText : Str
  deriving DecidableEq, Repr

def sampleText (i : Nat) (s : Str) : Str :=
  "--- sample ".toList ++ decimal (i + 1) ++ " ---\n".toList ++ trimEnd s ++ "\n".toList

def buildUserPrompt (samples : List Str) : Str :=
  "Below are raw log line samples. Infer a .tpt-log schema that matches them.\n\n".toList ++
    (samples.mapIdx sampleText).flatten ++ "\nEmit the .tpt-log schema now:\n".toList

def attemptText (a : AttemptContext) : Str :=
  "- attempt ".toList ++ decimal a.attempt ++ ": ".toList ++ a.error ++
    "\n  schema was:\n".toList ++ a.schemaText ++ "\n".toList

def withFeedback (base : Str) (attempts : List AttemptContext) : Str :=
  if attempts = [] then base
  else
    base ++ "\n\nPrevious attempts failed to compile. Fix the errors:\n".toList ++
      attempts.flatMap attemptText

/-- A provider keeps its own state, and so does what it talks to. -/
structure InferenceProvider (σ : Type) where
  suggest : σ → List Str → Str → Except InferenceError Str × σ

def validate (pestError : Str → Str) (schemaText : Str) : Except InferenceError Schema :=
  match Dsl.Parser.parse pestError schemaText with
  | .error e => .error (.invalidSchema e.display)
  | .ok schema =>
    match Compiler.Compile.compile schema with
    | .error e => .error (.compile e.display)
    | .ok _ => .ok schema

structure Call where
  context : Str
  reply : Except InferenceError Str

structure Run (σ : Type) where
  result : Except InferenceError Str
  calls : List Call
  state : σ

variable {σ : Type}

def inferLoop (pestError : Str → Str) (P : InferenceProvider σ) (samples : List Str)
    (basePrompt : Str) : Nat → Nat → List AttemptContext → Str → σ → Run σ
  | 0, _, _, lastError, st => ⟨.error (.validationFailed lastError), [], st⟩
  | left + 1, attempt, attempts, _, st =>
    let ctx := withFeedback basePrompt attempts
    match P.suggest st samples ctx with
    | (.error e, st) => ⟨.error e, [⟨ctx, .error e⟩], st⟩
    | (.ok text, st) =>
      match validate pestError text with
      | .ok _ => ⟨.ok text, [⟨ctx, .ok text⟩], st⟩
      | .error e =>
        let run := inferLoop pestError P samples basePrompt left (attempt + 1)
          (attempts ++ [⟨attempt, e.display, text⟩]) e.display st
        ⟨run.result, ⟨ctx, .ok text⟩ :: run.calls, run.state⟩

def inferSchema (pestError : Str → Str) (P : InferenceProvider σ) (samples : List Str)
    (maxRetries : Nat) (st : σ) : Run σ :=
  inferLoop pestError P samples (buildUserPrompt samples) (maxRetries + 1) 0 [] [] st

section Feedback

/-- The pieces are parts of the text, one after the other. -/
inductive InOrder : List Str → Str → Prop
  | nil (s : Str) : InOrder [] s
  | cons {pieces : List Str} {rest : Str} (pre piece : Str) (h : InOrder pieces rest) :
      InOrder (piece :: pieces) (pre ++ (piece ++ rest))

theorem InOrder.append_left {pieces : List Str} {s : Str} (h : InOrder pieces s) (t : Str) :
    InOrder pieces (t ++ s) := by
  cases h with
  | nil => exact .nil _
  | cons pre piece h =>
    rw [← List.append_assoc]
    exact .cons (t ++ pre) piece h

theorem InOrder.append {pieces more : List Str} {s t : Str} (h : InOrder pieces s)
    (ht : InOrder more t) : InOrder (pieces ++ more) (s ++ t) := by
  induction h with
  | nil s => exact ht.append_left s
  | @cons pieces rest pre piece _ ih =>
    have hcons := InOrder.cons pre piece ih
    rwa [← List.append_assoc piece, ← List.append_assoc pre] at hcons

theorem inOrder_sampleTexts (samples : List Str) :
    InOrder (samples.map trimEnd) (samples.mapIdx sampleText).flatten := by
  induction samples using List.reverseRecOn with
  | nil => exact .nil _
  | append_singleton samples s ih =>
    rw [List.map_append, List.mapIdx_append, List.flatten_append]
    refine ih.append ?_
    have hone : ∀ pre post : Str, InOrder [trimEnd s] [pre ++ trimEnd s ++ post].flatten := by
      intro pre post
      rw [List.flatten_singleton, List.append_assoc]
      exact .cons pre _ (.nil post)
    exact hone _ _

theorem inOrder_samples (samples : List Str) :
    InOrder (samples.map trimEnd) (buildUserPrompt samples) := by
  have hmid : ∀ pre post : Str, InOrder (samples.map trimEnd)
      (pre ++ (samples.mapIdx sampleText).flatten ++ post) := by
    intro pre post
    have hall := ((inOrder_sampleTexts samples).append_left pre).append (.nil post)
    rwa [List.append_nil] at hall
  exact hmid _ _

def feedback (a : AttemptContext) : List Str := [a.error, a.schemaText]

theorem attemptText_split (a : AttemptContext) :
    ∃ p q r, attemptText a = p ++ (a.error ++ (q ++ (a.schemaText ++ r))) := by
  have hgroup : ∀ p q r : Str, p ++ a.error ++ q ++ a.schemaText ++ r =
      p ++ (a.error ++ (q ++ (a.schemaText ++ r))) := by
    intro p q r
    simp only [List.append_assoc]
  exact ⟨_, _, _, hgroup _ _ _⟩

theorem inOrder_attempts (attempts : List AttemptContext) :
    InOrder (attempts.flatMap feedback) (attempts.flatMap attemptText) := by
  induction attempts with
  | nil => exact .nil _
  | cons a attempts ih =>
    obtain ⟨p, q, r, ha⟩ := attemptText_split a
    have htext := InOrder.cons q a.schemaText (ih.append_left r)
    have herror := InOrder.cons p a.error htext
    rw [List.flatMap_cons, List.flatMap_cons, ha]
    simpa only [feedback, List.append_assoc, List.cons_append, List.nil_append] using herror

theorem inOrder_withFeedback (base : Str) (attempts : List AttemptContext) :
    InOrder (attempts.flatMap feedback) (withFeedback base attempts) := by
  rw [withFeedback]
  split
  · next h =>
    rw [h]
    exact .nil _
  · exact (inOrder_attempts attempts).append_left _

end Feedback

section Loop

variable {pestError : Str → Str} {P : InferenceProvider σ} {samples : List Str} {basePrompt : Str}

def Valid (pestError : Str → Str) (text : Str) : Prop :=
  ∃ schema compiled, Dsl.Parser.parse pestError text = .ok schema ∧
    Compiler.Compile.compile schema = .ok compiled

theorem valid_iff {text : Str} :
    Valid pestError text ↔ ∃ schema, validate pestError text = .ok schema := by
  rw [validate]
  constructor
  · rintro ⟨schema, compiled, hparse, hcompile⟩
    exact ⟨schema, by rw [hparse]; dsimp only; rw [hcompile]⟩
  · rintro ⟨schema, h⟩
    cases hparse : Dsl.Parser.parse pestError text with
    | error e =>
      rw [hparse] at h
      cases h
    | ok schema' =>
      rw [hparse] at h
      dsimp only at h
      cases hcompile : Compiler.Compile.compile schema' with
      | error e =>
        rw [hcompile] at h
        cases h
      | ok compiled => exact ⟨schema', compiled, hparse, hcompile⟩

def Failure (pestError : Str → Str) (c : Call) (a : AttemptContext) : Prop :=
  c.reply = .ok a.schemaText ∧ ∃ e, validate pestError a.schemaText = .error e ∧ a.error = e.display

def Rejected (pestError : Str → Str) (c : Call) : Prop := ∃ a, Failure pestError c a

/-- Each call is answered by the provider, in the state that the one before it
left. -/
inductive Conversation (P : InferenceProvider σ) (samples : List Str) : σ → List Call → σ → Prop
  | nil (st : σ) : Conversation P samples st [] st
  | cons {st st' last : σ} {c : Call} {calls : List Call}
      (h : P.suggest st samples c.context = (c.reply, st'))
      (rest : Conversation P samples st' calls last) : Conversation P samples st (c :: calls) last

theorem not_rejected_of_valid {c : Call} {text : Str} (hc : c.reply = .ok text)
    (hv : Valid pestError text) : ¬ Rejected pestError c := by
  rintro ⟨a, hreply, e, he, -⟩
  cases hc.symm.trans hreply
  obtain ⟨schema, hok⟩ := valid_iff.mp hv
  cases hok.symm.trans he

/-- What a run from some attempt on does. -/
structure Inferred (pestError : Str → Str) (P : InferenceProvider σ) (samples : List Str)
    (basePrompt : Str) (left : Nat) (attempts : List AttemptContext) (lastError : Str) (st : σ)
    (run : Run σ) : Prop where
  conversation : Conversation P samples st run.calls run.state
  budget : run.calls.length ≤ left
  found : ∀ t, run.result = .ok t ↔ ∃ earlier c, run.calls = earlier ++ [c] ∧ c.reply = .ok t ∧
    Valid pestError t ∧ ∀ d ∈ earlier, Rejected pestError d
  broken : ∀ k c e, run.calls[k]? = some c → c.reply = .error e →
    run.result = .error e ∧ k + 1 = run.calls.length
  exhausted : (∀ c ∈ run.calls, Rejected pestError c) → run.calls.length = left ∧
    ∃ text, run.result = .error (.validationFailed text) ∧
      (run.calls = [] → text = lastError) ∧
      ∀ c, run.calls.getLast? = some c → ∃ a, Failure pestError c a ∧ a.error = text
  contexts : ∀ k c, run.calls[k]? = some c → ∃ failures,
    List.Forall₂ (Failure pestError) (run.calls.take k) failures ∧
      c.context = withFeedback basePrompt (attempts ++ failures)

variable {left : Nat} {attempts : List AttemptContext} {lastError : Str} {st st' : σ}

theorem Inferred.none : Inferred pestError P samples basePrompt 0 attempts lastError st
    ⟨.error (.validationFailed lastError), [], st⟩ := by
  constructor
  · exact .nil st
  · exact Nat.le_refl 0
  · simp
  · simp
  · simp
  · simp

theorem Inferred.last {c : Call} {result : Except InferenceError Str}
    (hc : c.context = withFeedback basePrompt attempts)
    (hs : P.suggest st samples c.context = (c.reply, st')) (hr : ¬ Rejected pestError c)
    (hfound : ∀ t, result = .ok t ↔ c.reply = .ok t ∧ Valid pestError t)
    (hbroken : ∀ e, c.reply = .error e → result = .error e) :
    Inferred pestError P samples basePrompt (left + 1) attempts lastError st ⟨result, [c], st'⟩ := by
  constructor
  · exact .cons hs (.nil st')
  · exact Nat.le_add_left 1 left
  · intro t
    rw [hfound]
    constructor
    · intro h
      exact ⟨[], c, rfl, h.1, h.2, by simp⟩
    · rintro ⟨earlier, d, hd, hreply, hv, -⟩
      obtain ⟨rfl, rfl⟩ : earlier = [] ∧ c = d := by
        cases earlier with
        | nil => simpa using hd
        | cons x earlier => simp at hd
      exact ⟨hreply, hv⟩
  · intro k d e hk he
    cases k with
    | zero =>
      cases hk
      exact ⟨hbroken e he, rfl⟩
    | succ k => cases hk
  · intro hall
    exact absurd (hall c (by simp)) hr
  · intro k d hk
    cases k with
    | zero =>
      cases hk
      exact ⟨[], .nil, by rw [List.append_nil]; exact hc⟩
    | succ k => cases hk

theorem Inferred.next {c : Call} {a : AttemptContext} {run : Run σ}
    (hc : c.context = withFeedback basePrompt attempts)
    (hs : P.suggest st samples c.context = (c.reply, st')) (ha : Failure pestError c a)
    (h : Inferred pestError P samples basePrompt left (attempts ++ [a]) a.error st' run) :
    Inferred pestError P samples basePrompt (left + 1) attempts lastError st
      ⟨run.result, c :: run.calls, run.state⟩ := by
  constructor
  · exact .cons hs h.conversation
  · exact Nat.succ_le_succ h.budget
  · intro t
    rw [h.found]
    constructor
    · rintro ⟨earlier, d, hcalls, hreply, hv, hall⟩
      refine ⟨c :: earlier, d, by rw [hcalls]; rfl, hreply, hv, ?_⟩
      exact List.forall_mem_cons.mpr ⟨⟨a, ha⟩, hall⟩
    · rintro ⟨earlier, d, hcalls, hreply, hv, hall⟩
      cases earlier with
      | nil =>
        cases (List.cons.inj hcalls).1
        exact absurd ⟨a, ha⟩ (not_rejected_of_valid hreply hv)
      | cons x earlier =>
        obtain ⟨rfl, hrest⟩ := List.cons.inj hcalls
        exact ⟨earlier, d, hrest, hreply, hv, (List.forall_mem_cons.mp hall).2⟩
  · intro k d e hk he
    cases k with
    | zero =>
      cases hk
      cases ha.1.symm.trans he
    | succ k =>
      obtain ⟨hresult, hlen⟩ := h.broken k d e hk he
      exact ⟨hresult, congrArg (· + 1) hlen⟩
  · intro hall
    obtain ⟨hlen, text, hresult, hnil, hlast⟩ := h.exhausted (List.forall_mem_cons.mp hall).2
    refine ⟨congrArg (· + 1) hlen, text, hresult, by simp, fun d hd => ?_⟩
    cases hcalls : run.calls with
    | nil =>
      rw [hcalls] at hd
      cases hd
      exact ⟨a, ha, (hnil hcalls).symm⟩
    | cons x calls =>
      rw [hcalls, List.getLast?_cons_cons] at hd
      exact hlast d (by rw [hcalls]; exact hd)
  · intro k d hk
    cases k with
    | zero =>
      cases hk
      exact ⟨[], .nil, by rw [List.append_nil]; exact hc⟩
    | succ k =>
      obtain ⟨failures, hall, hctx⟩ := h.contexts k d hk
      refine ⟨a :: failures, .cons ha hall, ?_⟩
      rw [hctx, List.append_assoc]
      rfl

theorem inferLoop_inferred (left attempt : Nat) (attempts : List AttemptContext) (lastError : Str)
    (st : σ) :
    Inferred pestError P samples basePrompt left attempts lastError st
      (inferLoop pestError P samples basePrompt left attempt attempts lastError st) := by
  induction left generalizing attempt attempts lastError st with
  | zero => exact Inferred.none
  | succ left ih =>
    rw [inferLoop]
    cases hs : P.suggest st samples (withFeedback basePrompt attempts) with
    | mk reply st' =>
      cases reply with
      | error e =>
        refine Inferred.last rfl hs ?_ ?_ ?_
        · rintro ⟨a, hreply, -⟩
          cases hreply
        · simp
        · simp
      | ok text =>
        dsimp only
        cases hv : validate pestError text with
        | ok schema =>
          have hvalid : Valid pestError text := valid_iff.mpr ⟨schema, hv⟩
          have hr : ¬ Rejected pestError ⟨withFeedback basePrompt attempts, .ok text⟩ :=
            not_rejected_of_valid rfl hvalid
          refine Inferred.last rfl hs hr ?_ ?_
          · intro t
            refine ⟨fun h => ?_, And.left⟩
            cases h
            exact ⟨rfl, hvalid⟩
          · simp
        | error e =>
          have ha : Failure pestError ⟨withFeedback basePrompt attempts, .ok text⟩
              ⟨attempt, e.display, text⟩ := ⟨rfl, e, hv, rfl⟩
          exact Inferred.next rfl hs ha (ih _ _ _ _)

variable {run : Run σ} {k : Nat} {c : Call}

theorem rejected_of_failures {calls : List Call} {failures : List AttemptContext}
    (h : List.Forall₂ (Failure pestError) calls failures) : ∀ c ∈ calls, Rejected pestError c := by
  intro c hc
  obtain ⟨a, -, ha⟩ := exists_of_forall₂ h c hc
  exact ⟨a, ha⟩

theorem Inferred.valid_last
    (h : Inferred pestError P samples basePrompt left attempts lastError st run) {t : Str}
    (hk : run.calls[k]? = some c) (hc : c.reply = .ok t) (hv : Valid pestError t) :
    run.result = .ok t ∧ k + 1 = run.calls.length := by
  have hr := not_rejected_of_valid hc hv
  obtain ⟨hlt, rfl⟩ := List.getElem?_eq_some_iff.mp hk
  have hlast : k + 1 = run.calls.length := by
    by_contra hne
    have hnext : k + 1 < run.calls.length := by omega
    obtain ⟨failures, hall, -⟩ := h.contexts (k + 1) _ (List.getElem?_eq_getElem hnext)
    exact hr (rejected_of_failures hall _ (List.mem_take_iff_getElem.mpr ⟨k, by omega, rfl⟩))
  refine ⟨(h.found t).mpr ⟨run.calls.take k, _, ?_, hc, hv, ?_⟩, hlast⟩
  · rw [← List.take_succ_eq_append_getElem hlt, hlast, List.take_length]
  · obtain ⟨failures, hall, -⟩ := h.contexts k _ hk
    exact rejected_of_failures hall

end Loop

/-- The inference asks for as many suggestions as it has attempts, and ends with
the first that is valid, or with the error of the provider, or with that of the
last suggestion. Each context has the failures so far. -/
theorem infer_first_valid (pestError : Str → Str) (P : InferenceProvider σ) (samples : List Str)
    (maxRetries : Nat) (st : σ) :
    ∃ result calls st', inferSchema pestError P samples maxRetries st = ⟨result, calls, st'⟩ ∧
      Conversation P samples st calls st' ∧ calls.length ≤ maxRetries + 1 ∧
      (∀ t, result = .ok t ↔ ∃ earlier c, calls = earlier ++ [c] ∧ c.reply = .ok t ∧
        Valid pestError t ∧ earlier.length ≤ maxRetries ∧ ∀ d ∈ earlier, Rejected pestError d) ∧
      (∀ k c e, calls[k]? = some c → c.reply = .error e →
        result = .error e ∧ k + 1 = calls.length) ∧
      ((∀ c ∈ calls, Rejected pestError c) → calls.length = maxRetries + 1 ∧
        ∃ c a, calls.getLast? = some c ∧ Failure pestError c a ∧
          result = .error (.validationFailed a.error)) ∧
      ∀ k c, calls[k]? = some c → ∃ failures,
        List.Forall₂ (Failure pestError) (calls.take k) failures ∧
          InOrder (failures.flatMap feedback) c.context := by
  have h : Inferred pestError P samples (buildUserPrompt samples) (maxRetries + 1) [] [] st
      (inferSchema pestError P samples maxRetries st) := inferLoop_inferred _ _ _ _ _
  generalize inferSchema pestError P samples maxRetries st = run at h ⊢
  refine ⟨run.result, run.calls, run.state, rfl, h.conversation, h.budget, fun t => ?_, h.broken,
    fun hall => ?_, fun k c hk => ?_⟩
  · rw [h.found]
    constructor
    · rintro ⟨earlier, c, hcalls, hreply, hv, hall⟩
      have hlen := h.budget
      rw [hcalls, List.length_append, List.length_singleton] at hlen
      exact ⟨earlier, c, hcalls, hreply, hv, Nat.le_of_succ_le_succ hlen, hall⟩
    · rintro ⟨earlier, c, hcalls, hreply, hv, -, hall⟩
      exact ⟨earlier, c, hcalls, hreply, hv, hall⟩
  · obtain ⟨hlen, text, hresult, -, hlast⟩ := h.exhausted hall
    refine ⟨hlen, ?_⟩
    cases hget : run.calls.getLast? with
    | none =>
      rw [List.getLast?_eq_none_iff] at hget
      rw [hget] at hlen
      cases hlen
    | some c =>
      obtain ⟨a, ha, rfl⟩ := hlast c hget
      exact ⟨c, a, rfl, ha, hresult⟩
  · obtain ⟨failures, hall, hctx⟩ := h.contexts k c hk
    refine ⟨failures, hall, ?_⟩
    rw [hctx]
    exact inOrder_withFeedback _ _

end TptTelemetry.Inference.Provider
