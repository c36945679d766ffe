import TptTelemetry.Inference.Prompt
import TptTelemetry.Lib.Json
import TptTelemetry.Lib.Traverse

namespace TptTelemetry.Inference.Clients

open TptTelemetry.Lib.Text TptTelemetry.Lib.TextLines TptTelemetry.Lib.Json
open TptTelemetry.Lib.Traverse TptTelemetry.Compiler.Scalar
open TptTelemetry.Inference.Provider TptTelemetry.Inference.Prompt

section Values

/-- The documents of the JSON library: how they are made, how they are indexed,
and what the clients rely on in the documents that they make. -/
structure Documents (D : Type) where
  str : Str → D
  num : Number → D
  bool : Bool → D
  arr : List D → D
  obj : List (Str × D) → D
  member : Str → D → D
  item : Nat → D → D
  asStr : D → Option Str
  asStr_str (s : Str) : asStr (str s) = some s
  item_arr {vs : List D} {i : Nat} {v : D} (h : vs[i]? = some v) : item i (arr vs) = v
  member_obj {ms : List (Str × D)} {key : Str} {v : D} (hnodup : (ms.map Prod.fst).Nodup)
    (h : (key, v) ∈ ms) : member key (obj ms) = v

theorem find?_of_mem {D : Type} {ms : List (Str × D)} {key : Str} {v : D}
    (hnodup : (ms.map Prod.fst).Nodup) (h : (key, v) ∈ ms) :
    ms.find? (fun m => m.1 = key) = some (key, v) := by
  induction ms with
  | nil => cases h
  | cons m ms ih =>
    obtain ⟨hm, hnodup⟩ := List.nodup_cons.mp hnodup
    obtain rfl | h := List.mem_cons.mp h
    · exact List.find?_cons_of_pos (by simp)
    · have hne : m.1 ≠ key := fun heq => hm (heq ▸ List.mem_map_of_mem h)
      rw [List.find?_cons_of_neg (by simpa using hne)]
      exact ih hnodup h

def member (key : Str) : Tree → Tree
  | .obj ms => ((ms.find? (fun m => m.1 = key)).map Prod.snd).getD .null
  | _ => .null

def item (i : Nat) : Tree → Tree
  | .arr vs => vs.getD i .null
  | _ => .null

def asStr : Tree → Option Str
  | .str s => some s
  | _ => none

def trees : Documents Tree where
  str := .str
  num := .num
  bool := .bool
  arr := .arr
  obj := .obj
  member := member
  item := item
  asStr := asStr
  asStr_str _ := rfl
  item_arr h := by
    rw [item, List.getD_eq_getElem?_getD, h]
    rfl
  member_obj hnodup h := by
    rw [member, find?_of_mem hnodup h]
    rfl

end Values

section Providers

variable {D σ : Type} (J : Documents D)

structure Request (D : Type) where
  url : Str
  headers : List (Str × Str)
  body : D

/-- What the call comes back with: a document, if the body is one, the body of an
answer with an error status, or a transport error. -/
inductive Reply (D : Type)
  | ok (v : Except Str D)
  | status (body : Str)
  | transport (message : Str)

def apiKey (env : Str → Option Str) (envVar : Str) : Except InferenceError Str :=
  match env envVar with
  | none => .error (.noApiKey envVar)
  | some v => if trim isWhitespace v = [] then .error (.noApiKey envVar) else .ok v

/-- What a live provider has of its own: the variable of its key, the headers for
that key, the document for a user message, and the place of the text in a reply. -/
structure Client (D : Type) where
  apiKeyEnv : Option Str
  url : Str
  headers : Str → List (Str × Str)
  body : Str → D
  content : D → D
  missing : Str

def chatMessage (role content : Str) : D :=
  J.obj [("role".toList, J.str role), ("content".toList, J.str content)]

def json : Str × Str := ("Content-Type".toList, "application/json".toList)

def trimSlashes (url : Str) : Str := (url.reverse.dropWhile (· = '/')).reverse

structure OpenAiCompatProvider where
  name : Str
  baseUrl : Str
  model : Str
  apiKeyEnv : Str

def temperature : Number := ⟨['0', '.', '0'], by decide, by decide⟩

def OpenAiCompatProvider.client (p : OpenAiCompatProvider) : Client D where
  apiKeyEnv := some p.apiKeyEnv
  url := trimSlashes p.baseUrl ++ "/chat/completions".toList
  headers key := [("Authorization".toList, "Bearer ".toList ++ key), json]
  body message := J.obj [
    ("model".toList, J.str p.model), ("temperature".toList, J.num temperature),
    ("messages".toList, J.arr [chatMessage J "system".toList systemPrompt,
      chatMessage J "user".toList message])]
  content v :=
    J.member "content".toList (J.member "message".toList (J.item 0 (J.member "choices".toList v)))
  missing := "missing choices[0].message.content".toList

def OpenAiCompatProvider.openai : OpenAiCompatProvider :=
  ⟨"openai".toList, "https://api.openai.com/v1".toList, "gpt-4o-mini".toList,
    "OPENAI_API_KEY".toList⟩

def OpenAiCompatProvider.openrouter : OpenAiCompatProvider :=
  ⟨"openrouter".toList, "https://openrouter.ai/api/v1".toList, "openai/gpt-4o-mini".toList,
    "OPENROUTER_API_KEY".toList⟩

def OpenAiCompatProvider.grok : OpenAiCompatProvider :=
  ⟨"grok".toList, "https://api.x.ai/v1".toList, "grok-beta".toList, "XAI_API_KEY".toList⟩

structure AnthropicProvider where
  model : Str
  apiKeyEnv : Str

def AnthropicProvider.client (p : AnthropicProvider) : Client D where
  apiKeyEnv := some p.apiKeyEnv
  url := "https://api.anthropic.com/v1/messages".toList
  headers key := [("x-api-key".toList, key), ("anthropic-version".toList, "2023-06-01".toList), json]
  body message := J.obj [
    ("model".toList, J.str p.model), ("max_tokens".toList, J.num (.ofNat 4096)),
    ("system".toList, J.str systemPrompt),
    ("messages".toList, J.arr [chatMessage J "user".toList message])]
  content v := J.member "text".toList (J.item 0 (J.member "content".toList v))
  missing := "missing content[0].text".toList

def AnthropicProvider.new : AnthropicProvider :=
  ⟨"claude-3-5-sonnet-20241022".toList, "ANTHROPIC_API_KEY".toList⟩

structure OllamaProvider where
  model : Str
  baseUrl : Str

def OllamaProvider.client (p : OllamaProvider) : Client D where
  apiKeyEnv := none
  url := trimSlashes p.baseUrl ++ "/api/chat".toList
  headers _ := [json]
  body message := J.obj [
    ("model".toList, J.str p.model), ("stream".toList, J.bool false),
    ("messages".toList, J.arr [chatMessage J "system".toList systemPrompt,
      chatMessage J "user".toList message])]
  content v := J.member "content".toList (J.member "message".toList v)
  missing := "missing message.content".toList

def OllamaProvider.new : OllamaProvider := ⟨"llama3".toList, "http://localhost:11434".toList⟩

/-- The clients that the providers make. -/
inductive Live : Client D → Prop
  | openAiCompat (p : OpenAiCompatProvider) : Live (p.client J)
  | anthropic (p : AnthropicProvider) : Live (p.client J)
  | ollama (p : OllamaProvider) : Live (p.client J)

def Client.key (c : Client D) (env : Str → Option Str) : Except InferenceError Str :=
  match c.apiKeyEnv with
  | some envVar => apiKey env envVar
  | none => .ok []

def Client.request (c : Client D) (key message : Str) : Request D :=
  ⟨c.url, c.headers key, c.body message⟩

def Client.answer (c : Client D) : Reply D → Except InferenceError Str
  | .transport message => .error (.http message)
  | .status body => .error (.api body)
  | .ok (.error message) => .error (.http message)
  | .ok (.ok v) =>
    match J.asStr (c.content v) with
    | some s => .ok (stripCodeFences s)
    | none => .error (.api c.missing)

def Client.suggest (c : Client D) (env : Str → Option Str) (post : σ → Request D → Reply D × σ)
    (st : σ) (samples : List Str) (context : Str) : Except InferenceError Str × σ :=
  match c.key env with
  | .error e => (.error e, st)
  | .ok key =>
    let (reply, st) := post st (c.request key (userMessage samples context))
    (c.answer J reply, st)

def Client.provider (c : Client D) (env : Str → Option Str) (post : σ → Request D → Reply D × σ) :
    InferenceProvider σ := ⟨c.suggest J env post⟩

end Providers

section Mocks

variable {σ : Type}

def mockProvider (schema : Str) : InferenceProvider σ := ⟨fun st _ _ => (.ok schema, st)⟩

def flakyMockProvider (invalid valid : Str) : InferenceProvider σ :=
  ⟨fun st _ context => (.ok (if context = [] then invalid else valid), st)⟩

theorem buildUserPrompt_ne_nil (samples : List Str) : buildUserPrompt samples ≠ [] := by
  have hend : "\nEmit the .tpt-log schema now:\n".toList ≠ [] := by simp
  exact List.append_ne_nil_of_right_ne_nil _ hend

theorem withFeedback_ne_nil {base : Str} (h : base ≠ []) (attempts : List AttemptContext) :
    withFeedback base attempts ≠ [] := by
  rw [withFeedback]
  split
  · exact h
  · exact List.append_ne_nil_of_left_ne_nil (List.append_ne_nil_of_left_ne_nil h _) _

/-- The loop never gives a provider an empty context. -/
theorem inferLoop_congr {pestError : Str → Str} {P Q : InferenceProvider σ} {samples : List Str}
    {base : Str} (hbase : base ≠ [])
    (hsame : ∀ st context, context ≠ [] → P.suggest st samples context = Q.suggest st samples context)
    (left attempt : Nat) (attempts : List AttemptContext) (lastError : Str) (st : σ) :
    inferLoop pestError P samples base left attempt attempts lastError st =
      inferLoop pestError Q samples base left attempt attempts lastError st := by
  induction left generalizing attempt attempts lastError st with
  | zero => rfl
  | succ left ih =>
    rw [inferLoop, inferLoop, hsame st _ (withFeedback_ne_nil hbase attempts)]
    split
    · rfl
    · split
      · rfl
      · rw [ih]

/-- The mock that is to fail at first never does: the loop gives it the prompt for
a context, which is not empty. -/
theorem flakyMock_never_fails (pestError : Str → Str) (invalid valid : Str) (samples : List Str)
    (maxRetries : Nat) (st : σ) :
    inferSchema pestError (flakyMockProvider invalid valid) samples maxRetries st =
      inferSchema pestError (mockProvider valid) samples maxRetries st := by
  refine inferLoop_congr (buildUserPrompt_ne_nil samples) (fun st context hne => ?_) _ _ _ _ _
  simp only [flakyMockProvider, mockProvider, if_neg hne]

end Mocks

section Selection

variable {D σ : Type} (J : Documents D)

def named : List (String × Client D) :=
  [("claude", AnthropicProvider.new.client J), ("anthropic", AnthropicProvider.new.client J),
    ("openai", OpenAiCompatProvider.openai.client J),
    ("openrouter", OpenAiCompatProvider.openrouter.client J),
    ("grok", OpenAiCompatProvider.grok.client J), ("xai", OpenAiCompatProvider.grok.client J),
    ("ollama", OllamaProvider.new.client J)]

def providerByName (env : Str → Option Str) (post : σ → Request D → Reply D × σ) (name : Str) :
    Except InferenceError (InferenceProvider σ) :=
  match (named J).find? (fun p => p.1.toList = lowercase name) with
  | some p => .ok (p.2.provider J env post)
  | none =>
    if lowercase name = "mock".toList then
      .ok (mockProvider
        "format Sample \x7b pattern: \"%\x7blevel:string\x7d: %\x7bmessage:string\x7d\"; \x7d".toList)
    else .error (.other ("unknown provider `".toList ++ lowercase name ++ "`".toList))

theorem live_named : ∀ p ∈ named J, Live J p.2 := by
  simp only [named, List.forall_mem_cons]
  exact ⟨.anthropic _, .anthropic _, .openAiCompat _, .openAiCompat _, .openAiCompat _,
    .openAiCompat _, .ollama _, by simp⟩

theorem providerByName_cases {env : Str → Option Str} {post : σ → Request D → Reply D × σ} {name : Str}
    {P : InferenceProvider σ} (h : providerByName J env post name = .ok P) :
    (∃ c, Live J c ∧ P = c.provider J env post) ∨ ∃ schema, P = mockProvider schema := by
  rw [providerByName] at h
  split at h
  · next p hp =>
    cases h
    exact Or.inl ⟨p.2, live_named J p (List.mem_of_find?_eq_some hp), rfl⟩
  · split at h
    · cases h
      exact Or.inr ⟨_, rfl⟩
    · cases h

end Selection

section Exchanges

variable {D σ : Type} {J : Documents D}

structure Exchange (D : Type) where
  request : Request D
  reply : Reply D

def recorded (post : σ → Request D → Reply D × σ) (st : σ × List (Exchange D)) (r : Request D) :
    Reply D × σ × List (Exchange D) :=
  ((post st.1 r).1, (post st.1 r).2, st.2 ++ [⟨r, (post st.1 r).1⟩])

def Asks (J : Documents D) (message : Str) (body : D) : Prop :=
  ∃ i, J.asStr (J.member "role".toList (J.item i (J.member "messages".toList body))) =
      some "user".toList ∧
    J.asStr (J.member "content".toList (J.item i (J.member "messages".toList body))) = some message

theorem member_of_keys (keys : List String) {ms : List (Str × D)} {key : Str} {v : D}
    (hkeys : ms.map Prod.fst = keys.map String.toList) (hnodup : (keys.map String.toList).Nodup)
    (h : (key, v) ∈ ms) : J.member key (J.obj ms) = v :=
  J.member_obj (hkeys ▸ hnodup) h

theorem asks_chatMessage {body : D} {ms : List D} {message : Str} {i : Nat}
    (hms : J.member "messages".toList body = J.arr ms)
    (hi : ms[i]? = some (chatMessage J "user".toList message)) : Asks J message body := by
  have hmember : ∀ {key : Str} {v : D}, (key, v) ∈ [("role".toList, J.str "user".toList),
      ("content".toList, J.str message)] → J.member key (chatMessage J "user".toList message) = v :=
    member_of_keys ["role", "content"] rfl (by decide)
  refine ⟨i, ?_, ?_⟩
  · rw [hms, J.item_arr hi, hmember List.mem_cons_self, J.asStr_str]
  · rw [hms, J.item_arr hi, hmember (List.mem_cons_of_mem _ List.mem_cons_self), J.asStr_str]

theorem asks_body {c : Client D} (hc : Live J c) (message : Str) : Asks J message (c.body message) := by
  have hthird : ∀ {a b : Str × D} {v : D}, ("messages".toList, v) ∈ [a, b, ("messages".toList, v)] :=
    List.mem_cons_of_mem _ (List.mem_cons_of_mem _ List.mem_cons_self)
  cases hc with
  | openAiCompat p =>
    exact asks_chatMessage (i := 1)
      (member_of_keys ["model", "temperature", "messages"] rfl (by decide) hthird) rfl
  | anthropic p =>
    exact asks_chatMessage (i := 0)
      (member_of_keys ["model", "max_tokens", "system", "messages"] rfl (by decide)
        (List.mem_cons_of_mem _ hthird)) rfl
  | ollama p =>
    exact asks_chatMessage (i := 1)
      (member_of_keys ["model", "stream", "messages"] rfl (by decide) hthird) rfl

variable {c : Client D} {env : Str → Option Str} {post : σ → Request D → Reply D × σ}
  {samples : List Str} {key : Str}

structure Asked (J : Documents D) (c : Client D) (key : Str) (samples : List Str) (call : Call)
    (x : Exchange D) : Prop where
  request : x.request = c.request key (userMessage samples call.context)
  reply : call.reply = c.answer J x.reply

theorem exchanges_of_conversation {calls : List Call} {st st' : σ × List (Exchange D)}
    (hkey : c.key env = .ok key)
    (h : Conversation (c.provider J env (recorded post)) samples st calls st') :
    ∃ xs, st'.2 = st.2 ++ xs ∧ List.Forall₂ (Asked J c key samples) calls xs := by
  induction h with
  | nil st => exact ⟨[], (List.append_nil _).symm, .nil⟩
  | @cons st mid last call calls hs _ ih =>
    obtain ⟨xs, hlast, hall⟩ := ih
    simp only [Client.provider, Client.suggest, hkey, recorded, Prod.mk.injEq] at hs
    obtain ⟨hreply, rfl⟩ := hs
    exact ⟨_, by rw [hlast, List.append_assoc]; rfl, .cons ⟨rfl, hreply.symm⟩ hall⟩

theorem conversation_keyless {calls : List Call} {st st' : σ × List (Exchange D)} {e : InferenceError}
    (hkey : c.key env = .error e)
    (h : Conversation (c.provider J env (recorded post)) samples st calls st') :
    st' = st ∧ ∀ call ∈ calls, call.reply = .error e := by
  induction h with
  | nil st => exact ⟨rfl, by simp⟩
  | cons hs _ ih =>
    simp only [Client.provider, Client.suggest, hkey, Prod.mk.injEq] at hs
    obtain ⟨hreply, rfl⟩ := hs
    exact ⟨ih.1, List.forall_mem_cons.mpr ⟨hreply.symm, ih.2⟩⟩

/-- The reply was got a suggestion out of that failed validation, as it is
reported. -/
def Refused (pestError : Str → Str) (J : Documents D) (c : Client D) (x : Exchange D)
    (a : AttemptContext) : Prop :=
  c.answer J x.reply = .ok a.schemaText ∧
    ∃ e, validate pestError a.schemaText = .error e ∧ a.error = e.display

theorem refused_of_failures {pestError : Str → Str} {calls : List Call} {xs : List (Exchange D)}
    {failures : List AttemptContext} (hf : List.Forall₂ (Failure pestError) calls failures)
    (hx : List.Forall₂ (Asked J c key samples) calls xs) :
    List.Forall₂ (Refused pestError J c) xs failures := by
  induction hf generalizing xs with
  | nil =>
    cases hx
    exact .nil
  | cons ha _ ih =>
    obtain _ | ⟨hx, hxs⟩ := hx
    exact .cons ⟨hx.reply.symm.trans ha.1, ha.2⟩ (ih hxs)

theorem inOrder_userMessage {context : Str} {pieces : List Str} (hne : context ≠ [])
    (h : InOrder pieces context) :
    InOrder (samples.map trimEnd ++ pieces) (userMessage samples context) := by
  rw [userMessage, if_neg hne]
  exact (inOrder_samples samples).append (h.append_left ['\n'])

variable {pestError : Str → Str} {maxRetries : Nat} {st : σ} {run : Run (σ × List (Exchange D))}

/-- What a run of the inference with a client is like. -/
def InferredBy (pestError : Str → Str) (J : Documents D) (c : Client D) (env : Str → Option Str)
    (post : σ → Request D → Reply D × σ) (samples : List Str) (maxRetries : Nat) (st : σ)
    (run : Run (σ × List (Exchange D))) : Prop :=
  Inferred pestError (c.provider J env (recorded post)) samples (buildUserPrompt samples)
    (maxRetries + 1) [] [] (st, []) run

theorem inferredBy (pestError : Str → Str) (J : Documents D) (c : Client D) (env : Str → Option Str)
    (post : σ → Request D → Reply D × σ) (samples : List Str) (maxRetries : Nat) (st : σ) :
    InferredBy pestError J c env post samples maxRetries st
      (inferSchema pestError (c.provider J env (recorded post)) samples maxRetries (st, [])) :=
  inferLoop_inferred _ _ _ _ _

theorem InferredBy.keyless (h : InferredBy pestError J c env post samples maxRetries st run)
    {e : InferenceError} (hkey : c.key env = .error e) :
    run.result = .error e ∧ run.state.2 = [] := by
  obtain ⟨hst, hreply⟩ := conversation_keyless hkey h.conversation
  cases hcalls : run.calls with
  | nil =>
    have hlen := (h.exhausted (by rw [hcalls]; simp)).1
    rw [hcalls] at hlen
    cases hlen
  | cons call calls =>
    have hget : run.calls[0]? = some call := by
      rw [hcalls]
      rfl
    exact ⟨(h.broken 0 call e hget (hreply call (List.mem_of_getElem? hget))).1, by rw [hst]⟩

theorem InferredBy.asked (h : InferredBy pestError J c env post samples maxRetries st run)
    (hkey : c.key env = .ok key) : List.Forall₂ (Asked J c key samples) run.calls run.state.2 := by
  obtain ⟨xs, hxs, hall⟩ := exchanges_of_conversation hkey h.conversation
  rw [hxs]
  exact hall

/-- The inference with a live model. It makes at most one request for each attempt,
and none without a key. The user's message in each request shows the samples and
then what came of every request before it. -/
theorem questions_asked (hc : Live J c) (pestError : Str → Str) (env : Str → Option Str)
    (post : σ → Request D → Reply D × σ) (samples : List Str) (maxRetries : Nat) (st : σ) :
    ∃ result calls st' xs,
      inferSchema pestError (c.provider J env (recorded post)) samples maxRetries (st, []) =
        ⟨result, calls, st', xs⟩ ∧
      xs.length ≤ maxRetries + 1 ∧ (∀ e, c.key env = .error e → result = .error e ∧ xs = []) ∧
      ∀ k x, xs[k]? = some x → ∃ message failures, Asks J message x.request.body ∧
        List.Forall₂ (Refused pestError J c) (xs.take k) failures ∧
        InOrder (samples.map trimEnd ++ failures.flatMap feedback) message := by
  have h := inferredBy pestError J c env post samples maxRetries st
  generalize inferSchema pestError (c.provider J env (recorded post)) samples maxRetries (st, []) = run
    at h ⊢
  refine ⟨run.result, run.calls, run.state.1, run.state.2, rfl, ?_⟩
  cases hkey : c.key env with
  | error e =>
    obtain ⟨hresult, hnone⟩ := h.keyless hkey
    rw [hnone]
    refine ⟨Nat.zero_le _, fun e' he => ?_, by simp⟩
    cases he
    exact ⟨hresult, rfl⟩
  | ok key =>
    have hasked := h.asked hkey
    refine ⟨hasked.length_eq ▸ h.budget, nofun, fun k x hx => ?_⟩
    obtain ⟨call, hcall, hask⟩ := getElem?_of_forall₂ hasked.flip hx
    obtain ⟨failures, hf, hctx⟩ := h.contexts k call hcall
    refine ⟨userMessage samples call.context, failures, ?_,
      refused_of_failures hf (List.forall₂_take k hasked), ?_⟩
    · rw [hask.request]
      exact asks_body hc _
    · rw [hctx]
      exact inOrder_userMessage (withFeedback_ne_nil (buildUserPrompt_ne_nil samples) _)
        (inOrder_withFeedback _ _)

def scripted : List (Reply Tree) → Request Tree → Reply Tree × List (Reply Tree)
  | [], _ => (.transport "connection refused".toList, [])
  | reply :: replies, _ => (reply, replies)

def message (content : Str) : Reply Tree :=
  .ok (.ok (.obj [("message".toList, .obj [("content".toList, .str content)])]))

/-- The first suggestion is no schema, and the second request is not answered. -/
def badSuggestion : List (Reply Tree) := [message "```\nformat".toList]

theorem questions_asked_refused : ∃ result calls st' xs,
    inferSchema (fun _ => []) ((OllamaProvider.new.client trees).provider trees (fun _ => none)
        (recorded scripted)) ["up".toList] 3 (badSuggestion, []) = ⟨result, calls, st', xs⟩ ∧
      xs.length ≤ 4 := by
  obtain ⟨result, calls, st', xs, hrun, hlen, -⟩ := questions_asked (Live.ollama OllamaProvider.new)
    (fun _ => []) (fun _ => none) scripted ["up".toList] 3 badSuggestion
  exact ⟨result, calls, st', xs, hrun, hlen⟩

/-- What a live model suggests, in a code fence or without one, is the result if
it is valid, and nothing is asked after it. Only such a suggestion is a result. -/
theorem given_schema_inferred (hkey : c.key env = .ok key) (pestError : Str → Str)
    (post : σ → Request D → Reply D × σ) (samples : List Str) (maxRetries : Nat) (st : σ) :
    ∃ result calls st' xs,
      inferSchema pestError (c.provider J env (recorded post)) samples maxRetries (st, []) =
        ⟨result, calls, st', xs⟩ ∧
      (∀ k x v s t, xs[k]? = some x → x.reply = .ok (.ok v) → J.asStr (c.content v) = some s →
        Gives t s → Valid pestError t → result = .ok t ∧ k + 1 = xs.length) ∧
      ∀ t, result = .ok t → ∃ x, xs.getLast? = some x ∧ c.answer J x.reply = .ok t ∧
        Valid pestError t := by
  have h := inferredBy pestError J c env post samples maxRetries st
  generalize inferSchema pestError (c.provider J env (recorded post)) samples maxRetries (st, []) = run
    at h ⊢
  have hasked := h.asked hkey
  refine ⟨run.result, run.calls, run.state.1, run.state.2, rfl, ?_, fun t ht => ?_⟩
  · intro k x v s t hx hv hs hgives hvalid
    obtain ⟨call, hcall, hask⟩ := getElem?_of_forall₂ hasked.flip hx
    have hreply : call.reply = .ok t := by
      rw [hask.reply, hv, Client.answer, hs]
      exact congrArg Except.ok (stripCodeFences_gives hgives)
    rw [← hasked.length_eq]
    exact h.valid_last hcall hreply hvalid
  · obtain ⟨earlier, call, hcalls, hreply, hvalid, -⟩ := (h.found t).mp ht
    have hlast : run.calls[earlier.length]? = some call := by simp [hcalls]
    obtain ⟨x, hx, hask⟩ := getElem?_of_forall₂ hasked hlast
    refine ⟨x, ?_, hask.reply.symm.trans hreply, hvalid⟩
    rw [List.getLast?_eq_getElem?, ← hasked.length_eq, hcalls, List.length_append,
      List.length_singleton]
    exact hx

def suggested : Str := "format A \x7b pattern: \"%\x7bn:int\x7d\"; \x7d".toList

def fencedSuggestion : Str := "```tpt\n".toList ++ suggested ++ "\n```\n".toList

theorem gives_suggested : Gives suggested fencedSuggestion := by
  have htrim : trim isWhitespace fencedSuggestion =
      fence ++ ("tpt".toList ++ '\n' :: (suggested ++ ['\n']) ++ fence) := by
    decide +kernel
  exact .fenced htrim (by decide) (by decide +kernel) (Or.inr (by decide +kernel))

theorem valid_suggested : Valid (fun _ => []) suggested := by
  have hok : (validate (fun _ => []) suggested).toOption.isSome = true := by
    decide +kernel
  cases hv : validate (fun _ => []) suggested with
  | error e =>
    rw [hv] at hok
    cases hok
  | ok schema => exact valid_iff.mpr ⟨schema, hv⟩

theorem given_schema_inferred_fenced : ∃ result calls st' xs,
    inferSchema (fun _ => []) ((OllamaProvider.new.client trees).provider trees (fun _ => none)
        (recorded scripted)) ["up".toList] 3 ([message fencedSuggestion], []) =
          ⟨result, calls, st', xs⟩ ∧
      ∀ k x, xs[k]? = some x → x.reply = message fencedSuggestion →
        result = .ok suggested ∧ k + 1 = xs.length := by
  obtain ⟨result, calls, st', xs, hrun, hgiven, -⟩ :=
    given_schema_inferred (J := trees) (c := OllamaProvider.new.client trees)
      rfl (fun _ => []) scripted ["up".toList] 3 [message fencedSuggestion]
  exact ⟨result, calls, st', xs, hrun, fun k x hx hreply =>
    hgiven k x _ _ _ hx hreply rfl gives_suggested valid_suggested⟩

end Exchanges

end TptTelemetry.Inference.Clients
