import Paac.Bridge.Bind
import Paac.Library.Log
import Paac.Proxy.State

set_option autoImplicit false

/-!
# Chat completions

The chat handler resolves the caller, checks the last prompt, sends the body upstream, and filters
the tool calls of the reply, or passes a stream on as it is. A handler is a program with the world
as its state and the visible effects as its events: what is sent, what is executed and what is
answered.

The definitions follow `chat_completions` and `filter_tool_calls` in their order: a metric is
counted where the source counts it, and an early return is an error of the handler. What a connector
returns for an executed call is dropped. The filter goes over the choices of a reply and over the
entries of each of them, and stops at the first check that fails.

The members of a JSON object are set and removed in place (`Json.setMember`, `Json.removeMember`);
the lemmas on them say what is found under a name, so nothing depends on their order.

## Main results

- `Json.get_setMember_self`, `Json.get_setMember_ne`, `Json.get_removeMember_ne`: what is found
  after a member was set or removed.
- `logs_checkPrompt`, `logs_filterToolCall`, `logs_filterReply`: a property of event lists that is
  kept by concatenation holds of each part of the handler when it holds of the engine's check.
- `logs_chatCompletions`: so it holds of the whole chat, with what is sent upstream.
- `emits_checkPrompt`, `emits_filterReply`: the same of a property of single events.
-/

namespace Paac

open Cedar (Engine)

variable {E : Engine} (env : ProxyEnv E) (st : AppState)

/-! ## The prompt -/

/-- What the bridge reads out of an utterance, or general chat when it reads nothing. -/
def promptExtraction (captures : String → String → Option String) (utterance : String) :
    NlExtraction :=
  match extractStructured captures utterance with
  | .ok extraction => extraction
  | .error _ =>
      { utterance := utterance
        action := "READ"
        resourceKind := "GENERAL_CHAT"
        resourceId := none
        subjectId := none
        subjectGroups := []
        directReports := []
        confidence := "0" }

/-- The request that an utterance is checked with. -/
def promptRequest (captures : String → String → Option String) (catalog : ResourceCatalog)
    (principal : Principal) (utterance : String) : Except BridgeError AuthzRequest :=
  bindExtraction principal (promptExtraction captures utterance) (some catalog)

/-- The error for a denied prompt. -/
def promptDenied (req : AuthzRequest) (decision : AuthzDecision) : ProxyError :=
  .forbidden ("PAAC denied access: " ++ req.action.name ++ " on " ++ req.resource.kind ++
    " (decision " ++ decision.evidence.decisionId ++ ")") decision.evidence.decisionId decision

/-- The check of the prompt; an empty one is not checked. -/
def checkPrompt (principal : Principal) (utterance : String) : Handler Unit :=
  if utterance.isEmpty then pure ()
  else do
    let req ← Eff.lift (mapErr (fun e => .error (.badRequest e.toText))
      (promptRequest env.captures st.engine.catalog principal utterance))
    -- counted before the engine answers, and so also when it fails
    Handler.count fun m => { m with checksTotal := m.checksTotal + 1 }
    let decision ← st.engine.check env req
    if decision.effect = .allow then
      Handler.count fun m => { m with allowsTotal := m.allowsTotal + 1 }
    else do
      Handler.count fun m => { m with deniesTotal := m.deniesTotal + 1 }
      Handler.error (promptDenied req decision)

/-! ## Tool calls -/

/-- The name that a tool call is checked under. -/
def toolCallName (tc : Json) : String :=
  ((tc.pointer ["function", "name"]).bind Json.asStr).getD ""

/-- The text of its arguments. -/
def toolCallArgsText (tc : Json) : String :=
  ((tc.pointer ["function", "arguments"]).bind Json.asStr).getD "\x7b\x7d"

/-- The arguments that a tool call is checked with; a text that is no JSON counts as no
arguments. -/
def toolCallArgs (readJson : String → Except String Json) (tc : Json) : Json :=
  match readJson (toolCallArgsText tc) with
  | .ok args => args
  | .error _ => .obj []

/-- The call handed to the connector. -/
def connectorCall (readJson : String → Except String Json) (tc : Json) : ToolCall :=
  ⟨((tc.get "id").bind Json.asStr).getD "", toolCallName tc, toolCallArgs readJson tc⟩

/-- `DataConnector::execute`. -/
def executeCall (call : ToolCall) : Handler (Except String Json) := fun w =>
  ⟨.ok (env.execute w.tick call), { w with tick := w.tick + 1 }, [.executed call]⟩

/-- Execute an allowed call when the proxy is to execute tools; what comes back is dropped. -/
def executeAllowed (tc : Json) : Handler Unit :=
  if st.cfg.connectors.executeTools then do
    let _ ← executeCall env (connectorCall env.readJson tc)
    return ()
  else pure ()

/-- One tool call: kept when it is allowed. -/
def filterToolCall (principal : Principal) (tc : Json) : Handler (List Json) := do
  let req := st.engine.catalog.authzForTool principal (toolCallName tc)
    (toolCallArgs env.readJson tc)
  Handler.count fun m => { m with checksTotal := m.checksTotal + 1 }
  let decision ← st.engine.check env req
  if decision.effect = .allow then do
    Handler.count fun m => { m with allowsTotal := m.allowsTotal + 1 }
    -- the call runs before the client sees the reply
    executeAllowed env st tc
    return [tc]
  else do
    Handler.count fun m => { m with deniesTotal := m.deniesTotal + 1 }
    return []

/-- The loop of `filter_tool_calls`. -/
def filterEach (principal : Principal) : List Json → Handler (List Json)
  | [] => pure []
  | tc :: tcs => do
      let kept ← filterToolCall env st principal tc
      let rest ← filterEach principal tcs
      return kept ++ rest

/-- `filter_tool_calls`; anything but an array has no calls. -/
def filterToolCalls (principal : Principal) (tcs : Json) : Handler (List Json) :=
  match tcs with
  | .arr items => filterEach env st principal items
  | _ => pure []

/-! ## The reply -/

/-- Set a member of an object. -/
def Json.setMember (j : Json) (k : String) (v : Json) : Json :=
  match j with
  | .obj ms => .obj (insertEntry k v ms)
  | other => other

/-- Remove a member of an object. The source may move the last member into the gap; the statements
about replies look members up by name and do not depend on the order. -/
def Json.removeMember (j : Json) (k : String) : Json :=
  match j with
  | .obj ms => .obj (ms.filter fun m => m.1 ≠ k)
  | other => other

theorem Json.get_obj_of_some {j v : Json} {k : String} (h : j.get k = some v) :
    ∃ ms, j = .obj ms := by
  cases j with
  | obj ms => exact ⟨ms, rfl⟩
  | null => cases h
  | bool b => cases h
  | num t => cases h
  | str s => cases h
  | arr items => cases h

@[simp] theorem Json.get_setMember_self (ms : List (String × Json)) (k : String) (v : Json) :
    ((Json.obj ms).setMember k v).get k = some v :=
  lookupEntry_insertEntry_self k v ms

theorem Json.get_setMember_ne {k k' : String} (h : k' ≠ k) (j v : Json) :
    (j.setMember k' v).get k = j.get k := by
  cases j with
  | obj ms => exact lookupEntry_insertEntry_ne h v ms
  | null => rfl
  | bool b => rfl
  | num t => rfl
  | str s => rfl
  | arr items => rfl

@[simp] theorem Json.get_removeMember_self (j : Json) (k : String) :
    (j.removeMember k).get k = none := by
  cases j with
  | obj ms =>
      refine (lookupEntry_eq_none_iff k _).2 fun hmem => ?_
      obtain ⟨m, hm, rfl⟩ := List.mem_map.1 hmem
      simpa using (List.mem_filter.1 hm).2
  | null => rfl
  | bool b => rfl
  | num t => rfl
  | str s => rfl
  | arr items => rfl

/-- Removing a member leaves the others. -/
theorem Json.get_removeMember_ne {k k' : String} (h : k' ≠ k) (j : Json) :
    (j.removeMember k').get k = j.get k := by
  cases j with
  | obj ms =>
      show lookupEntry k (ms.filter fun m => m.1 ≠ k') = lookupEntry k ms
      induction ms with
      | nil => rfl
      | cons m ms ih =>
          rcases m with ⟨k₀, v₀⟩
          by_cases h₀ : k₀ = k'
          · subst h₀
            rw [List.filter_cons_of_neg (by simp), lookupEntry_cons_ne h, ih]
          · rw [List.filter_cons_of_pos (by simpa using h₀), lookupEntry, lookupEntry, ih]
  | null => rfl
  | bool b => rfl
  | num t => rfl
  | str s => rfl
  | arr items => rfl

/-- The message with the tool calls that are left; when none is, the message says so. -/
def replaceToolCalls (msg : Json) (filtered : List Json) : Json :=
  if filtered.isEmpty then
    (msg.removeMember "tool_calls").setMember "content"
      (.str "PAAC blocked all tool calls for this turn.")
  else msg.setMember "tool_calls" (.arr filtered)

/-- One choice of the reply. -/
def filterChoice (principal : Principal) (choice : Json) : Handler Json :=
  match choice.get "message" with
  | none => pure choice
  | some msg =>
      match msg.get "tool_calls" with
      | none => pure choice
      | some tcs => do
          let filtered ← filterToolCalls env st principal tcs
          return choice.setMember "message" (replaceToolCalls msg filtered)

/-- The loop over the choices. -/
def filterChoices (principal : Principal) : List Json → Handler (List Json)
  | [] => pure []
  | choice :: choices => do
      let choice ← filterChoice env st principal choice
      let rest ← filterChoices principal choices
      return choice :: rest

/-- The reply with its tool calls filtered. -/
def filterReply (principal : Principal) (reply : Json) : Handler Json :=
  match (reply.get "choices").bind Json.asArray with
  | some choices => do
      let choices ← filterChoices env st principal choices
      return reply.setMember "choices" (.arr choices)
  | none => pure reply

/-! ## The handler -/

/-- The body of a response: JSON, or the bytes of the upstream as they come. -/
inductive ResponseBody where
  | json (value : Json)
  | stream (text : String)

structure Response where
  status : StatusCode
  body : ResponseBody

/-- Send the body upstream. -/
def sendUpstream (body : ChatCompletionRequest) : Handler UpstreamReply := fun w =>
  let url := Text.trimEndMatchesChar '/' st.cfg.upstream.baseUrl ++ "/v1/chat/completions"
  ⟨mapErr (fun e => .error (.upstream e)) (env.upstream w.tick body),
    { w with tick := w.tick + 1 }, [.sentUpstream url body st.cfg.upstream.apiKey]⟩

/-- What happens once the prompt has passed. A streamed reply is passed on as it is. -/
def forward (principal : Principal) (body : ChatCompletionRequest) : Handler Response := do
  Handler.count fun m => { m with upstreamCalls := m.upstreamCalls + 1 }
  let reply ← sendUpstream env st body
  if body.stream = some true then return ⟨reply.status, .stream reply.text⟩
  else do
    let json ← Eff.lift (mapErr (fun e => .error (.upstream e)) (env.readJson reply.text))
    let filtered ← filterReply env st principal json
    return ⟨reply.status, .json filtered⟩

/-- `chat_completions`. -/
def chatCompletions (headers : HeaderMap) (body : ChatCompletionRequest) : Handler Response := do
  let principal ← resolve env st headers
  checkPrompt env st principal ((lastUserText body.messages).getD "")
  forward env st principal body

/-! ## Events -/

section

variable {env st} {P : List Event → Prop} (hP : Composes P)
  (hcheck : ∀ req, (st.engine.check env req).Logs P)
include hP hcheck

/-- Checking a prompt emits what its check emits. -/
theorem logs_checkPrompt (principal : Principal) (utterance : String) :
    (checkPrompt env st principal utterance).Logs P := by
  unfold checkPrompt
  split
  · exact Eff.logs_pure hP ()
  · apply Eff.logs_bind hP (Eff.logs_lift hP _)
    intro req
    apply Eff.logs_bind hP (Eff.logs_modify hP _)
    intro _
    apply Eff.logs_bind hP (hcheck req)
    intro decision
    split
    · exact Eff.logs_modify hP _
    · exact Eff.logs_bind hP (Eff.logs_modify hP _) fun _ => Eff.logs_fail hP _

variable (hexecuted : ∀ call, P [.executed call])
include hexecuted

/-- Filtering a call emits what its check emits, and the call if it is executed. -/
theorem logs_filterToolCall (principal : Principal) (tc : Json) :
    (filterToolCall env st principal tc).Logs P := by
  have hexecute : (executeAllowed env st tc).Logs P := by
    unfold executeAllowed
    split
    · exact Eff.logs_bind hP (fun _ => hexecuted _) fun _ => Eff.logs_pure hP ()
    · exact Eff.logs_pure hP ()
  apply Eff.logs_bind hP (Eff.logs_modify hP _)
  intro _
  apply Eff.logs_bind hP (hcheck _)
  intro decision
  split
  · apply Eff.logs_bind hP (Eff.logs_modify hP _)
    exact fun _ => Eff.logs_bind hP hexecute fun _ => Eff.logs_pure hP _
  · exact Eff.logs_bind hP (Eff.logs_modify hP _) fun _ => Eff.logs_pure hP _

theorem logs_filterEach (principal : Principal) (tcs : List Json) :
    (filterEach env st principal tcs).Logs P := by
  induction tcs with
  | nil => exact Eff.logs_pure hP _
  | cons tc tcs ih =>
      apply Eff.logs_bind hP (logs_filterToolCall hP hcheck hexecuted principal tc)
      exact fun _ => Eff.logs_bind hP ih fun _ => Eff.logs_pure hP _

/-- Filtering a choice emits what filtering its calls emits. -/
theorem logs_filterChoice (principal : Principal) (choice : Json) :
    (filterChoice env st principal choice).Logs P := by
  unfold filterChoice
  split
  · exact Eff.logs_pure hP _
  · split
    · exact Eff.logs_pure hP _
    · apply Eff.logs_bind hP ?_ fun _ => Eff.logs_pure hP _
      unfold filterToolCalls
      split
      · exact logs_filterEach hP hcheck hexecuted principal _
      · exact Eff.logs_pure hP _

/-- Filtering a reply emits what checks emit, and executed calls. -/
theorem logs_filterReply (principal : Principal) (reply : Json) :
    (filterReply env st principal reply).Logs P := by
  have hchoices : ∀ choices, (filterChoices env st principal choices).Logs P := by
    intro choices
    induction choices with
    | nil => exact Eff.logs_pure hP _
    | cons choice choices ih =>
        apply Eff.logs_bind hP (logs_filterChoice hP hcheck hexecuted principal choice)
        exact fun _ => Eff.logs_bind hP ih fun _ => Eff.logs_pure hP _
  unfold filterReply
  split
  · exact Eff.logs_bind hP (hchoices _) fun _ => Eff.logs_pure hP _
  · exact Eff.logs_pure hP _

/-- The chat handler emits what checks emit, executed calls, and what it sends. -/
theorem logs_chatCompletions (hsent : ∀ url body key, P [.sentUpstream url body key])
    (headers : HeaderMap) (body : ChatCompletionRequest) :
    (chatCompletions env st headers body).Logs P := by
  -- resolving the principal emits nothing
  apply Eff.logs_bind hP fun _ => hP.nil
  intro principal
  apply Eff.logs_bind hP (logs_checkPrompt hP hcheck principal _)
  intro _
  apply Eff.logs_bind hP (Eff.logs_modify hP _)
  intro _
  apply Eff.logs_bind hP fun _ => hsent _ _ _
  intro reply
  split
  · exact Eff.logs_pure hP _
  · apply Eff.logs_bind hP (Eff.logs_lift hP _)
    intro json
    apply Eff.logs_bind hP (logs_filterReply hP hcheck hexecuted principal json)
    exact fun _ => Eff.logs_pure hP _

end

section

variable {env st} {P : Event → Prop} (hcheck : ∀ req, (st.engine.check env req).Emits P)
include hcheck

theorem emits_checkPrompt (principal : Principal) (utterance : String) :
    (checkPrompt env st principal utterance).Emits P :=
  logs_checkPrompt (composes_all P) hcheck principal utterance

theorem emits_filterReply (hexecuted : ∀ call, P (.executed call)) (principal : Principal)
    (reply : Json) : (filterReply env st principal reply).Emits P :=
  logs_filterReply (composes_all P) hcheck
    (fun call => List.forall_mem_singleton.2 (hexecuted call)) principal reply

end

end Paac
