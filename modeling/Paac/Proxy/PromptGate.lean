import Paac.Core.Reference
import Paac.Policy.Compiled
import Paac.Proxy.Attribution
import Paac.Proxy.Chat

set_option autoImplicit false

/-!
# What reaches the upstream

The body is sent upstream after the prompt check, and the prompt check looks at the text of the last
user message only. An empty text is not checked: a body whose last user message is an image, or
which has no user message, is sent without a check.

Two questions are asked of the handler. Whether every send comes after a check that allowed, which
is about the order of events in its log; and whether every prompt of a body that is sent would be
allowed, which is about the texts of all user messages, on the bundle that the check has read.

## Main results

- `checkPrompt_passes_iff`, `checkPrompt_emits`: when a prompt passes its check, and what the check
  emits.
- `prefix_of_send`, `sends_unchecked`: what stands in the log before a send.
- `sends_after_allow_iff`: every send comes after a check that allowed exactly when no principal is
  resolved or the last user message has a text that is not empty.
- `forwards_allowed_prompts_iff`: a forwarded body has no prompt that would be denied exactly when,
  once a principal is resolved and the checked text passes, every other text is allowed as well.
- `image_sent_unchecked`, `denied_prompt_delivered`: a body without a text, and an earlier prompt
  that would be denied.
-/

namespace Paac

open Cedar (Engine)

section

variable {E : Engine} (env : ProxyEnv E) (st : AppState)

/-! ## Events of the parts -/

/-- The event is a send to the upstream. -/
def Event.isSend : Event → Bool
  | .sentUpstream _ _ _ => true
  | _ => false

theorem check_sends_nothing (req : AuthzRequest) :
    (st.engine.check env req).Emits fun e => e.isSend = false := by
  intro w e he
  rcases emits_check env st.engine req w e he with ⟨d, rfl⟩ | ⟨d, ms, key, rfl⟩
  · rfl
  · rfl

theorem checkPrompt_sends_nothing (principal : Principal) (utterance : String) :
    (checkPrompt env st principal utterance).Emits fun e => e.isSend = false :=
  emits_checkPrompt (check_sends_nothing env st) principal utterance

theorem filterReply_sends_nothing (principal : Principal) (reply : Json) :
    (filterReply env st principal reply).Emits fun e => e.isSend = false :=
  emits_filterReply (check_sends_nothing env st) (fun _ => rfl) principal reply

/-- Forwarding sends the body first, and sends nothing after. -/
theorem forward_events (principal : Principal) (body : ChatCompletionRequest) (w : World) :
    ∃ url key rest, (forward env st principal body w).events = .sentUpstream url body key :: rest ∧
      ∀ e ∈ rest, e.isSend = false := by
  -- whatever is done with the reply sends nothing more
  have hrest : ∀ reply : UpstreamReply, Eff.Emits
      (if body.stream = some true then
          (pure ⟨reply.status, .stream reply.text⟩ : Handler Response)
        else do
          let json ← Eff.lift (mapErr (fun e => .error (.upstream e)) (env.readJson reply.text))
          let filtered ← filterReply env st principal json
          return ⟨reply.status, .json filtered⟩) fun e => e.isSend = false := by
    intro reply
    split
    · exact Eff.emits_pure _
    · exact Eff.Emits.bind (Eff.emits_lift _) fun json =>
        Eff.Emits.bind (filterReply_sends_nothing env st principal json) fun _ => Eff.emits_pure _
  unfold forward
  rw [Eff.bind_ok (a := ()) rfl]
  generalize hw : (Handler.count (fun m => { m with upstreamCalls := m.upstreamCalls + 1 }) w).state
    = w₁
  have hcount : (Handler.count
      (fun m => { m with upstreamCalls := m.upstreamCalls + 1 }) w).events = [] := rfl
  rw [hcount, Eff.after_nil]
  cases hsend : (sendUpstream env st body w₁).result with
  | error e =>
      rw [Eff.bind_error hsend]
      exact ⟨_, _, [], rfl, fun e he => absurd he List.not_mem_nil⟩
  | ok reply =>
      rw [Eff.bind_ok hsend]
      exact ⟨_, _, _, rfl, hrest reply _⟩

/-! ## The prompt check -/

/-- The request built from the text is allowed on the bundle. -/
def PromptAllowed (hot : HotBundle E) (principal : Principal) (text : String) : Prop :=
  ∃ req, promptRequest env.captures st.engine.catalog principal text = .ok req ∧
    ∃ fresh d, st.engine.decide hot fresh req = .ok d ∧ d.effect = .allow

/-- A decision that allows does so whatever identifier and time it is given. -/
theorem decide_fresh {eng : AuthzEngine} {hot : HotBundle E} {fresh : Fresh} {req : AuthzRequest}
    {d : AuthzDecision} (h : eng.decide hot fresh req = .ok d) (fresh' : Fresh) :
    ∃ d', eng.decide hot fresh' req = .ok d' ∧ d'.effect = d.effect := by
  unfold AuthzEngine.decide at h ⊢
  split at h
  · cases h
  · rename_i hsigned
    rw [mapErr_eq_ok] at h
    obtain ⟨d', hd', heffect⟩ := evaluate_fresh h fresh'
    exact ⟨d', by rw [if_neg hsigned, hd']; rfl, heffect⟩

variable {env st}

/-- A prompt check that has a request and a decision emits that check, and passes when it allows. -/
theorem checkPrompt_decided {principal : Principal} {text : String} (hne : text ≠ "")
    {req : AuthzRequest}
    (hreq : promptRequest env.captures st.engine.catalog principal text = .ok req) {w : World}
    {d : AuthzDecision}
    (hd : st.engine.decide (env.bundle w.tick) (env.fresh w.tick) req = .ok d) :
    ((checkPrompt env st principal text w).result = .ok () ↔ d.effect = .allow) ∧
      .checked req d ∈ (checkPrompt env st principal text w).events := by
  have hempty : ¬text.isEmpty = true := by rwa [String.isEmpty_iff]
  have hlift : ∀ w : World, (Eff.lift (mapErr (fun e => Halt.error (.badRequest e.toText))
      (promptRequest env.captures st.engine.catalog principal text)) : Handler AuthzRequest) w =
        ⟨.ok req, w, []⟩ := by
    intro w
    rw [hreq]
    rfl
  -- the counter moves before the check, which reads only the tick
  have hcheck : ∀ f : Metrics → Metrics, (st.engine.check env req)
      (Handler.count f w).state = ⟨.ok d, { (Handler.count f w).state with tick := w.tick + 1 },
        st.engine.auditEvents d (env.latencyMs w.tick) (env.bundle w.tick).signatureKeyId ++
          [.checked req d]⟩ := by
    intro f
    have hd' : st.engine.decide (env.bundle (Handler.count f w).state.tick)
        (env.fresh (Handler.count f w).state.tick) req = .ok d := hd
    simp only [AuthzEngine.check, hd']
    rfl
  rw [checkPrompt, if_neg hempty, Eff.bind_ok (a := req) (by rw [hlift]), hlift,
    Eff.bind_ok (a := ()) rfl, Eff.bind_ok (a := d) (by rw [hcheck]), hcheck]
  constructor
  · by_cases hallow : d.effect = .allow
    · rw [if_pos hallow]
      exact iff_of_true rfl hallow
    · rw [if_neg hallow]
      exact iff_of_false (by simp [Eff.after, Eff.bind_apply, Handler.count, Eff.modify,
        Handler.error, Eff.fail]) hallow
  · simp [Eff.after, Handler.count, Eff.modify]

/-- A prompt that is not allowed stops the chat. -/
theorem checkPrompt_fails {principal : Principal} {text : String} (hne : text ≠ "") {w : World}
    (h : ∀ req, promptRequest env.captures st.engine.catalog principal text = .ok req →
      ∀ d, st.engine.decide (env.bundle w.tick) (env.fresh w.tick) req ≠ .ok d) :
    (checkPrompt env st principal text w).result ≠ .ok () := by
  have hempty : ¬text.isEmpty = true := by rwa [String.isEmpty_iff]
  rw [checkPrompt, if_neg hempty]
  intro hok
  obtain ⟨req, hreq, hok⟩ := Eff.bind_result_ok.1 hok
  obtain ⟨_, -, hok⟩ := Eff.bind_result_ok.1 hok
  obtain ⟨d, hd, -⟩ := Eff.bind_result_ok.1 hok
  simp only [Eff.lift_apply, mapErr_eq_ok] at hreq
  rw [check_result, count_tick, Eff.lift_apply] at hd
  exact h req hreq d hd

/-- **The prompt check passes** exactly when the text is empty or its request is allowed. -/
theorem checkPrompt_passes_iff {principal : Principal} {text : String} {w : World} :
    (checkPrompt env st principal text w).result = .ok () ↔
      text = "" ∨ PromptAllowed env st (env.bundle w.tick) principal text := by
  by_cases hne : text = ""
  · subst hne
    exact iff_of_true rfl (Or.inl rfl)
  · by_cases hdecided : ∃ req, promptRequest env.captures st.engine.catalog principal text = .ok req
      ∧ ∃ d, st.engine.decide (env.bundle w.tick) (env.fresh w.tick) req = .ok d
    · obtain ⟨req, hreq, d, hd⟩ := hdecided
      rw [(checkPrompt_decided hne hreq hd).1]
      constructor
      · exact fun hallow => Or.inr ⟨req, hreq, _, d, hd, hallow⟩
      · rintro (h | ⟨req', hreq', fresh, d', hd', hallow⟩)
        · exact absurd h hne
        · obtain rfl := Except.ok.inj (hreq.symm.trans hreq')
          -- the fresh values of the call do not move the effect
          obtain ⟨d'', hd'', heffect⟩ := decide_fresh hd' (env.fresh w.tick)
          obtain rfl := Except.ok.inj (hd.symm.trans hd'')
          rw [heffect, hallow]
    · refine iff_of_false (checkPrompt_fails hne fun req hreq d hd =>
        hdecided ⟨req, hreq, d, hd⟩) ?_
      rintro (h | ⟨req, hreq, fresh, d, hd, -⟩)
      · exact hne h
      · obtain ⟨d', hd', -⟩ := decide_fresh hd (env.fresh w.tick)
        exact hdecided ⟨req, hreq, d', hd'⟩

/-- A check that passes on a text that is not empty is one of the principal that allowed. -/
theorem checkPrompt_emits {principal : Principal} {text : String} {w : World} (hne : text ≠ "")
    (h : (checkPrompt env st principal text w).result = .ok ()) :
    ∃ req d, .checked req d ∈ (checkPrompt env st principal text w).events ∧
      req.principal = principal ∧ d.effect = .allow := by
  obtain hempty | ⟨req, hreq, fresh, d, hd, hallow⟩ := checkPrompt_passes_iff.1 h
  · exact absurd hempty hne
  · obtain ⟨d', hd', heffect⟩ := decide_fresh hd (env.fresh w.tick)
    exact ⟨req, d', (checkPrompt_decided hne hreq hd').2, (bindExtraction_parts hreq).1,
      heffect.trans hallow⟩

/-! ## Runs of the handler -/

/-- An unresolved caller stops the chat before anything is sent. -/
theorem chat_unresolved {headers : HeaderMap} {body : ChatCompletionRequest} {w : World}
    {e : Halt ProxyError} (h : (resolve env st headers w).result = .error e) :
    (chatCompletions env st headers body w).events = [] := by
  rw [chatCompletions, Eff.bind_error h]
  rfl

/-- With a principal resolved, the events are those of the prompt check and, when it passes, those
of forwarding. -/
theorem chat_resolved {headers : HeaderMap} {body : ChatCompletionRequest} {w : World}
    {p : Principal} (h : (resolve env st headers w).result = .ok p) :
    ∃ w₁, w₁.tick = w.tick + 1 ∧
      ((checkPrompt env st p ((lastUserText body.messages).getD "") w₁).result = .ok () ∧
        (chatCompletions env st headers body w).events =
          (checkPrompt env st p ((lastUserText body.messages).getD "") w₁).events ++
            (forward env st p body (checkPrompt env st p ((lastUserText body.messages).getD "")
              w₁).state).events ∨
      (checkPrompt env st p ((lastUserText body.messages).getD "") w₁).result ≠ .ok () ∧
        (chatCompletions env st headers body w).events =
          (checkPrompt env st p ((lastUserText body.messages).getD "") w₁).events) := by
  refine ⟨(resolve env st headers w).state, rfl, ?_⟩
  have hsilent : (resolve env st headers w).events = [] := rfl
  rw [chatCompletions, Eff.bind_ok h, hsilent, Eff.after_nil]
  cases hprompt : (checkPrompt env st p ((lastUserText body.messages).getD "")
      (resolve env st headers w).state).result with
  | error e =>
      rw [Eff.bind_error hprompt]
      exact Or.inr ⟨by simp, rfl⟩
  | ok _ =>
      rw [Eff.bind_ok hprompt]
      exact Or.inl ⟨rfl, rfl⟩

/-! ## Sends and checks -/

/-- Events without a send, in front of others, are in front of the first send. -/
theorem prefix_of_send {quiet rest pre post : List Event} {sent : Event}
    (h : quiet ++ rest = pre ++ sent :: post) (hquiet : ∀ e ∈ quiet, e.isSend = false)
    (hsent : sent.isSend = true) : ∀ e ∈ quiet, e ∈ pre := by
  rcases List.append_eq_append_iff.1 h with ⟨more, rfl, -⟩ | ⟨more, rfl, hmore⟩
  · exact fun e he => List.mem_append_left _ he
  · cases more with
    | nil => exact fun e he => by simpa using he
    | cons x more =>
        obtain rfl := (List.cons.inj hmore).1
        have hx := hquiet sent (List.mem_append_right _ List.mem_cons_self)
        rw [hsent] at hx
        cases hx

/-- Every send of the run comes after a check of the resolved principal that allowed. -/
def SendsAfterAllow (env : ProxyEnv E) (st : AppState) (headers : HeaderMap)
    (body : ChatCompletionRequest) (w : World) : Prop :=
  ∀ pre sent post, (chatCompletions env st headers body w).events = pre ++ sent :: post →
    sent.isSend = true → ∃ p, (resolve env st headers w).result = .ok p ∧
      ∃ req d, .checked req d ∈ pre ∧ req.principal = p ∧ d.effect = .allow

/-- A resolved principal whose checked text is empty is not checked: the body is sent at once. -/
theorem sends_unchecked {headers : HeaderMap} {body : ChatCompletionRequest} {w : World}
    {p : Principal} (hp : (resolve env st headers w).result = .ok p)
    (hempty : (lastUserText body.messages).getD "" = "") :
    ∃ url key rest,
      (chatCompletions env st headers body w).events = .sentUpstream url body key :: rest := by
  obtain ⟨w₁, -, hrun⟩ := @chat_resolved _ env st _ body _ _ hp
  rw [hempty] at hrun
  obtain ⟨url, key, rest, hforward, -⟩ := forward_events env st p body
    (checkPrompt env st p "" w₁).state
  rcases hrun with ⟨-, hevents⟩ | ⟨hstopped, -⟩
  · exact ⟨url, key, rest, hevents.trans hforward⟩
  · exact absurd rfl hstopped

/-- **When sends come after an allow.** Every send comes after a check that allowed exactly when no
principal is resolved or the last user message has a text that is not empty. -/
theorem sends_after_allow_iff (env : ProxyEnv E) (st : AppState) (headers : HeaderMap)
    (body : ChatCompletionRequest) (w : World) :
    SendsAfterAllow env st headers body w ↔
      (∀ p, (resolve env st headers w).result ≠ .ok p) ∨
        ∃ t, lastUserText body.messages = some t ∧ t ≠ "" := by
  constructor
  · intro hafter
    by_contra hcond
    rw [not_or, not_forall] at hcond
    obtain ⟨⟨p, hp⟩, htext⟩ := hcond
    have hp := not_not.1 hp
    have hempty : (lastUserText body.messages).getD "" = "" := by
      cases h : lastUserText body.messages with
      | none => rfl
      | some t =>
          by_contra hne
          exact htext ⟨t, h, hne⟩
    -- an empty prompt passes without a check, so the send is the first event
    obtain ⟨url, key, rest, hevents⟩ := @sends_unchecked _ _ st _ body _ _ hp hempty
    obtain ⟨p', -, req, d, hchecked, -⟩ := hafter [] _ rest hevents rfl
    cases hchecked
  · rintro (hunresolved | ⟨t, ht, hne⟩) pre sent post hevents hsent
    · cases h : (resolve env st headers w).result with
      | ok p => exact absurd h (hunresolved p)
      | error e =>
          rw [chat_unresolved h] at hevents
          simp at hevents
    · cases h : (resolve env st headers w).result with
      | error e =>
          rw [chat_unresolved h] at hevents
          simp at hevents
      | ok p =>
          refine ⟨p, rfl, ?_⟩
          obtain ⟨w₁, -, hrun⟩ := chat_resolved h
          rw [ht, Option.getD_some] at hrun
          have hquiet := checkPrompt_sends_nothing env st p t w₁
          rcases hrun with ⟨hpassed, hrun⟩ | ⟨-, hrun⟩
          · obtain ⟨req, d, hchecked, hprincipal, hallow⟩ := checkPrompt_emits hne hpassed
            rw [hrun] at hevents
            exact ⟨req, d, prefix_of_send hevents hquiet hsent _ hchecked, hprincipal, hallow⟩
          · rw [hrun] at hevents
            have hno : sent.isSend = false := hquiet sent (by rw [hevents]; simp)
            rw [hsent] at hno
            cases hno

/-- The body is sent exactly when a principal is resolved and the prompt check passes. -/
theorem sends_iff {headers : HeaderMap} {body : ChatCompletionRequest} {w : World} :
    (∃ e ∈ (chatCompletions env st headers body w).events, e.isSend = true) ↔
      ∃ p, (resolve env st headers w).result = .ok p ∧
        ((lastUserText body.messages).getD "" = "" ∨ PromptAllowed env st
          (env.bundle (w.tick + 1)) p ((lastUserText body.messages).getD "")) := by
  cases h : (resolve env st headers w).result with
  | error e =>
      rw [chat_unresolved h]
      simp
  | ok p =>
      obtain ⟨w₁, htick, hrun⟩ := chat_resolved h
      have hpasses := @checkPrompt_passes_iff _ env st p ((lastUserText body.messages).getD "") w₁
      rw [htick] at hpasses
      simp only [Except.ok.injEq, exists_eq_left']
      rw [← hpasses]
      -- the request is sent exactly when the check of the prompt passes
      rcases hrun with ⟨hpassed, hrun⟩ | ⟨hstopped, hrun⟩
      · obtain ⟨url, key, rest, hforward, -⟩ := forward_events env st p body
          (checkPrompt env st p ((lastUserText body.messages).getD "") w₁).state
        refine iff_of_true ⟨.sentUpstream url body key, ?_, rfl⟩ hpassed
        rw [hrun, hforward]
        exact List.mem_append_right _ List.mem_cons_self
      · refine iff_of_false ?_ hstopped
        rintro ⟨e, he, hsend⟩
        rw [hrun] at he
        have hno : e.isSend = false := checkPrompt_sends_nothing env st p _ w₁ e he
        rw [hsend] at hno
        cases hno

/-! ## Every prompt -/

/-- The message is a user message with this text, which is not empty. -/
def ChatMessage.SaysText (m : ChatMessage) (t : String) : Prop :=
  m.role = "user" ∧ contentText m.content = some t ∧ t ≠ ""

/-- If the body is sent, the text of every user message is allowed. -/
def ForwardsAllowedPrompts (env : ProxyEnv E) (st : AppState) (headers : HeaderMap)
    (body : ChatCompletionRequest) (w : World) : Prop :=
  (∃ e ∈ (chatCompletions env st headers body w).events, e.isSend = true) →
    ∀ p, (resolve env st headers w).result = .ok p → ∀ m ∈ body.messages, ∀ t, m.SaysText t →
      PromptAllowed env st (env.bundle (w.tick + 1)) p t

/-- **When all prompts of a forwarded body are allowed**: exactly when, once a principal is resolved
and the checked text passes, every other text of a user message is allowed as well. -/
theorem forwards_allowed_prompts_iff (env : ProxyEnv E) (st : AppState) (headers : HeaderMap)
    (body : ChatCompletionRequest) (w : World) :
    ForwardsAllowedPrompts env st headers body w ↔
      ∀ p, (resolve env st headers w).result = .ok p →
        ((lastUserText body.messages).getD "" = "" ∨ PromptAllowed env st
          (env.bundle (w.tick + 1)) p ((lastUserText body.messages).getD "")) →
        ∀ m ∈ body.messages, ∀ t, m.SaysText t → t ≠ (lastUserText body.messages).getD "" →
          PromptAllowed env st (env.bundle (w.tick + 1)) p t := by
  unfold ForwardsAllowedPrompts
  rw [sends_iff]
  constructor
  · intro h p hp hpassed m hm t ht _
    exact h ⟨p, hp, hpassed⟩ p hp m hm t ht
  · rintro h ⟨p', hp', hpassed⟩ p hp m hm t ht
    obtain rfl := Except.ok.inj (hp'.symm.trans hp)
    by_cases heq : t = (lastUserText body.messages).getD ""
    · -- the checked text itself
      rcases hpassed with hempty | hallowed
      · exact absurd (heq.trans hempty) ht.2.2
      · rwa [heq]
    · exact h p' hp hpassed m hm t ht heq

end

/-! ## A proxy for general chat -/

namespace GeneralChat

/-- Everybody may chat, and nothing else is allowed. -/
def policies : List DslPolicy := [⟨"chat", .allow, "READ", "GENERAL_CHAT", [], [], [], [], ""⟩]

def bundle : HotBundle Engine.reference :=
  ⟨(policies.map compile : List Cedar.Policy), "r1", none, none, none, .empty⟩

def state : AppState :=
  AppState.new
    { mode := .development
      requireSignedBundle := false
      policyDir := "data/policies"
      catalogPath := "data/catalog/company_resources.yaml"
      upstream := ⟨"http://localhost", none⟩
      identity := ⟨none, none, true, 300⟩
      connectors := ⟨false, none⟩ }
    ⟨⟨"1.0", [], []⟩, false, false, .development⟩

/-- JSON texts. -/
def readJson (text : String) : Except String Json :=
  match Json.parse text with
  | some v => .ok v
  | none => .error "expected value"

/-- The surroundings with an upstream that gives one reply. -/
def env (reply : UpstreamReply) : ProxyEnv Engine.reference :=
  { jwt := Tokens.lib
    captures := fun _ _ => none
    readJson := readJson
    clock := fun n => ⟨n, n, n⟩
    fresh := fun _ => ⟨"u", "t"⟩
    latencyMs := fun _ => 0
    bundle := fun _ => bundle
    upstream := fun _ _ => .ok reply
    execute := fun _ _ => .error "no connector" }

def bob : Principal := Principal.withRoles "bob" []

def headers : HeaderMap := [("x-paac-user", "bob")]

def world : World := ⟨0, IdentityCache.new 300, ⟨0, 0, 0, 0⟩⟩

/-- A user message with that content. -/
def said (content : Json) : ChatMessage := ⟨"user", some content, none, none, none⟩

def chat (messages : List ChatMessage) : ChatCompletionRequest := ⟨"gpt", messages, none, none⟩

/-- The reply `{}`. -/
def emptyReply : UpstreamReply := ⟨⟨200, by decide⟩, "\x7b\x7d"⟩

theorem resolve_bob (reply : UpstreamReply) :
    (resolve (env reply) state headers world).result = .ok bob := by
  have hresolved : headerPrincipal headers state.cfg = .ok bob := by decide +kernel
  have hnone : bearerToken headers = none := by decide +kernel
  have hcall : resolvePrincipal Tokens.lib headers state.cfg state.jwt world.cache ⟨0, 0, 0⟩ =
      (.ok bob, world.cache) := by
    simp only [resolvePrincipal, hnone, hresolved]
  exact congrArg (fun r => mapErr Halt.error r.1) hcall

/-- A valid request with plain names. -/
def Plain (req : AuthzRequest) : Prop :=
  req.validate = .ok () ∧ isSimpleRequest req = true ∧
    (∀ k ∈ req.context.values.keys, k ∉ builtinNames) ∧
    Cedar.isPlain req.action.name = true ∧ Cedar.isPlain req.resource.kind = true

instance (req : AuthzRequest) : Decidable (Plain req) := inferInstanceAs (Decidable (_ ∧ _))

/-- The decision on a plain request is the one of the records. -/
theorem decide_iff {req : AuthzRequest} (hreq : Plain req) :
    (∃ fresh d, state.engine.decide bundle fresh req = .ok d ∧ d.effect = .allow) ↔
      Grants policies (Facts.of req) := by
  obtain ⟨hvalid, hsimple, havoid, haction, hkind⟩ := hreq
  have hplain : policies.all DslPolicy.plainNames = true := by decide +kernel
  have hset := cedarPolicySetFromDsl_ok (cedarPolicySetFromDsl_reference hplain)
  have hdecided : ∀ {fresh : Fresh} {d : AuthzDecision},
      evaluate Engine.reference fresh req bundle.toEvaluatorConfig = .ok d →
        (d.effect = .allow ↔ Grants policies (Facts.of req)) :=
    fun h => evaluate_compiled Engine.reference_lawful hplain hset havoid haction hkind h
  have hdecide : ∀ fresh, state.engine.decide bundle fresh req =
      mapErr (Halt.mapError fun e => .badRequest e.toText)
        (evaluate Engine.reference fresh req bundle.toEvaluatorConfig) := fun _ => rfl
  constructor
  · rintro ⟨fresh, d, hd, hallow⟩
    rw [hdecide, mapErr_eq_ok] at hd
    exact (hdecided hd).1 hallow
  · intro hgrants
    obtain ⟨d, hd⟩ := evaluate_reference hvalid hsimple ⟨"u", "t"⟩ bundle.toEvaluatorConfig
    exact ⟨⟨"u", "t"⟩, d, by rw [hdecide, hd]; rfl, (hdecided hd).2 hgrants⟩

/-- A prompt is read as a plain request, which is granted or not. -/
def readsAs (r : Except BridgeError AuthzRequest) (granted : Bool) : Bool :=
  match r with
  | .ok req => decide (Plain req) && decide (Grants policies (Facts.of req)) == granted
  | .error _ => false

/-- A prompt is allowed exactly when its reading is granted. -/
theorem promptAllowed_iff {reply : UpstreamReply} {text : String} {granted : Bool}
    (h : readsAs (promptRequest (fun _ _ => none) state.engine.catalog bob text) granted = true) :
    PromptAllowed (env reply) state bundle bob text ↔ granted = true := by
  unfold PromptAllowed
  have henv : (env reply).captures = fun _ _ => none := rfl
  rw [henv]
  generalize promptRequest (fun _ _ => none) state.engine.catalog bob text = r at h ⊢
  cases r with
  | error e => cases h
  | ok req =>
      rw [readsAs, Bool.and_eq_true, decide_eq_true_eq, beq_iff_eq] at h
      rw [← h.2, decide_eq_true_eq, ← decide_iff h.1]
      simp

end GeneralChat

/-- A message with an image only has no text, so it reaches the upstream without a check. -/
theorem image_sent_unchecked :
    ¬SendsAfterAllow (GeneralChat.env GeneralChat.emptyReply) GeneralChat.state
      GeneralChat.headers
      (GeneralChat.chat [GeneralChat.said (.arr [.obj [("type", .str "image_url"),
        ("image_url", .obj [("url", .str "data:,")])]])]) GeneralChat.world := by
  intro hafter
  obtain ⟨url, key, rest, hevents⟩ := @sends_unchecked _ _ _ _
    (GeneralChat.chat [GeneralChat.said (.arr [.obj [("type", .str "image_url"),
      ("image_url", .obj [("url", .str "data:,")])]])]) _ _
    (GeneralChat.resolve_bob GeneralChat.emptyReply) (by decide +kernel)
  obtain ⟨-, -, req, d, hchecked, -⟩ := hafter [] _ rest hevents rfl
  cases hchecked

/-- A denied prompt is delivered in front of a harmless one. -/
theorem denied_prompt_delivered :
    ¬ForwardsAllowedPrompts (GeneralChat.env GeneralChat.emptyReply)
      GeneralChat.state GeneralChat.headers
      (GeneralChat.chat [GeneralChat.said (.str "export payroll"), GeneralChat.said (.str "hi")])
      GeneralChat.world := by
  have hbob := GeneralChat.resolve_bob GeneralChat.emptyReply
  have hlast : (lastUserText (GeneralChat.chat [GeneralChat.said (.str "export payroll"),
      GeneralChat.said (.str "hi")]).messages).getD "" = "hi" := by decide +kernel
  have hallowed := @GeneralChat.promptAllowed_iff GeneralChat.emptyReply
    "hi" true (by decide +kernel)
  have hdenied := @GeneralChat.promptAllowed_iff GeneralChat.emptyReply
    "export payroll" false (by decide +kernel)
  intro hforwards
  have hsent := (@sends_iff _ _ _ _ (GeneralChat.chat [GeneralChat.said (.str "export payroll"),
    GeneralChat.said (.str "hi")]) _).2 ⟨GeneralChat.bob, hbob, Or.inr (hlast ▸ hallowed.2 rfl)⟩
  have hdelivered := hforwards hsent GeneralChat.bob hbob
    (GeneralChat.said (.str "export payroll")) List.mem_cons_self "export payroll"
    ⟨rfl, rfl, by decide⟩
  exact absurd (hdenied.1 hdelivered) (by decide)

end Paac
