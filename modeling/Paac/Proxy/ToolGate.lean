import Paac.Proxy.Calls
import Paac.Proxy.PromptGate

set_option autoImplicit false

/-!
# Which tool calls reach the client

The filter checks the entries of `tool_calls` in a reply that is not streamed. A streamed reply, the
older member `function_call` and whatever an entry carries that the filter does not read pass
without a check.

The calls of a response are those its client reads (`Calls.lean`), and a call is allowed when the
engine allows the request that `authz_for_tool` builds for it. The surroundings are held fixed, one
bundle and one reply, so that this means one thing. `PassesAllowedCalls` is the condition: it is
about what the reply of the upstream carries past the filter, and not about what comes out.

## Main results

- `filterToolCall_ok`, `filterEach_ok`, `filterChoice_ok`, `filterChoices_ok`: what is kept at each
  level of a reply, when every call is decided.
- `filterReply_uses`: so the calls that a client reads in a filtered reply.
- `chat_response`: what the handler returns, streamed or not.
- `keptUses_allowed_iff`: when the calls that are kept are all allowed.
- `returns_allowed_calls_iff`: every call that reaches the client is allowed exactly when, once a
  principal is resolved and the prompt passes, what the reply carries past the filter is.
- `denied_call_streamed`: a denied call in a stream reaches the client.
-/

namespace Paac

open Cedar (Engine)

section

variable {E : Engine}

/-- The surroundings with one policy bundle and one reply of the upstream. -/
def ProxyEnv.fixed (env : ProxyEnv E) (hot : HotBundle E) (reply : UpstreamReply) : ProxyEnv E :=
  { env with
    bundle := fun _ => hot
    upstream := fun _ _ => .ok reply }

variable (env : ProxyEnv E) (st : AppState) (hot : HotBundle E) (reply : UpstreamReply)
  (principal : Principal)

/-- The engine decides on the call. -/
def CallDecided (call : ToolUse) : Prop :=
  ∃ fresh d, st.engine.decide hot fresh
    (st.engine.catalog.authzForTool principal call.name call.arguments) = .ok d

/-- The engine allows the call. -/
def CallAllowed (call : ToolUse) : Prop :=
  ∃ fresh d, st.engine.decide hot fresh
    (st.engine.catalog.authzForTool principal call.name call.arguments) = .ok d ∧ d.effect = .allow

open Classical in
/-- The entries that the filter leaves. -/
noncomputable def keptEntries (tcs : List Json) : List Json :=
  tcs.filter fun tc => CallAllowed st hot principal (checkedUse env.readJson tc)

variable {env st hot reply principal}

/-! ## One entry -/

theorem executeAllowed_ok (env : ProxyEnv E) (st : AppState) (tc : Json) (w : World) :
    (executeAllowed env st tc w).result = .ok () := by
  unfold executeAllowed
  split <;> rfl

/-- A decision settles whether the call is allowed. -/
theorem callAllowed_iff {call : ToolUse} {fresh : Fresh} {d : AuthzDecision}
    (h : st.engine.decide hot fresh
      (st.engine.catalog.authzForTool principal call.name call.arguments) = .ok d) :
    CallAllowed st hot principal call ↔ d.effect = .allow := by
  constructor
  · rintro ⟨fresh', d', hd', hallow⟩
    obtain ⟨d'', hd'', heffect⟩ := decide_fresh hd' fresh
    obtain rfl := Except.ok.inj (h.symm.trans hd'')
    exact heffect.trans hallow
  · exact fun hallow => ⟨fresh, d, h, hallow⟩

/-- Entries are kept or dropped one by one. -/
theorem keptEntries_append (env : ProxyEnv E) (st : AppState) (hot : HotBundle E)
    (principal : Principal) (tcs tcs' : List Json) :
    keptEntries env st hot principal (tcs ++ tcs') =
      keptEntries env st hot principal tcs ++ keptEntries env st hot principal tcs' :=
  List.filter_append _ _

theorem keptEntries_singleton {tc : Json} {fresh : Fresh} {d : AuthzDecision}
    (h : st.engine.decide hot fresh (st.engine.catalog.authzForTool principal (toolCallName tc)
      (toolCallArgs env.readJson tc)) = .ok d) :
    keptEntries env st hot principal [tc] = if d.effect = .allow then [tc] else [] := by
  have hiff := @callAllowed_iff _ _ _ _ (checkedUse env.readJson tc) _ _ h
  simp only [keptEntries, List.filter_cons, List.filter_nil, decide_eq_true_eq, hiff]

/-- **One step of the filter.** An entry that is decided is kept exactly when it is allowed. -/
theorem filterToolCall_ok {tc : Json} {w : World} {kept : List Json} :
    (filterToolCall (env.fixed hot reply) st principal tc w).result = .ok kept ↔
      CallDecided st hot principal (checkedUse env.readJson tc) ∧
        kept = keptEntries env st hot principal [tc] := by
  constructor
  · intro h
    obtain ⟨_, -, h⟩ := Eff.bind_result_ok.1 h
    obtain ⟨d, hd, h⟩ := Eff.bind_result_ok.1 h
    rw [check_result, count_tick] at hd
    have hd : st.engine.decide hot (env.fresh w.tick) (st.engine.catalog.authzForTool principal
      (toolCallName tc) (toolCallArgs env.readJson tc)) = .ok d := hd
    refine ⟨⟨_, d, hd⟩, ?_⟩
    rw [keptEntries_singleton hd]
    split at h
    · rename_i hallow
      obtain ⟨_, -, h⟩ := Eff.bind_result_ok.1 h
      obtain ⟨_, -, h⟩ := Eff.bind_result_ok.1 h
      rw [if_pos hallow]
      exact (Except.ok.inj h).symm
    · rename_i hallow
      obtain ⟨_, -, h⟩ := Eff.bind_result_ok.1 h
      rw [if_neg hallow]
      exact (Except.ok.inj h).symm
  · rintro ⟨⟨fresh, d', hd'⟩, rfl⟩
    -- whether a decision exists does not depend on its id and time
    obtain ⟨d, hd, -⟩ := decide_fresh hd' (env.fresh w.tick)
    rw [keptEntries_singleton hd]
    refine Eff.bind_result_ok.2 ⟨(), rfl, Eff.bind_result_ok.2 ⟨d, hd, ?_⟩⟩
    by_cases hallow : d.effect = .allow
    · rw [if_pos hallow, if_pos hallow]
      exact Eff.bind_result_ok.2 ⟨(), rfl,
        Eff.bind_result_ok.2 ⟨(), executeAllowed_ok _ st tc _, rfl⟩⟩
    · rw [if_neg hallow, if_neg hallow]
      exact Eff.bind_result_ok.2 ⟨(), rfl, rfl⟩

/-- **A run of the filter** keeps the allowed entries, when all are decided. -/
theorem filterEach_ok {tcs : List Json} : ∀ {w : World} {kept : List Json},
    (filterEach (env.fixed hot reply) st principal tcs w).result = .ok kept ↔
      (∀ tc ∈ tcs, CallDecided st hot principal (checkedUse env.readJson tc)) ∧
        kept = keptEntries env st hot principal tcs := by
  induction tcs with
  | nil =>
      intro w kept
      constructor
      · intro h
        exact ⟨fun tc htc => absurd htc List.not_mem_nil, (Except.ok.inj h).symm⟩
      · rintro ⟨-, rfl⟩
        rfl
  | cons tc tcs ih =>
      intro w kept
      -- the kept entries are taken one call at a time
      have hsplit : keptEntries env st hot principal (tc :: tcs) =
          keptEntries env st hot principal [tc] ++ keptEntries env st hot principal tcs :=
        keptEntries_append env st hot principal [tc] tcs
      rw [hsplit, List.forall_mem_cons]
      constructor
      · intro h
        obtain ⟨first, hfirst, h⟩ := Eff.bind_result_ok.1 h
        obtain ⟨rest, hrest, h⟩ := Eff.bind_result_ok.1 h
        obtain ⟨hdecided, rfl⟩ := filterToolCall_ok.1 hfirst
        obtain ⟨hall, rfl⟩ := ih.1 hrest
        exact ⟨⟨hdecided, hall⟩, (Except.ok.inj h).symm⟩
      · rintro ⟨⟨hdecided, hall⟩, rfl⟩
        exact Eff.bind_result_ok.2 ⟨_, filterToolCall_ok.2 ⟨hdecided, rfl⟩,
          Eff.bind_result_ok.2 ⟨_, ih.2 ⟨hall, rfl⟩, rfl⟩⟩

/-! ## Choices and replies -/

/-- A message whose calls are replaced has the calls that are left, and its older member. -/
theorem messageEntries_replaceToolCalls {msg tcs : Json} (h : msg.get "tool_calls" = some tcs)
    (kept : List Json) : messageEntries (replaceToolCalls msg kept) = kept := by
  obtain ⟨ms, rfl⟩ := Json.get_obj_of_some h
  unfold messageEntries replaceToolCalls
  split
  · rename_i hempty
    rw [Json.get_setMember_ne (by decide), Json.get_removeMember_self, List.isEmpty_iff.1 hempty]
    rfl
  · rw [Json.get_setMember_self]
    rfl

theorem legacyUse_replaceToolCalls (readJson : String → Except String Json) (msg : Json)
    (kept : List Json) : legacyUse readJson (replaceToolCalls msg kept) = legacyUse readJson msg := by
  unfold legacyUse replaceToolCalls
  split
  · rw [Json.get_setMember_ne (by decide), Json.get_removeMember_ne (by decide)]
  · rw [Json.get_setMember_ne (by decide)]

/-- The entries of a choice. -/
def choiceEntries (choice : Json) : List Json := messageEntries (choiceMessage choice)

variable (env st hot principal) in
/-- The calls that the filter leaves of a choice. -/
noncomputable def keptUses (choice : Json) : List ToolUse :=
  (keptEntries env st hot principal (choiceEntries choice)).flatMap (entryUses env.readJson) ++
    legacyUse env.readJson (choiceMessage choice)

variable (st hot principal) in
/-- All entries of a choice are decided. -/
def EntriesDecided (readJson : String → Except String Json) (choice : Json) : Prop :=
  ∀ tc ∈ choiceEntries choice, CallDecided st hot principal (checkedUse readJson tc)

/-- What is kept of a list of calls, when all of them are decided. -/
theorem filterToolCalls_ok {tcs : Json} {w : World} {kept : List Json} :
    (filterToolCalls (env.fixed hot reply) st principal tcs w).result = .ok kept ↔
      (∀ tc ∈ tcs.asArray.getD [], CallDecided st hot principal (checkedUse env.readJson tc)) ∧
        kept = keptEntries env st hot principal (tcs.asArray.getD []) := by
  unfold filterToolCalls
  split
  · exact filterEach_ok
  · rename_i hnone
    have hempty : tcs.asArray.getD [] = [] := by
      cases tcs with
      | arr items => exact absurd rfl (hnone items)
      | null => rfl
      | bool b => rfl
      | num t => rfl
      | str s => rfl
      | obj ms => rfl
    rw [hempty]
    constructor
    · intro h
      exact ⟨fun tc htc => absurd htc List.not_mem_nil, (Except.ok.inj h).symm⟩
    · rintro ⟨-, rfl⟩
      rfl

/-- One choice: it comes back when its entries are decided, with the calls that are left. -/
theorem filterChoice_ok {choice : Json} {w : World} :
    ((∃ c, (filterChoice (env.fixed hot reply) st principal choice w).result = .ok c) ↔
      EntriesDecided st hot principal env.readJson choice) ∧
    ∀ c, (filterChoice (env.fixed hot reply) st principal choice w).result = .ok c →
      choiceUses env.readJson c = keptUses env st hot principal choice := by
  have hnone : choiceEntries choice = [] →
      ((∃ c, ((pure choice : Handler Json) w).result = .ok c) ↔
        EntriesDecided st hot principal env.readJson choice) ∧
      ∀ c, ((pure choice : Handler Json) w).result = .ok c →
        choiceUses env.readJson c = keptUses env st hot principal choice := by
    intro hempty
    refine ⟨iff_of_true ⟨choice, rfl⟩ fun tc htc => ?_, fun c hc => ?_⟩
    · rw [hempty] at htc
      cases htc
    · obtain rfl := Except.ok.inj hc
      rw [keptUses, choiceUses, hempty, ← choiceEntries, hempty]
      rfl
  unfold filterChoice
  -- the source returns the choice unchanged on the first two paths
  cases hmsg : choice.get "message" with
  | none => exact hnone (by rw [choiceEntries, choiceMessage, hmsg]; rfl)
  | some msg =>
      have hmessage : choiceMessage choice = msg := by rw [choiceMessage, hmsg, Option.getD_some]
      dsimp only
      cases htcs : msg.get "tool_calls" with
      | none => exact hnone (by rw [choiceEntries, hmessage, messageEntries, htcs]; rfl)
      | some tcs =>
          have hentries : choiceEntries choice = tcs.asArray.getD [] := by
            rw [choiceEntries, hmessage, messageEntries, htcs, Option.bind_some]
          obtain ⟨ms, rfl⟩ := Json.get_obj_of_some hmsg
          constructor
          · rw [EntriesDecided, hentries]
            constructor
            · rintro ⟨c, hc⟩
              obtain ⟨kept, hkept, -⟩ := Eff.bind_result_ok.1 hc
              exact (filterToolCalls_ok.1 hkept).1
            · exact fun hall => ⟨_, Eff.bind_result_ok.2 ⟨_, filterToolCalls_ok.2 ⟨hall, rfl⟩, rfl⟩⟩
          · intro c hc
            obtain ⟨kept, hkept, hc⟩ := Eff.bind_result_ok.1 hc
            obtain ⟨-, rfl⟩ := filterToolCalls_ok.1 hkept
            obtain rfl := Except.ok.inj hc
            rw [choiceUses, choiceMessage, Json.get_setMember_self, Option.getD_some,
              messageEntries_replaceToolCalls htcs, legacyUse_replaceToolCalls, keptUses, hentries,
              hmessage]

/-- All choices in a row. -/
theorem filterChoices_ok {choices : List Json} : ∀ {w : World},
    ((∃ cs, (filterChoices (env.fixed hot reply) st principal choices w).result = .ok cs) ↔
      ∀ choice ∈ choices, EntriesDecided st hot principal env.readJson choice) ∧
    ∀ cs, (filterChoices (env.fixed hot reply) st principal choices w).result = .ok cs →
      cs.flatMap (choiceUses env.readJson) = choices.flatMap (keptUses env st hot principal) := by
  induction choices with
  | nil =>
      intro w
      refine ⟨iff_of_true ⟨[], rfl⟩ fun c hc => absurd hc List.not_mem_nil, fun cs hcs => ?_⟩
      obtain rfl := Except.ok.inj hcs
      rfl
  | cons choice choices ih =>
      intro w
      rw [List.forall_mem_cons]
      constructor
      · constructor
        · rintro ⟨cs, hcs⟩
          obtain ⟨first, hfirst, hcs⟩ := Eff.bind_result_ok.1 hcs
          obtain ⟨rest, hrest, -⟩ := Eff.bind_result_ok.1 hcs
          exact ⟨filterChoice_ok.1.1 ⟨first, hfirst⟩, ih.1.1 ⟨rest, hrest⟩⟩
        · rintro ⟨hdecided, hall⟩
          obtain ⟨first, hfirst⟩ := (@filterChoice_ok _ _ _ _ reply _ _ w).1.2 hdecided
          -- the rest is filtered from the state the first choice leaves
          obtain ⟨rest, hrest⟩ := (ih (w := (filterChoice (env.fixed hot reply) st principal choice
            w).state)).1.2 hall
          exact ⟨_, Eff.bind_result_ok.2 ⟨_, hfirst, Eff.bind_result_ok.2 ⟨_, hrest, rfl⟩⟩⟩
      · intro cs hcs
        obtain ⟨first, hfirst, hcs⟩ := Eff.bind_result_ok.1 hcs
        obtain ⟨rest, hrest, hcs⟩ := Eff.bind_result_ok.1 hcs
        obtain rfl := Except.ok.inj hcs
        rw [List.flatMap_cons, List.flatMap_cons, filterChoice_ok.2 _ hfirst, ih.2 _ hrest]

/-- **What the filter leaves of a reply**: the entries that are allowed, and the older members as
they are. -/
theorem filterReply_uses {json : Json} {w : World} :
    ((∃ j, (filterReply (env.fixed hot reply) st principal json w).result = .ok j) ↔
      ∀ choice ∈ replyChoices json, EntriesDecided st hot principal env.readJson choice) ∧
    ∀ j, (filterReply (env.fixed hot reply) st principal json w).result = .ok j →
      replyUses env.readJson j = (replyChoices json).flatMap (keptUses env st hot principal) := by
  unfold filterReply
  -- a reply without choices is passed on as it is
  cases hchoices : (json.get "choices").bind Json.asArray with
  | none =>
      have hempty : replyChoices json = [] := by rw [replyChoices, hchoices, Option.getD_none]
      rw [hempty]
      refine ⟨iff_of_true ⟨json, rfl⟩ fun c hc => absurd hc List.not_mem_nil, fun j hj => ?_⟩
      obtain rfl := Except.ok.inj hj
      rw [replyUses, hempty]
      rfl
  | some choices =>
      have hall : replyChoices json = choices := by rw [replyChoices, hchoices, Option.getD_some]
      obtain ⟨v, hv, -⟩ := Option.bind_eq_some_iff.1 hchoices
      obtain ⟨ms, rfl⟩ := Json.get_obj_of_some hv
      rw [hall]
      constructor
      · rw [← (@filterChoices_ok _ env _ _ reply _ _ w).1]
        constructor
        · rintro ⟨j, hj⟩
          obtain ⟨cs, hcs, -⟩ := Eff.bind_result_ok.1 hj
          exact ⟨cs, hcs⟩
        · exact fun ⟨cs, hcs⟩ => ⟨_, Eff.bind_result_ok.2 ⟨cs, hcs, rfl⟩⟩
      · intro j hj
        obtain ⟨cs, hcs, hj⟩ := Eff.bind_result_ok.1 hj
        obtain rfl := Except.ok.inj hj
        rw [replyUses, replyChoices, Json.get_setMember_self]
        exact filterChoices_ok.2 _ hcs

/-! ## Responses -/

/-- A streamed reply is passed on as it is. -/
theorem forward_streamed {body : ChatCompletionRequest} (h : body.stream = some true) {w : World} :
    (forward (env.fixed hot reply) st principal body w).result =
      .ok ⟨reply.status, .stream reply.text⟩ := by
  refine Eff.bind_result_ok.2 ⟨(), rfl, Eff.bind_result_ok.2 ⟨reply, rfl, ?_⟩⟩
  rw [if_pos h]
  rfl

/-- Any other reply is read and filtered. -/
theorem forward_filtered {body : ChatCompletionRequest} (h : body.stream ≠ some true) (w : World) :
    ∃ w', ∀ response, (forward (env.fixed hot reply) st principal body w).result = .ok response ↔
      ∃ json, env.readJson reply.text = .ok json ∧
        ∃ j, (filterReply (env.fixed hot reply) st principal json w').result = .ok j ∧
          response = ⟨reply.status, .json j⟩ := by
  refine ⟨{ w with
    tick := w.tick + 1
    metrics := { w.metrics with upstreamCalls := w.metrics.upstreamCalls + 1 } },
    fun response => ⟨fun hok => ?_, ?_⟩⟩
  · obtain ⟨_, -, hok⟩ := Eff.bind_result_ok.1 hok
    obtain ⟨reply', hreply, hok⟩ := Eff.bind_result_ok.1 hok
    obtain rfl : reply = reply' := Except.ok.inj hreply
    rw [if_neg h] at hok
    obtain ⟨json, hjson, hok⟩ := Eff.bind_result_ok.1 hok
    obtain ⟨j, hj, hok⟩ := Eff.bind_result_ok.1 hok
    rw [Eff.lift_apply, mapErr_eq_ok] at hjson
    exact ⟨json, hjson, j, hj, (Except.ok.inj hok).symm⟩
  · rintro ⟨json, hjson, j, hj, rfl⟩
    refine Eff.bind_result_ok.2 ⟨(), rfl, Eff.bind_result_ok.2 ⟨reply, rfl, ?_⟩⟩
    rw [if_neg h]
    refine Eff.bind_result_ok.2 ⟨json, ?_, Eff.bind_result_ok.2 ⟨j, hj, rfl⟩⟩
    rw [Eff.lift_apply, mapErr_eq_ok]
    exact hjson

/-- Behind a prompt that passes the response is the one of forwarding. -/
theorem chat_response {headers : HeaderMap} {body : ChatCompletionRequest} {w : World} {p : Principal}
    (hp : (resolve env st headers w).result = .ok p)
    (hpassed : (lastUserText body.messages).getD "" = "" ∨
      PromptAllowed env st hot p ((lastUserText body.messages).getD "")) :
    ∃ w', (chatCompletions (env.fixed hot reply) st headers body w).result =
      (forward (env.fixed hot reply) st p body w').result := by
  have hp' : (resolve (env.fixed hot reply) st headers w).result = .ok p := hp
  have hprompt : (checkPrompt (env.fixed hot reply) st p ((lastUserText body.messages).getD "")
      (resolve (env.fixed hot reply) st headers w).state).result = .ok () :=
    checkPrompt_passes_iff.2 hpassed
  refine ⟨(checkPrompt (env.fixed hot reply) st p ((lastUserText body.messages).getD "")
    (resolve (env.fixed hot reply) st headers w).state).state, ?_⟩
  rw [chatCompletions, Eff.bind_ok hp', Eff.bind_ok hprompt]
  rfl

end

/-! ## The gate -/

section

variable {E : Engine} (env : ProxyEnv E) (st : AppState) (hot : HotBundle E) (reply : UpstreamReply)

/-- Every call of a returned response is allowed. -/
def ReturnsAllowedCalls (headers : HeaderMap) (body : ChatCompletionRequest) (w : World) : Prop :=
  ∀ p response, (resolve env st headers w).result = .ok p →
    (chatCompletions (env.fixed hot reply) st headers body w).result = .ok response →
      ∀ call ∈ response.uses env.readJson, CallAllowed st hot p call

/-- What the reply carries past the filter is allowed: every call of a streamed reply; of another
reply, when its entries are decided, every older member, and what a client reads in an entry that is
no plain function call and that passes as what the check reads in it. -/
def PassesAllowedCalls (p : Principal) (stream : Option Bool) : Prop :=
  if stream = some true then
    ∀ call ∈ streamUses env.readJson reply.text, CallAllowed st hot p call
  else ∀ json, env.readJson reply.text = .ok json →
    (∀ choice ∈ replyChoices json, EntriesDecided st hot p env.readJson choice) →
      ∀ choice ∈ replyChoices json,
        (∀ call ∈ legacyUse env.readJson (choiceMessage choice), CallAllowed st hot p call) ∧
        ∀ tc ∈ choiceEntries choice, ¬IsFunctionCall tc →
          CallAllowed st hot p (checkedUse env.readJson tc) →
            ∀ call ∈ entryUses env.readJson tc, CallAllowed st hot p call

variable {env st hot}

/-- The calls kept of a choice are allowed exactly when those are that the check does not read. -/
theorem keptUses_allowed_iff {p : Principal} {choice : Json} :
    (∀ call ∈ keptUses env st hot p choice, CallAllowed st hot p call) ↔
      (∀ call ∈ legacyUse env.readJson (choiceMessage choice), CallAllowed st hot p call) ∧
      ∀ tc ∈ choiceEntries choice, ¬IsFunctionCall tc →
        CallAllowed st hot p (checkedUse env.readJson tc) →
          ∀ call ∈ entryUses env.readJson tc, CallAllowed st hot p call := by
  have hmem : ∀ call, call ∈ keptUses env st hot p choice ↔
      (∃ tc ∈ choiceEntries choice, CallAllowed st hot p (checkedUse env.readJson tc) ∧
        call ∈ entryUses env.readJson tc) ∨
      call ∈ legacyUse env.readJson (choiceMessage choice) := by
    intro call
    simp only [keptUses, keptEntries, List.mem_append, List.mem_flatMap, List.mem_filter,
      decide_eq_true_eq, and_assoc]
  constructor
  · intro h
    exact ⟨fun call hcall => h call ((hmem call).2 (Or.inr hcall)),
      fun tc htc _ hallowed call hcall => h call ((hmem call).2 (Or.inl ⟨tc, htc, hallowed, hcall⟩))⟩
  · rintro ⟨hlegacy, hentries⟩ call hcall
    rcases (hmem call).1 hcall with ⟨tc, htc, hallowed, hcall⟩ | hcall
    · by_cases hfunction : IsFunctionCall tc
      · -- client and check read the same request
        obtain ⟨fresh, d, hd, hallow⟩ := hallowed
        exact ⟨fresh, d, by rw [entryUses_function hfunction _ _ call hcall]; exact hd, hallow⟩
      · exact hentries tc htc hfunction hallowed call hcall
    · exact hlegacy call hcall

/-- **When every call that reaches the client is allowed**: exactly when, once a principal is resolved
and the prompt passes, what the reply carries past the filter is allowed. -/
theorem returns_allowed_calls_iff {E : Engine} (env : ProxyEnv E) (st : AppState)
    (hot : HotBundle E) (reply : UpstreamReply) (headers : HeaderMap)
    (body : ChatCompletionRequest) (w : World) :
    ReturnsAllowedCalls env st hot reply headers body w ↔
      ∀ p, (resolve env st headers w).result = .ok p →
        ((lastUserText body.messages).getD "" = "" ∨
          PromptAllowed env st hot p ((lastUserText body.messages).getD "")) →
        PassesAllowedCalls env st hot reply p body.stream := by
  constructor
  · intro h p hp hpassed
    obtain ⟨w₁, hchat⟩ := @chat_response _ _ _ _ reply _ body _ _ hp hpassed
    unfold PassesAllowedCalls
    split
    · rename_i hstream
      -- a streamed reply is passed on as it came
      have hresponse := hchat.trans (forward_streamed hstream)
      exact h p _ hp hresponse
    · rename_i hstream
      intro json hjson hdecided choice hchoice
      obtain ⟨w₂, hforward⟩ := @forward_filtered _ env st hot reply p _
        hstream w₁
      obtain ⟨j, hj⟩ := (@filterReply_uses _ _ _ _ reply _ _ w₂).1.2 hdecided
      have hresponse := hchat.trans ((hforward _).2 ⟨json, hjson, j, hj, rfl⟩)
      have hall := h p _ hp hresponse
      have huses : Response.uses env.readJson ⟨reply.status, .json j⟩ =
          (replyChoices json).flatMap (keptUses env st hot p) := filterReply_uses.2 j hj
      rw [huses] at hall
      exact keptUses_allowed_iff.1 fun call hcall =>
        hall call (List.mem_flatMap.2 ⟨choice, hchoice, hcall⟩)
  · intro h p response hp hresponse call hcall
    -- a response means that the prompt has passed its check
    have hpassed : (lastUserText body.messages).getD "" = "" ∨
        PromptAllowed env st hot p ((lastUserText body.messages).getD "") := by
      obtain ⟨p', hp', hrest⟩ := Eff.bind_result_ok.1 hresponse
      obtain ⟨_, hprompt, -⟩ := Eff.bind_result_ok.1 hrest
      have hp'' : (resolve env st headers w).result = .ok p' := hp'
      obtain rfl := Except.ok.inj (hp.symm.trans hp'')
      exact checkPrompt_passes_iff.1 hprompt
    obtain ⟨w₁, hchat⟩ := @chat_response _ _ _ _ reply _ body _ _ hp hpassed
    have hpass := h p hp hpassed
    unfold PassesAllowedCalls at hpass
    rw [hchat] at hresponse
    split at hpass
    · rename_i hstream
      rw [forward_streamed hstream] at hresponse
      obtain rfl := Except.ok.inj hresponse
      exact hpass call hcall
    · rename_i hstream
      obtain ⟨w₂, hforward⟩ := @forward_filtered _ env st hot reply p _
        hstream w₁
      obtain ⟨json, hjson, j, hj, rfl⟩ := (hforward response).1 hresponse
      have hdecided := filterReply_uses.1.1 ⟨j, hj⟩
      have huses : Response.uses env.readJson ⟨reply.status, .json j⟩ =
          (replyChoices json).flatMap (keptUses env st hot p) := filterReply_uses.2 j hj
      rw [huses, List.mem_flatMap] at hcall
      obtain ⟨choice, hchoice, hcall⟩ := hcall
      exact keptUses_allowed_iff.2 (hpass json hjson hdecided choice hchoice) call hcall

end

/-- A chunk that calls a tool which is denied. -/
def wipeChunk : String :=
  "\x7b\"choices\":[\x7b\"delta\":\x7b\"tool_calls\":[\x7b\"function\":\x7b\"name\":\"wipe\",\"arguments\":\"\x7b\x7d\"\x7d\x7d]\x7d\x7d]\x7d"

/-- A reply that streams the chunk. -/
def wipeReply : UpstreamReply := ⟨GeneralChat.emptyReply.status, EventStream.write [wipeChunk]⟩

/-- The client of a stream receives the call of a tool that is denied. -/
theorem denied_call_streamed :
    ¬ReturnsAllowedCalls (GeneralChat.env wipeReply) GeneralChat.state GeneralChat.bundle wipeReply
      GeneralChat.headers
      { GeneralChat.chat [GeneralChat.said (.str "hi")] with stream := some true }
      GeneralChat.world := by
  have hdenied : ∃ call ∈ streamUses GeneralChat.readJson wipeReply.text,
      GeneralChat.Plain (GeneralChat.state.engine.catalog.authzForTool GeneralChat.bob call.name
        call.arguments) ∧
      ¬Grants GeneralChat.policies (Facts.of (GeneralChat.state.engine.catalog.authzForTool
        GeneralChat.bob call.name call.arguments)) := by
    have hchunks : streamChunks GeneralChat.readJson wipeReply.text =
        [wipeChunk].filterMap fun data => (GeneralChat.readJson data).toOption :=
      streamChunks_write _ (by decide +kernel)
    rw [streamUses, hchunks]
    decide +kernel
  have hallowed := @GeneralChat.promptAllowed_iff wipeReply "hi" true
    (by decide +kernel)
  have hlast : (lastUserText (GeneralChat.chat [GeneralChat.said (.str "hi")]).messages).getD "" =
      "hi" := by decide +kernel
  have hbob := GeneralChat.resolve_bob wipeReply
  obtain ⟨call, hcall, hplain, hgrants⟩ := hdenied
  obtain ⟨w₁, hchat⟩ := @chat_response _ _ _ GeneralChat.bundle wipeReply _
    { GeneralChat.chat [GeneralChat.said (.str "hi")] with stream := some true } _ _ hbob
    (Or.inr (hlast ▸ hallowed.2 rfl))
  intro hgate
  have hreturned := hgate GeneralChat.bob _ hbob (hchat.trans (forward_streamed rfl)) call hcall
  exact hgrants ((GeneralChat.decide_iff hplain).1 hreturned)

end Paac
