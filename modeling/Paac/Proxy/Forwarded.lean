import Paac.Proxy.Turns

set_option autoImplicit false

/-!
# What is checked and what is forwarded

The filter forwards a call as it came from the upstream and checks the arguments it reads out of it.
Arguments that are missing, that are no string or that are no JSON are read as the empty object, so
such a call is forwarded when the call without arguments is allowed, and the client makes of its
arguments what it likes.

## Main results

- `toolCallArgs_of_reads`: arguments that can be read are checked as they are.
- `Turn.checked_mem_events`: the check at a turn is that of the arguments read.
- `reads_of_forwards`: where every forwarded call is checked as it is, its arguments can be read.
- `forwards_authorised_iff`: every forwarded call was authorised with its own arguments exactly
  when, if every check comes to a decision, the arguments of every call that is allowed are JSON.
- `broken_arguments_forwarded`: a call with broken arguments is forwarded.
-/

namespace Paac

open Cedar (Engine)

section

variable {E : Engine}

/-- The arguments of the call are a string of JSON that stands for the value. -/
def ReadsArguments (readJson : String → Except String Json) (tc args : Json) : Prop :=
  ∃ text, tc.pointer ["function", "arguments"] = some (.str text) ∧ readJson text = .ok args

theorem toolCallArgs_of_reads {readJson : String → Except String Json} {tc args : Json}
    (h : ReadsArguments readJson tc args) : toolCallArgs readJson tc = args := by
  obtain ⟨text, htext, hread⟩ := h
  have hargs : toolCallArgsText tc = text := by
    rw [toolCallArgsText, htext]
    rfl
  rw [toolCallArgs, hargs, hread]

/-- Every call that is kept has arguments that are JSON; the request with these arguments was allowed,
and the connector got them when tools are executed. -/
def ForwardsAuthorised (env : ProxyEnv E) (st : AppState) (principal : Principal) (tcs : Json)
    (w : World) : Prop :=
  ∀ kept, (filterToolCalls env st principal tcs w).result = .ok kept →
    ∀ tc ∈ kept, ∃ args, ReadsArguments env.readJson tc args ∧
      (∃ d, .checked (st.engine.catalog.authzForTool principal (toolCallName tc) args) d ∈
          (filterToolCalls env st principal tcs w).events ∧ d.effect = .allow) ∧
      (st.cfg.connectors.executeTools = true →
        .executed ⟨((tc.get "id").bind Json.asStr).getD "", toolCallName tc, args⟩ ∈
          (filterToolCalls env st principal tcs w).events)

variable {env : ProxyEnv E} {st : AppState} {principal : Principal}

/-- The turn of an allowed call emits the check that allowed it. -/
theorem Turn.checked_mem_events {t : Turn} (h : t.allowed env st principal = true) :
    ∃ d, .checked (t.request env st principal) d ∈ t.events env st principal ∧
      d.effect = .allow := by
  obtain ⟨d, hd⟩ := Turn.decided_of_allowed h
  refine ⟨d, ?_, (Turn.allowed_iff hd).1 h⟩
  rw [Turn.events, hd]
  exact List.mem_append_left _ (List.mem_append_right _ List.mem_cons_self)

/-- An allowed call is kept, so its arguments are read. -/
theorem reads_of_forwards {tcs : Json} {w : World}
    (h : ForwardsAuthorised env st principal tcs w)
    (hall : AllDecided env st principal (turns env st principal (tcs.asArray.getD []) w.tick))
    {t : Turn} (ht : t ∈ turns env st principal (tcs.asArray.getD []) w.tick)
    (hallowed : t.allowed env st principal = true) :
    ∃ args, ReadsArguments env.readJson t.call args := by
  obtain ⟨hresult, -⟩ := (filterToolCalls_follows tcs w).decided hall
  obtain ⟨args, hreads, -⟩ := h _ hresult t.call (mem_allowedCalls.2 ⟨t, ht, hallowed, rfl⟩)
  exact ⟨args, hreads⟩

end

/-- **When the request that is allowed is the one that is forwarded**: exactly when, if every check
comes to a decision, the arguments of every call that is allowed are JSON. -/
theorem forwards_authorised_iff {E : Engine} (env : ProxyEnv E) (st : AppState)
    (principal : Principal) (tcs : Json) (w : World) :
    ForwardsAuthorised env st principal tcs w ↔
      (AllDecided env st principal (turns env st principal (tcs.asArray.getD []) w.tick) →
        ∀ t ∈ turns env st principal (tcs.asArray.getD []) w.tick,
          t.allowed env st principal = true →
            ∃ args, ReadsArguments env.readJson t.call args) := by
  constructor
  · intro h hall t ht hallowed
    exact reads_of_forwards h hall ht hallowed
  · intro h kept hkept tc htc
    have hfollows := @filterToolCalls_follows _ env st principal tcs w
    by_cases hall : AllDecided env st principal
        (turns env st principal (tcs.asArray.getD []) w.tick)
    · -- the kept calls are the allowed ones, and all turns leave their events
      obtain ⟨hresult, -⟩ := hfollows.decided hall
      obtain rfl := Except.ok.inj (hresult.symm.trans hkept)
      obtain ⟨t, ht, hallowed, rfl⟩ := mem_allowedCalls.1 htc
      obtain ⟨args, hreads⟩ := h hall t ht hallowed
      have hargs := toolCallArgs_of_reads hreads
      rw [hfollows.events, turnLog_eq hall]
      refine ⟨args, hreads, ?_, fun hexecute => ?_⟩
      · obtain ⟨d, hchecked, hallow⟩ := Turn.checked_mem_events hallowed
        rw [Turn.request, hargs] at hchecked
        exact ⟨d, List.mem_flatMap.2 ⟨t, ht, hchecked⟩, hallow⟩
      · refine List.mem_flatMap.2 ⟨t, ht, Turn.executed_mem_events.2 ⟨?_, ?_⟩⟩
        · rw [Turn.executes, hexecute, hallowed, Bool.and_true]
        · rw [connectorCall, hargs]
    · obtain ⟨e, he⟩ := hfollows.failed hall
      rw [he] at hkept
      cases hkept

/-! ## A call with broken arguments -/

namespace Sandbox

/-- Any tool that the catalog does not list may be called. -/
def policies : List DslPolicy :=
  [⟨"sandbox", .allow, "TOOL_INVOKE", "TOOL_UNKNOWN", [], [], [], [], ""⟩]

def bundle : HotBundle Engine.reference :=
  ⟨(policies.map compile : List Cedar.Policy), "r1", none, none, none, .empty⟩

def env : ProxyEnv Engine.reference :=
  { GeneralChat.env GeneralChat.emptyReply with bundle := fun _ => bundle }

/-- The proxy for general chat, which executes tools. -/
def state : AppState :=
  { GeneralChat.state with
    cfg := { GeneralChat.state.cfg with connectors := ⟨true, none⟩ } }

/-- A call with these arguments. -/
def call (arguments : String) : Json :=
  .obj [("id", .str "1"), ("function", .obj [("name", .str "wipe"), ("arguments", .str arguments)])]

/-- The request for the tool without arguments. -/
def request : AuthzRequest :=
  state.engine.catalog.authzForTool GeneralChat.bob "wipe" (.obj [])

/-- A call that is read as one without arguments is allowed. -/
theorem allowed {tc : Json} {n : Nat} (hname : toolCallName tc = "wipe")
    (hargs : toolCallArgs GeneralChat.readJson tc = .obj []) :
    Turn.allowed env state GeneralChat.bob ⟨tc, n⟩ = true := by
  have hplain : policies.all DslPolicy.plainNames = true := by decide +kernel
  obtain ⟨⟨hvalid, hsimple, havoid, haction, hkind⟩, hgrants⟩ :
      GeneralChat.Plain request ∧ Grants policies (Facts.of request) := by decide +kernel
  obtain ⟨d, hd⟩ := evaluate_reference hvalid hsimple ⟨"u", "t"⟩ bundle.toEvaluatorConfig
  have hallow := (evaluate_compiled Engine.reference_lawful hplain
    (cedarPolicySetFromDsl_ok (cedarPolicySetFromDsl_reference hplain)) havoid haction hkind hd).2
      hgrants
  have hrequest : Turn.request env state GeneralChat.bob ⟨tc, n⟩ = request := by
    rw [Turn.request, hname, show toolCallArgs env.readJson tc = .obj [] from hargs, request]
  have hdecision : Turn.decision env state GeneralChat.bob ⟨tc, n⟩ = .ok d := by
    have hdecide : ∀ req, state.engine.decide (env.bundle n) (env.fresh n) req =
        mapErr (Halt.mapError fun e => .badRequest e.toText)
          (evaluate Engine.reference ⟨"u", "t"⟩ req bundle.toEvaluatorConfig) := fun _ => rfl
    rw [Turn.decision, hrequest, hdecide, hd, mapErr]
  exact (Turn.allowed_iff hdecision).2 hallow

end Sandbox

/-- A call whose arguments are cut off is checked as one without arguments, and forwarded. -/
theorem broken_arguments_forwarded :
    ¬ForwardsAuthorised Sandbox.env Sandbox.state GeneralChat.bob
      (.arr [Sandbox.call "\x7b\"path\": \"/"]) GeneralChat.world := by
  have hbroken : ∀ args, GeneralChat.readJson "\x7b\"path\": \"/" ≠ .ok args := by
    have hnone : Json.parse "\x7b\"path\": \"/" = none := by decide +kernel
    intro args hargs
    rw [GeneralChat.readJson, hnone] at hargs
    cases hargs
  have hallowed : Turn.allowed Sandbox.env Sandbox.state GeneralChat.bob
      ⟨Sandbox.call "\x7b\"path\": \"/", GeneralChat.world.tick⟩ = true := by
    refine Sandbox.allowed rfl ?_
    have htext : toolCallArgsText (Sandbox.call "\x7b\"path\": \"/") = "\x7b\"path\": \"/" := rfl
    rw [toolCallArgs, htext]
    cases hread : GeneralChat.readJson "\x7b\"path\": \"/" with
    | ok args => exact absurd hread (hbroken args)
    | error e => rfl
  intro h
  obtain ⟨args, text, htext, hread⟩ := reads_of_forwards h
    (List.forall_mem_singleton.2 (Turn.decided_of_allowed hallowed)) List.mem_cons_self hallowed
  obtain rfl : "\x7b\"path\": \"/" = text := Json.str.inj (Option.some.inj htext)
  exact hbroken args hread

end Paac
