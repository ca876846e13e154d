import Paac.Proxy.Chat

set_option autoImplicit false

/-!
# The other deciding endpoints

`check` and `retrieve` ask the engine. The hooks for MCP tool calls and for messages between agents
load the configuration of the evaluator from the bundle cache and evaluate on their own: past the
guard for signatures, and past the queue for audit records. Both differences are visible here, since
`evaluateOnCache` does nothing but read the bundle and evaluate.

A decision that is made past the engine is an event all the same, so that it can be compared with
the records.
-/

namespace Paac

open Cedar (Engine)

variable {E : Engine} (env : ProxyEnv E) (st : AppState)

/-! ## Endpoints of the engine -/

/-- `AuthzEngine::is_ready`. -/
def AuthzEngine.isReady (eng : AuthzEngine) (hot : HotBundle E) : Except ProxyError Unit :=
  if eng.requireSigned && hot.policySignature.isNone then
    .error (.notReady "signed bundle not loaded")
  else .ok ()

/-- `AuthzEngine::allow_or_forbid`. -/
def allowOrForbid (req : AuthzRequest) : Handler AuthzDecision := do
  let d ← st.engine.check env req
  if d.effect = .allow then return d
  else Handler.error (.forbidden ("PAAC denied " ++ req.action.name ++ " on " ++ req.resource.kind)
    d.evidence.decisionId d)

/-- `retrieve`. -/
def retrieve (headers : HeaderMap) (body : RetrieveRequest) : Handler Json := do
  let principal ← resolve env st headers
  let _ ← allowOrForbid env st
    (st.engine.catalog.authzForRetrieve principal body.collection body.documentId)
  return .obj [("chunks", .arr []), ("collection", .str body.collection),
    ("note", .str "authz ALLOW — connector would return chunks here")]

/-- `check`; it takes the whole request from the caller. -/
def checkRoute (req : AuthzRequest) : Handler AuthzDecision := do
  Handler.count fun m => { m with checksTotal := m.checksTotal + 1 }
  let d ← st.engine.check env req
  if d.effect = .allow then Handler.count fun m => { m with allowsTotal := m.allowsTotal + 1 }
  else Handler.count fun m => { m with deniesTotal := m.deniesTotal + 1 }
  return d

/-! ## Endpoints past the engine -/

/-- Evaluate on the bundle in the cache. -/
def evaluateOnCache (req : AuthzRequest) : Handler AuthzDecision := fun w =>
  let r := mapErr (Halt.mapError fun e => ProxyError.badRequest e.toText)
    (evaluate E (env.fresh w.tick) req (env.bundle w.tick).toEvaluatorConfig)
  let events := match r with
    | .ok d => [.evaluated req d]
    | .error _ => []
  ⟨r, { w with tick := w.tick + 1 }, events⟩

structure McpCallParams where
  name : String
  arguments : Json

/-- `Uuid::new_v4`. -/
def newUuid : Handler String := fun w =>
  ⟨.ok (env.fresh w.tick).uuid, { w with tick := w.tick + 1 }, []⟩

/-- `mcp_tools_call`. -/
def mcpToolsCall (headers : HeaderMap) (params : McpCallParams) : Handler Json := do
  let principal ← resolve env st headers
  -- the policies are evaluated past the engine, so nothing is recorded
  let decision ← evaluateOnCache env
    (st.engine.catalog.authzForTool principal params.name params.arguments)
  if decision.effect = .allow then do
    let id ← newUuid env
    let data ← executeCall env ⟨id, params.name, params.arguments⟩
    let data ← Eff.lift (mapErr (fun e => .error (.internal e)) data)
    return .obj [("content", data), ("decision_id", .str decision.evidence.decisionId)]
  else Handler.error (.forbidden "MCP tools/call denied" decision.evidence.decisionId decision)

structure A2aMessage where
  fromAgent : String
  toAgent : String
  skill : String
  delegationChain : List String
  deriving DecidableEq, Repr

/-- The request for a message between agents. -/
def a2aRequest (principal : Principal) (msg : A2aMessage) : AuthzRequest :=
  { principal
    action := ⟨"A2A_SEND"⟩
    resource := ⟨"AGENT_MESSAGE", some msg.toAgent, IndexMap.empty.insert "skill" msg.skill⟩
    subject := none
    context := ⟨.ofList [("from_agent", msg.fromAgent), ("to_agent", msg.toAgent),
      ("skill", msg.skill), ("delegation_chain", Text.join ">" msg.delegationChain),
      ("delegation_depth", toString msg.delegationChain.length)]⟩
    relationships := []
    actingAs := some msg.fromAgent
    -- the chain is the one that the message states
    onBehalfOf := msg.delegationChain.head? }

structure A2aAuthzResult where
  allowed : Bool
  decision : AuthzDecision
  deriving DecidableEq

/-- `a2a_authorize`. -/
def a2aAuthorize (headers : HeaderMap) (msg : A2aMessage) : Handler A2aAuthzResult := do
  let principal ← resolve env st headers
  let decision ← evaluateOnCache env (a2aRequest principal msg)
  return ⟨decision.effect = .allow, decision⟩

end Paac
