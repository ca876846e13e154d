import Paac.Core.Request

set_option autoImplicit false

/-!
# Building requests

The validated identifiers and the request builder. A builder method that takes an identifier trims
it and rejects an empty one; `principal_obj` only checks the id, and keeps the principal as it came.

The builder is a record of what has been set so far, and each method a function on it that may fail,
so a chain of method calls is a fold over calls. `build` takes the parts that must be there, adds
the delegation chain to the context, and validates the request.

## Main results

- `newId_eq_ok`: what an identifier that is accepted looks like.
- `withResource_ok`: what a builder method keeps.
- `required_eq_ok`: a part that must be there.
- `build_eq_ok`: a request has the parts of the builder that built it.
-/

namespace Paac

/-! ## Identifiers -/

/-- `new` of an identifier newtype: the trimmed value, which must not be empty. -/
def newId (label value : String) : Except AuthzError String :=
  let t := Text.trim value
  if t.isEmpty then .error (.invalidRequest (label ++ " must be non-empty")) else .ok t

/-- `PrincipalId::new`. -/
def PrincipalId.new : String → Except AuthzError String := newId "principal id"

/-- `ResourceKind::new`. -/
def ResourceKind.new : String → Except AuthzError String := newId "resource kind"

/-- `ResourceId::new`. -/
def ResourceId.new : String → Except AuthzError String := newId "resource id"

/-- `DecisionId::new`. -/
def DecisionId.new : String → Except AuthzError String := newId "decision id"

/-- `ActionName::new`. -/
def ActionName.new : String → Except AuthzError String := newId "action name"

/-- `AgentId::new`. -/
def AgentId.new : String → Except AuthzError String := newId "agent id"

theorem newId_eq_ok {label value t : String} (h : newId label value = .ok t) :
    t = Text.trim value ∧ t.isEmpty = false := by
  simp only [newId] at h
  split at h
  · cases h
  · rename_i hne
    obtain rfl := Except.ok.inj h
    exact ⟨rfl, Bool.eq_false_iff.2 hne⟩

/-! ## The builder -/

structure AuthzRequestBuilder where
  principal : Option Principal
  action : Option Action
  resource : Option Resource
  subject : Option Subject
  context : ContextMap
  relationships : List Relationship
  actingAs : Option String
  onBehalfOf : Option String
  delegationChain : List String

namespace AuthzRequestBuilder

/-- `AuthzRequestBuilder::new`. -/
def new : AuthzRequestBuilder := ⟨none, none, none, none, ⟨.empty⟩, [], none, none, []⟩

/-- `principal`. -/
def withPrincipal (b : AuthzRequestBuilder) (id : String) (roles : List String) :
    Except AuthzError AuthzRequestBuilder := do
  let id ← PrincipalId.new id
  return { b with principal := some (Principal.withRoles id roles) }

/-- `principal_obj`: the id is checked, and the principal kept as it is. -/
def principalObj (b : AuthzRequestBuilder) (p : Principal) :
    Except AuthzError AuthzRequestBuilder := do
  let _ ← PrincipalId.new p.id
  return { b with principal := some p }

/-- `agent_principal`. -/
def agentPrincipal (b : AuthzRequestBuilder) (agentId : String) (roles : List String)
    (onBehalfOf : String) : Except AuthzError AuthzRequestBuilder := do
  let agent ← AgentId.new agentId
  let human ← PrincipalId.new onBehalfOf
  return { b with
    principal := some (Principal.withRoles agent roles)
    actingAs := some agent
    onBehalfOf := some human }

/-- `action`. -/
def withAction (b : AuthzRequestBuilder) (name : String) :
    Except AuthzError AuthzRequestBuilder := do
  let a ← ActionName.new name
  return { b with action := some ⟨a⟩ }

/-- `resource_kind`. -/
def resourceKind (b : AuthzRequestBuilder) (kind : String) :
    Except AuthzError AuthzRequestBuilder := do
  let k ← ResourceKind.new kind
  return { b with resource := some (Resource.ofKind k) }

/-- `resource`. -/
def withResource (b : AuthzRequestBuilder) (kind : String) (id : Option String)
    (attrs : IndexMap String) : Except AuthzError AuthzRequestBuilder := do
  let k ← ResourceKind.new kind
  let id ← match id with
    | some i => (ResourceId.new i).map some
    | none => .ok none
  return { b with resource := some ⟨k, id, attrs⟩ }

/-- `subject`. -/
def withSubject (b : AuthzRequestBuilder) (id : String) (groups : List String) :
    Except AuthzError AuthzRequestBuilder := do
  let id ← PrincipalId.new id
  return { b with subject := some ⟨id, "Employee", groups, .empty⟩ }

/-- `context_kv`. -/
def contextKv (b : AuthzRequestBuilder) (k v : String) : AuthzRequestBuilder :=
  { b with context := ⟨b.context.values.insert k v⟩ }

/-- `relationship`. -/
def relationship (b : AuthzRequestBuilder) (rel : Relationship) : AuthzRequestBuilder :=
  { b with relationships := b.relationships ++ [rel] }

/-- `delegation_hop`. -/
def delegationHop (b : AuthzRequestBuilder) (principalId : String) :
    Except AuthzError AuthzRequestBuilder := do
  let id ← PrincipalId.new principalId
  return { b with delegationChain := b.delegationChain ++ [id] }

/-- The context of a built request: a delegation chain that is not empty adds two entries. -/
def builtContext (b : AuthzRequestBuilder) : ContextMap :=
  if b.delegationChain.isEmpty then b.context
  else ⟨(b.context.values.insert "delegation_chain" (Text.join ">" b.delegationChain)).insert
    "delegation_depth" (toString b.delegationChain.length)⟩

/-- The value of a part, or the error that names it. -/
def required {α : Type} (part : Option α) (msg : String) : Except AuthzError α :=
  match part with
  | some a => .ok a
  | none => .error (.invalidRequest msg)

/-- `build`. -/
def build (b : AuthzRequestBuilder) : Except AuthzError AuthzRequest := do
  let principal ← required b.principal "principal required"
  let action ← required b.action "action required"
  let resource ← required b.resource "resource required"
  let req : AuthzRequest :=
    { principal, action, resource
      subject := b.subject
      context := b.builtContext
      relationships := b.relationships
      actingAs := b.actingAs
      onBehalfOf := b.onBehalfOf }
  req.validate
  return req

end AuthzRequestBuilder

theorem required_eq_ok {α : Type} {part : Option α} {msg : String} {a : α}
    (h : AuthzRequestBuilder.required part msg = .ok a) : part = some a := by
  cases part with
  | none => cases h
  | some a' => rw [Except.ok.inj h]

/-- A request has the parts of its builder. -/
theorem build_eq_ok {b : AuthzRequestBuilder} {req : AuthzRequest} (h : b.build = .ok req) :
    b.principal = some req.principal ∧ b.action = some req.action ∧
      b.resource = some req.resource ∧ b.subject = req.subject ∧ b.actingAs = req.actingAs ∧
      b.onBehalfOf = req.onBehalfOf ∧ req.validate = .ok () := by
  rw [AuthzRequestBuilder.build] at h
  obtain ⟨principal, hprincipal, h⟩ := bind_eq_ok.1 h
  obtain ⟨action, haction, h⟩ := bind_eq_ok.1 h
  obtain ⟨resource, hresource, h⟩ := bind_eq_ok.1 h
  obtain ⟨⟨⟩, hvalid, h⟩ := bind_eq_ok.1 h
  obtain rfl := Except.ok.inj h
  exact ⟨required_eq_ok hprincipal, required_eq_ok haction, required_eq_ok hresource, rfl, rfl, rfl, hvalid⟩

/-- A resource is kept with its kind and id trimmed. -/
theorem withResource_ok {b b' : AuthzRequestBuilder} {kind : String} {id : Option String}
    {attrs : IndexMap String} (h : b.withResource kind id attrs = .ok b') :
    b' = { b with resource := some ⟨Text.trim kind, id.map Text.trim, attrs⟩ } := by
  rw [AuthzRequestBuilder.withResource] at h
  obtain ⟨k, hk, h⟩ := bind_eq_ok.1 h
  obtain ⟨rfl, -⟩ := newId_eq_ok hk
  cases id with
  | none =>
      obtain ⟨id', hid, h⟩ := bind_eq_ok.1 h
      rw [← Except.ok.inj h, ← Except.ok.inj hid]
      rfl
  | some i =>
      obtain ⟨id', hid, h⟩ := bind_eq_ok.1 h
      cases hnew : ResourceId.new i with
      | error e => rw [hnew] at hid; cases hid
      | ok t =>
          rw [hnew] at hid
          obtain ⟨rfl, -⟩ := newId_eq_ok hnew
          rw [← Except.ok.inj h, ← Except.ok.inj hid]
          rfl

end Paac
