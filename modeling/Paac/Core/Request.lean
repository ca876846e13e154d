import Paac.Library.Effect
import Paac.Library.IndexMap

set_option autoImplicit false

/-!
# Authorization requests

The canonical request of the authorization kernel, its validation, and the errors of the kernel with
the texts they print. Validation looks at the id of the principal, the action and the kind, which
must not be blank, and at nothing else: every other string of a request is arbitrary when it reaches
the evaluator.

A computation of the kernel ends with a value, with an error that it returns, or with a panic
(`Halt`). `mapErr` changes the error as `map_err` does and lets a panic pass.
-/

namespace Paac

/-! ## Errors -/

/-- The errors of the kernel. -/
inductive AuthzError where
  | invalidRequest (msg : String)
  | policy (msg : String)
  | cedar (msg : String)
  | entity (msg : String)
  deriving DecidableEq, Repr

/-- The `Display` text. -/
def AuthzError.toText : AuthzError → String
  | .invalidRequest msg => "invalid request: " ++ msg
  | .policy msg => "policy error: " ++ msg
  | .cedar msg => "cedar error: " ++ msg
  | .entity msg => "entity error: " ++ msg

/-- How a computation ends without a value: with an error it returns, or with a panic. -/
inductive Halt (ε : Type) where
  | error (e : ε)
  | panic (msg : String)
  deriving DecidableEq, Repr

/-- Change the error, as `map_err` does; a panic passes through. -/
def Halt.mapError {ε ε' : Type} (f : ε → ε') : Halt ε → Halt ε'
  | .error e => .error (f e)
  | .panic msg => .panic msg

/-- Change the error of a result, as `Result::map_err` does. -/
def mapErr {ε ε' α : Type} (f : ε → ε') : Except ε α → Except ε' α
  | .ok a => .ok a
  | .error e => .error (f e)

@[simp] theorem mapErr_eq_ok {ε ε' α : Type} (f : ε → ε') (r : Except ε α) (a : α) :
    mapErr f r = .ok a ↔ r = .ok a := by
  cases r <;> simp [mapErr]

/-! ## Requests -/

structure Principal where
  id : String
  roles : List String
  groups : List String
  attrs : IndexMap String
  deriving DecidableEq

structure Action where
  name : String
  deriving DecidableEq

structure Resource where
  kind : String
  id : Option String
  attrs : IndexMap String
  deriving DecidableEq

structure Subject where
  id : String
  kind : String
  groups : List String
  attrs : IndexMap String
  deriving DecidableEq

structure ContextMap where
  values : IndexMap String
  deriving DecidableEq

inductive RelationshipKind where
  | managerOf
  | directReports
  | groupMember
  | delegation
  deriving DecidableEq, Repr

structure Relationship where
  kind : RelationshipKind
  «from» : String
  «to» : String
  deriving DecidableEq, Repr

/-- A request; `actingAs` is the agent or service that acts as the principal, `onBehalfOf` the
human who delegated authority. -/
structure AuthzRequest where
  principal : Principal
  action : Action
  resource : Resource
  subject : Option Subject
  context : ContextMap
  relationships : List Relationship
  actingAs : Option String
  onBehalfOf : Option String
  deriving DecidableEq

/-- `Principal::with_roles`. -/
def Principal.withRoles (id : String) (roles : List String) : Principal :=
  ⟨id, roles, [], .empty⟩

/-- `Resource::kind`. -/
def Resource.ofKind (kind : String) : Resource := ⟨kind, none, .empty⟩

/-- `AuthzRequest::validate`. -/
def AuthzRequest.validate (req : AuthzRequest) : Except AuthzError Unit :=
  if (Text.trim req.principal.id).isEmpty then
    .error (.invalidRequest "principal.id is required")
  else if (Text.trim req.action.name).isEmpty then
    .error (.invalidRequest "action.name is required")
  else if (Text.trim req.resource.kind).isEmpty then
    .error (.invalidRequest "resource.kind is required")
  else .ok ()

end Paac
