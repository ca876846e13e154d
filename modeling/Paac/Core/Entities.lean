import Paac.Core.Request
import Paac.Library.Cedar.Engine

set_option autoImplicit false

/-!
# Entities of a request

The Cedar entities built from a request, its relationship edges and the group memberships the
evaluator is configured with. Hash maps are entry lists and hash sets are lists without repetition;
nothing depends on their order. The two attribute builders splice text into a Cedar expression and
panic when it does not parse.

The definitions follow `build_entities` loop by loop. `collectEdges` runs over the relationship
edges and then over the configured groups; the entities of the principal, the subject, the resource,
the groups and the action are built from what it collected and inserted in that order. An entity
with the id of an earlier one is not inserted, as in a hash set of entities that compare by id.
Panics are a result of their own (`Halt`), so that a run that panics is told from one that returns
an error.
-/

namespace Paac

open Cedar (Engine Entity EntityUid Value)

/-- What the entities are built from; `groupMembers` maps a group to its member ids. -/
structure EntityBuildInput where
  request : AuthzRequest
  groupMembers : IndexMap (List String)

section

variable (E : Engine)

/-- An entity id with a type name that the engine accepts; `mk` is the error of the caller. -/
def entityUid (mk : String → AuthzError) (typeName id : String) : Except AuthzError EntityUid :=
  match E.entityTypeName typeName with
  | .ok tn => .ok ⟨tn, id⟩
  | .error e => .error (mk ("type " ++ typeName ++ ": " ++ e))

/-- `uid` of the entity builder; its error is an entity error. -/
def Entities.uid (typeName id : String) : Except (Halt AuthzError) EntityUid :=
  mapErr .error (entityUid E .entity typeName id)

/-- A string between quotes, with the quotes inside it escaped and nothing else. -/
def quoteAttr (v : String) : String := "\"" ++ Text.replaceChar '"' "\\\"" v ++ "\""

/-- `str_attr`. -/
def strAttr (v : String) : Except (Halt AuthzError) Value :=
  match E.restrictedExpression (quoteAttr v) with
  | .ok e => .ok e
  | .error _ => .error (.panic "string attr")

/-- `set_attr`. -/
def setAttr (vals : List String) : Except (Halt AuthzError) Value :=
  match E.restrictedExpression ("[" ++ Text.join ", " (vals.map quoteAttr) ++ "]") with
  | .ok e => .ok e
  | .error _ => .error (.panic "set attr")

/-! ## Edges -/

/-- The edges collected from relationships and group memberships. -/
structure Edges where
  parents : List (String × List EntityUid)
  managerOf : List (String × List String)
  directReports : List (String × List String)
  groupLinks : List (String × List String)

/-- `entry(k).or_default().push(v)`. -/
def pushEntry (k v : String) (m : List (String × List String)) : List (String × List String) :=
  insertEntry k (((lookupEntry k m).getD []) ++ [v]) m

/-- `HashSet::insert` of an entity id. -/
def insertUid (u : EntityUid) (us : List EntityUid) : List EntityUid :=
  if u ∈ us then us else us ++ [u]

/-- `entry(k).or_default().insert(u)`. -/
def addParent (k : String) (u : EntityUid) (m : List (String × List EntityUid)) :
    List (String × List EntityUid) :=
  insertEntry k (insertUid u ((lookupEntry k m).getD [])) m

/-- One relationship edge. -/
def edgeStep (g : Edges) (rel : Relationship) : Except (Halt AuthzError) Edges :=
  match rel.kind with
  | .managerOf => .ok { g with managerOf := pushEntry rel.«from» rel.«to» g.managerOf }
  | .directReports => .ok { g with directReports := pushEntry rel.«from» rel.«to» g.directReports }
  | .groupMember => do
      let u ← Entities.uid E "Group" rel.«to»
      return { g with
        groupLinks := pushEntry rel.«to» rel.«from» g.groupLinks
        parents := addParent rel.«from» u g.parents }
  -- delegations do not reach the entities
  | .delegation => .ok g

/-- The members of one configured group. -/
def memberStep (group : String) (g : Edges) (m : String) : Except (Halt AuthzError) Edges := do
  let u ← Entities.uid E "Group" group
  return { g with
    parents := addParent m u g.parents
    groupLinks := pushEntry group m g.groupLinks }

/-- All edges of the input. -/
def collectEdges (input : EntityBuildInput) : Except (Halt AuthzError) Edges := do
  let g ← input.request.relationships.foldlM (edgeStep E) ⟨[], [], [], []⟩
  input.groupMembers.entries.foldlM (fun g e => e.2.foldlM (memberStep E e.1) g) g

/-! ## Attributes and entities -/

/-- Insert the string attributes of a map. -/
def insertStrAttrs (attrs : IndexMap String) (as : List (String × Value)) :
    Except (Halt AuthzError) (List (String × Value)) :=
  attrs.entries.foldlM (fun as e => do return insertEntry e.1 (← strAttr E e.2) as) as

/-- Insert an optional string attribute. -/
def insertOptAttr (k : String) (v : Option String) (as : List (String × Value)) :
    Except (Halt AuthzError) (List (String × Value)) :=
  match v with
  | some v => do return insertEntry k (← strAttr E v) as
  | none => .ok as

/-- The attributes of the principal entity. -/
def principalAttrs (req : AuthzRequest) (g : Edges) :
    Except (Halt AuthzError) (List (String × Value)) := do
  let as := insertEntry "roles" (← setAttr E req.principal.roles) []
  let as := insertEntry "groups" (← setAttr E req.principal.groups) as
  -- a free attribute replaces what stands under its name, and may be replaced below
  let as ← insertStrAttrs E req.principal.attrs as
  let as := insertEntry "direct_reports"
    (← setAttr E ((lookupEntry req.principal.id g.directReports).getD [])) as
  let as ← match lookupEntry req.principal.id g.managerOf with
    | some managed => do pure (insertEntry "manages" (← setAttr E managed) as)
    | none => pure as
  let as ← insertOptAttr E "on_behalf_of" req.onBehalfOf as
  insertOptAttr E "acting_as" req.actingAs as

/-- The direct parents of an entity: those the edges give it, and its own groups. -/
def allParents (id : String) (groups : List String) (g : Edges) :
    Except (Halt AuthzError) (List EntityUid) :=
  groups.foldlM (fun us group => do return insertUid (← Entities.uid E "Group" group) us)
    ((lookupEntry id g.parents).getD [])

/-- `Entity::new`, with its error as an entity error. -/
def newEntity (u : EntityUid) (as : List (String × Value)) (ps : List EntityUid) :
    Except (Halt AuthzError) Entity :=
  mapErr (fun e => .error (.entity e)) (E.entityNew u as ps)

/-- `HashSet::insert` of an entity; entities are equal when their ids are. -/
def insertEntity (e : Entity) (es : List Entity) : List Entity :=
  if es.any fun e' => e'.uid = e.uid then es else es ++ [e]

/-- The principal's user entity. -/
def principalEntity (req : AuthzRequest) (g : Edges) : Except (Halt AuthzError) Entity := do
  let as ← principalAttrs E req g
  let u ← Entities.uid E "User" req.principal.id
  let ps ← allParents E req.principal.id req.principal.groups g
  newEntity E u as ps

/-- The entity type of a subject: `Employee` by default and in place of `User`. -/
def subjectType (kind : String) : String :=
  let kind := if kind.isEmpty then "Employee" else kind
  if Text.eqIgnoreAsciiCase kind "user" then "Employee" else kind

/-- The subject's entity. -/
def subjectEntity (subj : Subject) (g : Edges) : Except (Halt AuthzError) Entity := do
  let as := insertEntry "groups" (← setAttr E subj.groups) []
  let as ← insertStrAttrs E subj.attrs as
  let u ← Entities.uid E (subjectType subj.kind) subj.id
  let ps ← allParents E subj.id subj.groups g
  newEntity E u as ps

/-- The id of the resource entity: the resource id, or else the kind. -/
def Resource.entityId (r : Resource) : String := r.id.getD r.kind

/-- The resource entity. -/
def resourceEntity (req : AuthzRequest) : Except (Halt AuthzError) Entity := do
  let as := insertEntry "kind" (← strAttr E req.resource.kind) []
  let as ← insertStrAttrs E req.resource.attrs as
  let u ← Entities.uid E "Resource" req.resource.entityId
  newEntity E u as []

/-- Every group the entities mention. -/
def allGroups (input : EntityBuildInput) (g : Edges) : List String :=
  (input.request.principal.groups ++
    ((input.request.subject.map (·.groups)).getD []) ++
    g.groupLinks.map Prod.fst ++ input.groupMembers.keys).eraseDups

/-- An entity without attributes and parents. -/
def bareEntity (typeName id : String) : Except (Halt AuthzError) Entity := do
  let u ← Entities.uid E typeName id
  newEntity E u [] []

/-- `build_entities`. -/
def buildEntities (input : EntityBuildInput) : Except (Halt AuthzError) (List Entity) := do
  let req := input.request
  let g ← collectEdges E input
  let es := insertEntity (← principalEntity E req g) []
  let es ← match req.subject with
    | some subj => do pure (insertEntity (← subjectEntity E subj g) es)
    | none => pure es
  let es := insertEntity (← resourceEntity E req) es
  -- a group with the id of an entity that is there adds nothing
  let es ← (allGroups input g).foldlM
    (fun es group => do return insertEntity (← bareEntity E "Group" group) es) es
  return insertEntity (← bareEntity E "Action" (Text.toAsciiUppercase req.action.name)) es

end

end Paac
