import Paac.Core.Decision
import Paac.Library.Serde

set_option autoImplicit false

/-!
# The JSON form of requests and decisions

The encodings derived for the kernel's types, each written with the readers and writers of
`Library/Serde.lean`, field by field in the order of the struct. A timestamp is its RFC 3339 text.
The context map is flattened into its object, an edge kind is its name in snake case, and an effect
its name in upper case.

## Main results

- `Principal.fromJson_toJson`, `Relationship.fromJson_toJson`, `Evidence.fromJson_toJson` and the
  other records: each is read back from its encoding, by the lemmas on its fields.
- `AuthzRequest.fromJson_toJson`, `AuthzDecision.fromJson_toJson`: so requests and decisions are.
- `AuthzRequest.writable`, `AuthzDecision.writable`: the encodings can be printed as texts and read
  from them.
-/

namespace Paac

open Serde

/-! ## Requests -/

section

variable (j : Json)

/-- The attributes of a principal, a resource or a subject. -/
def attrsJson (attrs : IndexMap String) : Json := ofIndexMap Json.str attrs

def Principal.toJson (p : Principal) : Json :=
  .obj [
    ("id", .str p.id),
    ("roles", ofList Json.str p.roles),
    ("groups", ofList Json.str p.groups),
    ("attrs", attrsJson p.attrs)]

def Principal.fromJson : Decoded Principal := do
  let ms ← fields ["id", "roles", "groups", "attrs"] 1 j
  return {
    id := ← required "id" string ms
    roles := ← defaulted "roles" (vec string) [] ms
    groups := ← defaulted "groups" (vec string) [] ms
    attrs := ← defaulted "attrs" (indexMap string) .empty ms }

def Action.toJson (a : Action) : Json := .obj [("name", .str a.name)]

def Action.fromJson : Decoded Action := do
  let ms ← fields ["name"] 1 j
  return { name := ← required "name" string ms }

def Resource.toJson (r : Resource) : Json :=
  .obj [
    ("kind", .str r.kind),
    ("id", ofOption Json.str r.id),
    ("attrs", attrsJson r.attrs)]

def Resource.fromJson : Decoded Resource := do
  let ms ← fields ["kind", "id", "attrs"] 1 j
  return {
    kind := ← required "kind" string ms
    id := ← optional "id" string ms
    attrs := ← defaulted "attrs" (indexMap string) .empty ms }

def Subject.toJson (s : Subject) : Json :=
  .obj [
    ("id", .str s.id),
    ("kind", .str s.kind),
    ("groups", ofList Json.str s.groups),
    ("attrs", attrsJson s.attrs)]

def Subject.fromJson : Decoded Subject := do
  let ms ← fields ["id", "kind", "groups", "attrs"] 1 j
  return {
    id := ← required "id" string ms
    kind := ← defaulted "kind" string "" ms
    groups := ← defaulted "groups" (vec string) [] ms
    attrs := ← defaulted "attrs" (indexMap string) .empty ms }

/-- The values are flattened into the map itself. -/
def ContextMap.toJson (c : ContextMap) : Json := ofIndexMap Json.str c.values

def ContextMap.fromJson : Decoded ContextMap := ContextMap.mk <$> indexMap string j

/-- The variants in snake case. -/
def RelationshipKind.variants : List (String × RelationshipKind) :=
  [("manager_of", .managerOf), ("direct_reports", .directReports), ("group_member", .groupMember),
    ("delegation", .delegation)]

def RelationshipKind.toJson : RelationshipKind → Json
  | .managerOf => .str "manager_of"
  | .directReports => .str "direct_reports"
  | .groupMember => .str "group_member"
  | .delegation => .str "delegation"

def Relationship.toJson (r : Relationship) : Json :=
  .obj [("kind", r.kind.toJson), ("from", .str r.from), ("to", .str r.to)]

def Relationship.fromJson : Decoded Relationship := do
  let ms ← fields ["kind", "from", "to"] 3 j
  return {
    kind := ← required "kind" (variant RelationshipKind.variants) ms
    «from» := ← required "from" string ms
    «to» := ← required "to" string ms }

def AuthzRequest.toJson (r : AuthzRequest) : Json :=
  .obj [
    ("principal", r.principal.toJson),
    ("action", r.action.toJson),
    ("resource", r.resource.toJson),
    ("subject", ofOption Subject.toJson r.subject),
    ("context", r.context.toJson),
    ("relationships", ofList Relationship.toJson r.relationships),
    ("acting_as", ofOption Json.str r.actingAs),
    ("on_behalf_of", ofOption Json.str r.onBehalfOf)]

def AuthzRequest.fromJson : Decoded AuthzRequest := do
  let ms ← fields ["principal", "action", "resource", "subject", "context", "relationships",
    "acting_as", "on_behalf_of"] 4 j
  return {
    principal := ← required "principal" Principal.fromJson ms
    action := ← required "action" Action.fromJson ms
    resource := ← required "resource" Resource.fromJson ms
    subject := ← optional "subject" Subject.fromJson ms
    context := ← defaulted "context" ContextMap.fromJson ⟨.empty⟩ ms
    relationships := ← defaulted "relationships" (vec Relationship.fromJson) [] ms
    actingAs := ← optional "acting_as" string ms
    onBehalfOf := ← optional "on_behalf_of" string ms }

/-! ## Decisions -/

/-- The name of an effect in upper case: its JSON form, and its `Debug` text in upper case. -/
def DecisionEffect.upperText : DecisionEffect → String
  | .allow => "ALLOW"
  | .deny => "DENY"
  | .review => "REVIEW"

def DecisionEffect.toJson (e : DecisionEffect) : Json := .str e.upperText

def DecisionEffect.fromJson : Decoded DecisionEffect :=
  variant [("ALLOW", .allow), ("DENY", .deny), ("REVIEW", .review)] j

def MatchedPolicy.toJson (m : MatchedPolicy) : Json :=
  .obj [
    ("id", .str m.id),
    ("effect", m.effect.toJson),
    ("reason", ofOption Json.str m.reason)]

def MatchedPolicy.fromJson : Decoded MatchedPolicy := do
  let ms ← fields ["id", "effect", "reason"] 2 j
  return {
    id := ← required "id" string ms
    effect := ← required "effect" DecisionEffect.fromJson ms
    reason := ← optional "reason" string ms }

def Evidence.toJson (e : Evidence) : Json :=
  .obj [
    ("decision_id", .str e.decisionId),
    ("effect", e.effect.toJson),
    ("request", e.request.toJson),
    ("matched_policies", ofList MatchedPolicy.toJson e.matchedPolicies),
    ("determining_policy", ofOption MatchedPolicy.toJson e.determiningPolicy),
    ("policy_revision", .str e.policyRevision),
    ("policy_signature", ofOption Json.str e.policySignature),
    ("engine_version", .str e.engineVersion),
    ("timestamp", .str e.timestamp),
    ("notes", ofList Json.str e.notes)]

def Evidence.fromJson : Decoded Evidence := do
  let ms ← fields ["decision_id", "effect", "request", "matched_policies", "determining_policy",
    "policy_revision", "policy_signature", "engine_version", "timestamp", "notes"] 10 j
  return {
    decisionId := ← required "decision_id" string ms
    effect := ← required "effect" DecisionEffect.fromJson ms
    request := ← required "request" AuthzRequest.fromJson ms
    matchedPolicies := ← required "matched_policies" (vec MatchedPolicy.fromJson) ms
    determiningPolicy := ← optional "determining_policy" MatchedPolicy.fromJson ms
    policyRevision := ← required "policy_revision" string ms
    policySignature := ← optional "policy_signature" string ms
    engineVersion := ← required "engine_version" string ms
    timestamp := ← required "timestamp" string ms
    notes := ← required "notes" (vec string) ms }

def AuthzDecision.toJson (d : AuthzDecision) : Json :=
  .obj [("effect", d.effect.toJson), ("evidence", d.evidence.toJson)]

def AuthzDecision.fromJson : Decoded AuthzDecision := do
  let ms ← fields ["effect", "evidence"] 2 j
  return {
    effect := ← required "effect" DecisionEffect.fromJson ms
    evidence := ← required "evidence" Evidence.fromJson ms }

end

/-! ## Round trips -/

theorem string_str (s : String) : string (.str s) = .ok s := rfl

theorem vec_strings (ss : List String) : vec string (ofList Json.str ss) = .ok ss :=
  vec_ofList fun s _ => string_str s

theorem option_string (o : Option String) : option string (ofOption Json.str o) = .ok o :=
  option_ofOption string_str (fun _ => Json.noConfusion) o

theorem indexMap_attrs (attrs : IndexMap String) :
    indexMap string (ofIndexMap Json.str attrs) = .ok attrs :=
  indexMap_ofIndexMap string_str attrs

theorem Principal.fromJson_toJson (p : Principal) : Principal.fromJson p.toJson = .ok p := by
  calc Principal.fromJson p.toJson
      = (do
          let roles ← vec string (ofList Json.str p.roles)
          let groups ← vec string (ofList Json.str p.groups)
          let attrs ← indexMap string (attrsJson p.attrs)
          return ⟨p.id, roles, groups, attrs⟩) := rfl
    _ = .ok p := by rw [vec_strings, vec_strings, attrsJson, indexMap_attrs]; rfl

theorem Resource.fromJson_toJson (r : Resource) : Resource.fromJson r.toJson = .ok r := by
  calc Resource.fromJson r.toJson
      = (do
          let id ← option string (ofOption Json.str r.id)
          let attrs ← indexMap string (attrsJson r.attrs)
          return ⟨r.kind, id, attrs⟩) := rfl
    _ = .ok r := by rw [option_string, attrsJson, indexMap_attrs]; rfl

theorem Subject.fromJson_toJson (s : Subject) : Subject.fromJson s.toJson = .ok s := by
  calc Subject.fromJson s.toJson
      = (do
          let groups ← vec string (ofList Json.str s.groups)
          let attrs ← indexMap string (attrsJson s.attrs)
          return ⟨s.id, s.kind, groups, attrs⟩) := rfl
    _ = .ok s := by rw [vec_strings, attrsJson, indexMap_attrs]; rfl

theorem ContextMap.fromJson_toJson (c : ContextMap) : ContextMap.fromJson c.toJson = .ok c := by
  rw [ContextMap.fromJson, ContextMap.toJson, indexMap_attrs]
  rfl

theorem Relationship.fromJson_toJson (r : Relationship) :
    Relationship.fromJson r.toJson = .ok r := by
  rcases r with ⟨kind, «from», «to»⟩
  cases kind <;> rfl

/-- **A request is read back from its encoding.** -/
theorem AuthzRequest.fromJson_toJson (r : AuthzRequest) :
    AuthzRequest.fromJson r.toJson = .ok r := by
  calc AuthzRequest.fromJson r.toJson
      = (do
          let principal ← Principal.fromJson r.principal.toJson
          let resource ← Resource.fromJson r.resource.toJson
          let subject ← option Subject.fromJson (ofOption Subject.toJson r.subject)
          let context ← ContextMap.fromJson r.context.toJson
          let relationships ← vec Relationship.fromJson (ofList Relationship.toJson r.relationships)
          let actingAs ← option string (ofOption Json.str r.actingAs)
          let onBehalfOf ← option string (ofOption Json.str r.onBehalfOf)
          return ⟨principal, r.action, resource, subject, context, relationships, actingAs,
            onBehalfOf⟩) := rfl
    _ = .ok r := by
        rw [Principal.fromJson_toJson, Resource.fromJson_toJson,
          option_ofOption Subject.fromJson_toJson (fun _ => Json.noConfusion),
          ContextMap.fromJson_toJson, vec_ofList fun x _ => Relationship.fromJson_toJson x,
          option_string, option_string]
        rfl

theorem DecisionEffect.fromJson_toJson (e : DecisionEffect) :
    DecisionEffect.fromJson e.toJson = .ok e := by
  cases e <;> rfl

theorem MatchedPolicy.fromJson_toJson (m : MatchedPolicy) :
    MatchedPolicy.fromJson m.toJson = .ok m := by
  calc MatchedPolicy.fromJson m.toJson
      = (do
          let effect ← DecisionEffect.fromJson m.effect.toJson
          let reason ← option string (ofOption Json.str m.reason)
          return ⟨m.id, effect, reason⟩) := rfl
    _ = .ok m := by rw [DecisionEffect.fromJson_toJson, option_string]; rfl

/-- Evidence is read back from its encoding. -/
theorem Evidence.fromJson_toJson (e : Evidence) : Evidence.fromJson e.toJson = .ok e := by
  calc Evidence.fromJson e.toJson
      = (do
          let effect ← DecisionEffect.fromJson e.effect.toJson
          let request ← AuthzRequest.fromJson e.request.toJson
          let matched ← vec MatchedPolicy.fromJson (ofList MatchedPolicy.toJson e.matchedPolicies)
          let determining ←
            option MatchedPolicy.fromJson (ofOption MatchedPolicy.toJson e.determiningPolicy)
          let signature ← option string (ofOption Json.str e.policySignature)
          let notes ← vec string (ofList Json.str e.notes)
          return ⟨e.decisionId, effect, request, matched, determining, e.policyRevision, signature,
            e.engineVersion, e.timestamp, notes⟩) := rfl
    _ = .ok e := by
        rw [DecisionEffect.fromJson_toJson, AuthzRequest.fromJson_toJson,
          vec_ofList fun x _ => MatchedPolicy.fromJson_toJson x,
          option_ofOption MatchedPolicy.fromJson_toJson (fun _ => Json.noConfusion),
          option_string, vec_strings]
        rfl

/-- A decision is read as it was written. -/
theorem AuthzDecision.fromJson_toJson (d : AuthzDecision) :
    AuthzDecision.fromJson d.toJson = .ok d := by
  calc AuthzDecision.fromJson d.toJson
      = (do
          let effect ← DecisionEffect.fromJson d.effect.toJson
          let evidence ← Evidence.fromJson d.evidence.toJson
          return ⟨effect, evidence⟩) := rfl
    _ = .ok d := by rw [DecisionEffect.fromJson_toJson, Evidence.fromJson_toJson]; rfl

/-! ## What is written can be read -/

theorem writable_string (s : String) : (Json.str s).Writable := trivial

theorem writable_strings (ss : List String) : (ofList Json.str ss).Writable :=
  writable_ofList writable_string ss

theorem writable_attrs (attrs : IndexMap String) : (ofIndexMap Json.str attrs).Writable :=
  writable_ofIndexMap writable_string attrs

theorem writable_optString (o : Option String) : (ofOption Json.str o).Writable :=
  writable_ofOption writable_string o

theorem Relationship.writable (r : Relationship) : r.toJson.Writable := by
  have hkind : r.kind.toJson.Writable := by cases r.kind <;> trivial
  exact ⟨by simp, hkind, trivial, trivial, trivial⟩

theorem Subject.writable (s : Subject) : s.toJson.Writable :=
  ⟨by simp, trivial, trivial, writable_strings _, writable_attrs _, trivial⟩

theorem AuthzRequest.writable (r : AuthzRequest) : r.toJson.Writable := by
  have hprincipal : r.principal.toJson.Writable :=
    ⟨by simp, trivial, writable_strings _, writable_strings _, writable_attrs _, trivial⟩
  have hresource : r.resource.toJson.Writable :=
    ⟨by simp, trivial, writable_optString _, writable_attrs _, trivial⟩
  exact ⟨by simp, hprincipal, ⟨by simp, trivial, trivial⟩, hresource,
    writable_ofOption Subject.writable _, writable_attrs _,
    writable_ofList Relationship.writable _, writable_optString _, writable_optString _, trivial⟩

theorem MatchedPolicy.writable (m : MatchedPolicy) : m.toJson.Writable :=
  ⟨by simp, trivial, trivial, writable_optString _, trivial⟩

theorem Evidence.writable (e : Evidence) : e.toJson.Writable :=
  ⟨by simp, trivial, trivial, e.request.writable, writable_ofList MatchedPolicy.writable _,
    writable_ofOption MatchedPolicy.writable _, trivial, writable_optString _, trivial, trivial,
    writable_strings _, trivial⟩

theorem AuthzDecision.writable (d : AuthzDecision) : d.toJson.Writable :=
  ⟨by simp, trivial, d.evidence.writable, trivial⟩

end Paac
