import Paac.Library.JsonReader
import Paac.Library.Cedar.Printing
import Paac.Library.Cedar.Strings

set_option autoImplicit false

/-!
# The policy engine behind its interface

A program that links the Cedar engine sees a set of fallible functions: texts become policy sets,
JSON texts become contexts, and a request is authorized against a policy set and the entities.
`Engine` lists these functions as a parameter, with the types of policy sets, contexts and entity
attributes left open. Nothing is assumed of an engine as such; each group of results names what it
relies on, and every such assumption is shown to hold of `Engine.reference`.

`Engine.Lawful` is what most callers rely on: a context is the object its text denotes, and the
decision on policies written in the grammar of `Syntax.lean` is the one `Semantics.lean` defines.
Texts outside that grammar may be accepted or refused, and decided in any way.

## Main results

- `Record.lookup_ofMembers`: what a context says under a name: the last member of that name.
- `Engine.literal_of_reference`: the attribute texts that the reference engine reads are literals.
- `Engine.reference_lawful`: the reference engine is lawful, so nothing here is assumed in vain.
-/

namespace Paac.Cedar

/-! ## Entities and answers -/

/-- An entity with its attributes and the entities it is directly a member of. -/
structure Entity where
  uid : EntityUid
  attrs : List (String × Value)
  parents : List EntityUid

/-- The answer to a request: the decision, the ids of the policies that determined it, and the
messages of the policies that were skipped. -/
structure Response where
  decision : Decision
  reason : List String
  errors : List String

/-! ## Contexts from JSON -/

mutual
/-- The value a JSON value denotes. -/
def Value.ofJson : Json → Value
  | .bool b => .bool b
  | .str s => .str s
  | .arr items => .set (Value.ofItems items)
  | .null => .other
  | .num _ => .other
  | .obj _ => .other

/-- The values of a JSON array. -/
def Value.ofItems : List Json → List Value
  | [] => []
  | v :: vs => Value.ofJson v :: Value.ofItems vs
end

/-- The record a JSON object denotes. -/
def Record.ofMembers (ms : List (String × Json)) : Record := ms.map fun m => (m.1, Value.ofJson m.2)

theorem Value.ofItems_strs (ss : List String) :
    Value.ofItems (ss.map Json.str) = ss.map Value.str := by
  induction ss with
  | nil => rfl
  | cons s ss ih =>
      rw [List.map_cons, List.map_cons, ← ih]
      rfl

/-- A lookup in the record of an object. -/
theorem Record.lookup_ofMembers (k : String) (ms : List (String × Json)) :
    lookupEntry k (Record.ofMembers ms) = (lookupEntry k ms).map Value.ofJson := by
  induction ms with
  | nil => rfl
  | cons m ms ih =>
      rcases m with ⟨k', v⟩
      by_cases h : k' = k
      · simp [Record.ofMembers, lookupEntry, h]
      · simp only [Record.ofMembers, List.map_cons, lookupEntry, if_neg h]
        exact ih

/-! ## The interface -/

/-- The functions of the engine that a caller uses. An entity id is any string, so only the type
name of an entity can fail to parse. -/
structure Engine where
  PolicySet : Type
  Schema : Type
  /-- `PolicySet::from_str` -/
  policySetFromStr : String → Except String PolicySet
  /-- `Schema::from_json_str` -/
  schemaFromJsonStr : String → Except String Schema
  /-- `Validator::validate` in strict mode: the validation errors. -/
  validate : Schema → PolicySet → List String
  /-- `EntityTypeName::from_str` -/
  entityTypeName : String → Except String String
  /-- `RestrictedExpression::from_str` -/
  restrictedExpression : String → Except String Value
  /-- `Entity::new` -/
  entityNew : EntityUid → List (String × Value) → List EntityUid → Except String Entity
  /-- `Entities::from_entities` -/
  entitiesFromEntities : List Entity → Except String (List Entity)
  /-- `Context::from_json_str` without a schema. -/
  contextFromJsonStr : String → Except String Record
  /-- `Request::new` without a schema. -/
  requestNew : EntityUid → EntityUid → EntityUid → Record → Except String Request
  /-- `Authorizer::is_authorized` -/
  isAuthorized : Request → PolicySet → List Entity → Response
  /-- `PolicySet::policy`, as far as the annotations of the policy go. -/
  policy : PolicySet → String → Option (List (String × String))
  /-- `PolicySet::annotation` -/
  annotation : PolicySet → String → String → Option String

/-- What callers rely on. -/
structure Engine.Lawful (E : Engine) : Prop where
  /-- A context is the JSON object its text denotes. -/
  context_reads : ∀ {s : String} {c : Record}, E.contextFromJsonStr s = .ok c →
    ∃ ms, Json.parse s = some (.obj ms) ∧ c = Record.ofMembers ms
  /-- A type name that parses is the name read. -/
  type_name : ∀ {s t : String}, E.entityTypeName s = .ok t → t = s
  /-- A request consists of the parts it was made from. -/
  request_parts : ∀ {p a r : EntityUid} {c : Record} {q : Request},
    E.requestNew p a r c = .ok q → q = ⟨p, a, r, c⟩
  /-- On policies of the grammar the decision is the one of the semantics. -/
  decides : ∀ {s : String} {P : E.PolicySet} {ps : List Policy}, E.policySetFromStr s = .ok P →
    parsePolicies s = some ps →
    ∀ (q : Request) (es : List Entity), (E.isAuthorized q P es).decision = decision ps q

/-! ## A reference engine -/

/-- Policies with the ids the engine gives them: `policy0`, `policy1` and so on. -/
def withIds (ps : List Policy) : List (String × Policy) :=
  ps.zipIdx.map fun e => ("policy" ++ toString e.2, e.1)

/-- The value of an attribute expression: a string literal or a list of them. -/
def literalValue : List Token → Option Value
  | [.str s] => some (.str s)
  | .sym "[" :: ts => (literalItems ts).map .set
  | _ => none
where
  /-- The items of a list after its bracket. -/
  literalItems : List Token → Option (List Value)
    | [.sym "]"] => some []
    | [.str s, .sym "]"] => some [.str s]
    | .str s :: .sym "," :: ts => (literalItems ts).map fun vs => .str s :: vs
    | _ => none

/-- The engine given by the grammar and the semantics of this library; its validator knows no
schema and accepts everything. -/
def Engine.reference : Engine where
  PolicySet := List Policy
  Schema := Unit
  policySetFromStr s :=
    match parsePolicies s with
    | some ps => .ok ps
    | none => .error "parse error"
  schemaFromJsonStr _ := .ok ()
  validate _ _ := []
  entityTypeName s := if isIdentifier s then .ok s else .error "parse error"
  restrictedExpression s :=
    if hasBareReturn s then .error "parse error"
    else
      match (lex s).bind literalValue with
      | some v => .ok v
      | none => .error "parse error"
  entityNew u as ps := .ok ⟨u, as, ps⟩
  entitiesFromEntities es := .ok es
  contextFromJsonStr s :=
    match Json.parse s with
    | some (.obj ms) => .ok (Record.ofMembers ms)
    | _ => .error "expected a record"
  requestNew p a r c := .ok ⟨p, a, r, c⟩
  isAuthorized q ps _ :=
    let d := decision ps q
    let e := match d with
      | .allow => Effect.permit
      | .deny => Effect.forbid
    { decision := d
      reason := ((withIds ps).filter fun p => p.2.effect = e && p.2.satisfied q).map Prod.fst
      errors := ((withIds ps).filter fun p => p.2.erring q).map Prod.fst }
  policy ps id := (lookupEntry id (withIds ps)).map (·.annotations)
  annotation ps id key := (lookupEntry id (withIds ps)).bind fun p => Policy.annotation p key

/-- What the reference engine reads as an attribute is a literal without a bare carriage return. -/
theorem Engine.literal_of_reference {text : String} {v : Value}
    (h : Engine.reference.restrictedExpression text = .ok v) :
    hasBareReturn text = false ∧ ∃ ts, lex text = some ts ∧ literalValue ts = some v := by
  simp only [Engine.reference] at h
  split_ifs at h with hreturn
  split at h
  · rename_i x hx
    obtain rfl := Except.ok.inj h
    exact ⟨Bool.eq_false_iff.2 hreturn, Option.bind_eq_some_iff.1 hx⟩
  · cases h

/-- The reference engine is lawful. -/
theorem Engine.reference_lawful : Engine.reference.Lawful where
  context_reads := by
    intro s c h
    simp only [Engine.reference] at h
    split at h
    · rename_i ms hms
      exact ⟨ms, hms, (Except.ok.inj h).symm⟩
    · cases h
  type_name := by
    intro s t h
    simp only [Engine.reference] at h
    split at h
    · exact (Except.ok.inj h).symm
    · cases h
  request_parts := by
    intro p a r c q h
    exact (Except.ok.inj h).symm
  decides := by
    intro s P ps hP hps q es
    simp only [Engine.reference, hps] at hP
    obtain rfl : ps = P := Except.ok.inj hP
    rfl

end Paac.Cedar
