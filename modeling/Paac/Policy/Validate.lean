import Paac.Core.Request
import Paac.Policy.Translate

set_option autoImplicit false

/-!
# Checking a policy text

A text is accepted when it parses, its translation is a policy set that the validator of the engine
passes for the schema of the proxy, and it has a policy. The checks are made in this order, so a
text without policies is translated and validated before it is refused.

The schema text is the one of the source, character by character; `Schema.lean` reads it. Its
repeated parts are functions of the names in them, so the text can be compared with the source line
by line.

## Main results

- `validateDsl_ok`: an accepted text parses into policies whose translation is a policy set.
-/

namespace Paac

open Cedar (Engine)

/-! ## The schema -/

/-- The line of a required attribute of the context. -/
def schemaAttribute (name type : String) : String :=
  "              \"" ++ name ++ "\": \x7b " ++ type ++ ", \"required\": true \x7d"

/-- A set of strings. -/
def schemaStringSet : String :=
  "\"type\": \"Set\", \"element\": \x7b \"type\": \"String\" \x7d"

/-- The lines of an action up to its last brace. -/
def schemaAction (name : String) : List String :=
  ["      \"" ++ name ++ "\": \x7b",
    "        \"appliesTo\": \x7b",
    "          \"principalTypes\": [\"User\"],",
    "          \"resourceTypes\": [\"Resource\"],",
    "          \"context\": \x7b",
    "            \"type\": \"Record\",",
    "            \"attributes\": \x7b",
    schemaAttribute "principal_roles" schemaStringSet ++ ",",
    schemaAttribute "action_name" "\"type\": \"String\"" ++ ",",
    schemaAttribute "resource_kind" "\"type\": \"String\"" ++ ",",
    schemaAttribute "subject_is_self" "\"type\": \"Boolean\"" ++ ",",
    schemaAttribute "subject_in_direct_reports" "\"type\": \"Boolean\"" ++ ",",
    schemaAttribute "subject_groups" schemaStringSet,
    "            \x7d",
    "          \x7d",
    "        \x7d"]

/-- The lines of an entity type without attributes up to its last brace. -/
def schemaEntityType (name : String) : List String :=
  ["      \"" ++ name ++ "\": \x7b",
    "        \"shape\": \x7b",
    "          \"type\": \"Record\",",
    "          \"attributes\": \x7b\x7d",
    "        \x7d"]

/-- `DEFAULT_CEDAR_SCHEMA_JSON`. -/
def defaultCedarSchemaJson : String :=
  Text.join "\n" (["\x7b", "  \"\": \x7b", "    \"entityTypes\": \x7b"] ++
    schemaEntityType "User" ++ ["      \x7d,"] ++
    schemaEntityType "Resource" ++ ["      \x7d", "    \x7d,", "    \"actions\": \x7b"] ++
    schemaAction "READ" ++ ["      \x7d,"] ++
    schemaAction "TOOL_INVOKE" ++ ["      \x7d,"] ++
    schemaAction "EXPORT" ++ ["      \x7d", "    \x7d", "  \x7d", "\x7d"])

/-! ## The checks -/

/-- `validate_cedar_policy_set`. -/
def validateCedarPolicySet (E : Engine) (policySet : E.PolicySet) : Except PolicyError Unit :=
  match E.schemaFromJsonStr defaultCedarSchemaJson with
  | .error e => .error (.cedar ("schema parse error: " ++ e))
  | .ok schema =>
      let errs := E.validate schema policySet
      if errs.isEmpty then .ok ()
      else .error (.cedar ("Cedar schema validation failed: " ++ Text.join "; " errs))

/-- `PolicyStore::validate_dsl`. -/
def validateDsl (E : Engine) (dsl : String) : Except PolicyError (List DslPolicy) := do
  let policies ← parseDsl dsl
  let set ← cedarPolicySetFromDsl E policies
  validateCedarPolicySet E set
  if policies.isEmpty then .error (.validate "no policies found") else return policies

/-- **An accepted text parses into policies whose translation is a policy set.** -/
theorem validateDsl_ok {E : Engine} {dsl : String} {policies : List DslPolicy}
    (h : validateDsl E dsl = .ok policies) :
    parseDsl dsl = .ok policies ∧ policies ≠ [] ∧
      ∃ set, E.policySetFromStr (dslToCedar policies) = .ok set ∧
        validateCedarPolicySet E set = .ok () := by
  obtain ⟨ps, hparse, h⟩ := bind_eq_ok.1 h
  obtain ⟨set, hset, h⟩ := bind_eq_ok.1 h
  obtain ⟨⟨⟩, hvalid, h⟩ := bind_eq_ok.1 h
  split at h
  · cases h
  · rename_i hne
    obtain rfl := Except.ok.inj h
    refine ⟨hparse, fun hnil => hne (by rw [hnil]; rfl), set, ?_, hvalid⟩
    unfold cedarPolicySetFromDsl at hset
    split at hset
    · rename_i set' hset'
      rw [hset', Except.ok.inj hset]
    · cases hset

end Paac
