import Paac.Catalog.Resources
import Paac.Core.Reference
import Paac.Policy.Compiled

set_option autoImplicit false

/-!
# Tools the catalog does not list

The request for a tool that the catalog does not list names the resource kind `TOOL_UNKNOWN`. Its
arguments are free JSON and end up in the context next to the built-in attributes, but under keys
that are none of them, so no policy for another kind can allow the request.

The keys all begin with the prefix that flattening is started with, however deep an argument is, and
no built-in attribute does. Action and kind are names of the catalog's own, so they need no escape,
and the policies decide by their clauses.

## Main results

- `not_builtin_arg`, `avoids_toolContext`: the keys of the arguments are no built-in names, whatever
  the arguments are.
- `authzForTool_unknown`: the kind of the request.
- `unknown_tool_never_allowed`: so only an allow policy for that kind allows it.
- `invented_tool_denied`: a tool that a model makes up is denied.
-/

namespace Paac

open Cedar (Engine)

theorem findTool_eq_none {c : ResourceCatalog} {toolName : String} :
    c.findTool toolName = none ↔ toolName ∉ c.tools.map ToolMapping.toolName := by
  simp [ResourceCatalog.findTool]

/-- No built-in name continues the prefix of the flattened arguments. -/
theorem not_builtin_arg (path : String) : "arg_" ++ path ∉ builtinNames := by
  intro h
  have hfirst : ∀ name ∈ builtinNames, name.toList.take 4 ≠ "arg_".toList := by decide
  refine hfirst _ h ?_
  rw [String.toList_append]
  exact List.take_left' rfl

/-- **The arguments of a tool call avoid the built-in attributes.** -/
theorem avoids_toolContext {toolName : String} {args : Json} {k : String}
    (hk : k ∈ (ResourceCatalog.toolContext toolName args).keys) : k ∉ builtinNames := by
  rcases extends_flattenJsonArgs args "arg_" _ k hk with hk | ⟨path, rfl⟩
  · rw [IndexMap.mem_keys_insert, IndexMap.keys_empty] at hk
    rcases hk with rfl | hk
    · decide
    · cases hk
  · exact not_builtin_arg path

/-- What the request for an unknown tool presents to the policies. -/
theorem authzForTool_unknown {c : ResourceCatalog} {toolName : String}
    (h : toolName ∉ c.tools.map ToolMapping.toolName) (principal : Principal) (args : Json) :
    AvoidsBuiltins (c.authzForTool principal toolName args) ∧
      (c.authzForTool principal toolName args).action.name = "TOOL_INVOKE" ∧
      (c.authzForTool principal toolName args).resource.kind = "TOOL_UNKNOWN" := by
  have hreq : c.authzForTool principal toolName args =
      ResourceCatalog.toolRequest principal "TOOL_INVOKE" ⟨"TOOL_UNKNOWN", some toolName, .empty⟩
        (ResourceCatalog.toolContext toolName args) := by
    rw [ResourceCatalog.authzForTool, findTool_eq_none.2 h]
  rw [hreq]
  exact ⟨fun k hk => avoids_toolContext hk, rfl, rfl⟩

/-- **Unlisted tools fail closed.** Whatever the arguments, a request for a tool that the catalog
does not list is never allowed by policies of which no allow policy names `TOOL_UNKNOWN`. -/
theorem unknown_tool_never_allowed {E : Engine} (hE : E.Lawful) {c : ResourceCatalog}
    {toolName : String} (hunknown : toolName ∉ c.tools.map ToolMapping.toolName) (args : Json)
    (principal : Principal) {ps : List DslPolicy} (hplain : ps.all DslPolicy.plainNames = true)
    (hnone : ∀ p ∈ ps, p.effect = .allow → p.resource ≠ "TOOL_UNKNOWN") {cfg : EvaluatorConfig E}
    (hcfg : cedarPolicySetFromDsl E ps = .ok cfg.policySet) {fresh : Fresh} {d : AuthzDecision}
    (h : evaluate E fresh (c.authzForTool principal toolName args) cfg = .ok d) :
    d.effect ≠ .allow := by
  obtain ⟨havoid, haction, hkind⟩ := authzForTool_unknown hunknown principal args
  have hplainAction : Cedar.isPlain (c.authzForTool principal toolName args).action.name = true := by
    rw [haction]
    decide
  have hplainKind : Cedar.isPlain (c.authzForTool principal toolName args).resource.kind = true := by
    rw [hkind]
    decide
  rw [Ne, evaluate_compiled hE hplain (cedarPolicySetFromDsl_ok hcfg) havoid hplainAction
    hplainKind h]
  rintro ⟨⟨p, hp, hallow, hadmits⟩, -⟩
  -- the policy that admits the request names its kind
  have hresource : (Facts.of (c.authzForTool principal toolName args)).kind = p.resource := by
    simp only [DslPolicy.admits, Bool.and_eq_true, decide_eq_true_eq] at hadmits
    exact hadmits.1.1.1.1.1
  have hupper : Text.toAsciiUppercase "TOOL_UNKNOWN" = "TOOL_UNKNOWN" := by decide
  refine hnone p hp hallow ?_
  rw [← hresource, ← hupper, ← hkind]
  rfl

/-- An invented tool that tries to pass a resource kind of its own is denied. -/
theorem invented_tool_denied :
    ∃ d, evaluate Engine.reference ⟨"u", "t"⟩
        (ResourceCatalog.authzForTool ⟨"1", [], []⟩ (Principal.withRoles "bob" ["CFO"]) "wipe"
          (.obj [("resource_kind", .str "DOC"), ("a", .obj [("b", .str "x")])]))
        ⟨([compile ⟨"p", .allow, "TOOL_INVOKE", "DOC", [], [], [], [], ""⟩] : List Cedar.Policy),
          "r1", none, .empty⟩ = .ok d ∧ d.effect ≠ .allow := by
  have hplain : [(⟨"p", .allow, "TOOL_INVOKE", "DOC", [], [], [], [], ""⟩ : DslPolicy)].all
      DslPolicy.plainNames = true := by decide +kernel
  obtain ⟨d, hd⟩ := @evaluate_reference
    (ResourceCatalog.authzForTool ⟨"1", [], []⟩ (Principal.withRoles "bob" ["CFO"]) "wipe"
      (.obj [("resource_kind", .str "DOC"), ("a", .obj [("b", .str "x")])])) (by decide)
    (by decide +kernel) ⟨"u", "t"⟩
    ⟨([compile ⟨"p", .allow, "TOOL_INVOKE", "DOC", [], [], [], [], ""⟩] : List Cedar.Policy),
      "r1", none, .empty⟩
  exact ⟨d, hd, unknown_tool_never_allowed Engine.reference_lawful List.not_mem_nil _ _ hplain
    (by decide) (cedarPolicySetFromDsl_reference hplain) hd⟩

end Paac
