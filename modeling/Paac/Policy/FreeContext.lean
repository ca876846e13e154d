import Paac.Policy.Attributes
import Paac.Policy.Compiled
import Paac.Core.Reference

set_option autoImplicit false

/-!
# The free-form context and the decision

The context of a request carries arbitrary keys next to the attributes the evaluator writes; a later
key replaces an earlier one. Two requests that differ in their free-form context get the same effect
from every policy list exactly when the keys avoid the attributes written in front of them.

`ContextInert` is a property of the set of keys that the two contexts may use, over all policy lists
whose generated text reads built-in attributes only (`ReadsBuiltins`). Lists of plain names are
such; a name that closes its literal could write a condition of its own, on any attribute. For the
other direction there is one policy for each exposed attribute, whose `where` line rests on it, and
a pair of requests that it decides differently.

## Main results

- `readsBuiltins_of_plain`: the policies of plain names read built-in attributes only.
- `settled_of_not_exposed`, `lookup_withContext`: keys that avoid the exposed names leave every
  built-in attribute as it is.
- `contextInert_of_not_exposed`, `not_contextInert`: the two directions.
- `contextInert_iff`: which sets of keys play no part.
- `free_context_carries_authority`: a key of the free-form context turns a denial into an allowance.
-/

namespace Paac

open Cedar (Engine Record)

/-- The request with another free-form context. -/
def AuthzRequest.withContext (req : AuthzRequest) (values : IndexMap String) : AuthzRequest :=
  { req with context := ⟨values⟩ }

/-- The generated text has no condition on an attribute of the free-form context: it reads as
policies whose conditions are about built-in attributes only. -/
def ReadsBuiltins (ps : List DslPolicy) : Prop :=
  ∃ cps, Cedar.parsePolicies (dslToCedar ps) = some cps ∧
    ∀ p ∈ cps, ∀ e ∈ p.conditions, ∀ a ∈ e.attrs, a ∈ builtinNames

/-- Two requests that differ in their free-form context only, with keys among `K`, get the same
effect whenever both are decided. -/
def ContextInert (K : Set String) : Prop :=
  ∀ (E : Engine), E.Lawful → ∀ (input : String) (ps : List DslPolicy), parseDsl input = .ok ps →
    ReadsBuiltins ps → ∀ cfg : EvaluatorConfig E, cedarPolicySetFromDsl E ps = .ok cfg.policySet →
    ∀ (req : AuthzRequest) (v₁ v₂ : IndexMap String), (∀ k ∈ v₁.keys, k ∈ K) →
      (∀ k ∈ v₂.keys, k ∈ K) → ∀ (fresh₁ fresh₂ : Fresh) (d₁ d₂ : AuthzDecision),
        evaluate E fresh₁ (req.withContext v₁) cfg = .ok d₁ →
        evaluate E fresh₂ (req.withContext v₂) cfg = .ok d₂ → d₁.effect = d₂.effect

/-! ## Policies with plain names -/

/-- Plain names leave no condition of their own in the text. -/
theorem readsBuiltins_of_plain {ps : List DslPolicy}
    (h : ps.all DslPolicy.plainNames = true) : ReadsBuiltins ps := by
  refine ⟨ps.map compile, parse_dslToCedar h, ?_⟩
  intro p hp e he
  obtain ⟨p, -, rfl⟩ := List.mem_map.1 hp
  exact attrs_compile p e he

/-! ## Keys that cannot matter -/

/-- A built-in attribute is settled when the keys avoid the exposed names. -/
theorem settled_of_not_exposed {req : AuthzRequest}
    (h : ∀ k ∈ req.context.values.keys, k ∉ exposedNames) {a : String} (ha : a ∈ builtinNames) :
    Settled req a := by
  by_cases hroles : a = "principal_roles"
  · exact Or.inr (Or.inl hroles)
  by_cases hgroups : a = "principal_groups"
  · exact Or.inr (Or.inr hgroups)
  refine Or.inl fun hmem => h a hmem ?_
  simpa [builtinNames, exposedNames, hroles, hgroups] using ha

/-- Requests that differ in settled keys only give the same value to every built-in attribute. -/
theorem lookup_withContext {req : AuthzRequest} {v₁ v₂ : IndexMap String}
    {ms₁ ms₂ : List (String × Json)} {a : String}
    (h₁ : Json.parse (buildContextJson (req.withContext v₁)) = some (.obj ms₁))
    (h₂ : Json.parse (buildContextJson (req.withContext v₂)) = some (.obj ms₂))
    (hs₁ : Settled (req.withContext v₁) a) (hs₂ : Settled (req.withContext v₂) a) :
    lookupEntry a (Record.ofMembers ms₁) = lookupEntry a (Record.ofMembers ms₂) := by
  obtain ⟨head₁, hh₁, hl₁⟩ := lookup_context h₁ hs₁
  obtain ⟨head₂, hh₂, hl₂⟩ := lookup_context h₂ hs₂
  -- neither the head nor the fixed members mention the free-form context
  have hheads : headMembers (req.withContext v₁) = headMembers (req.withContext v₂) := rfl
  obtain rfl : head₁ = head₂ := Option.some.inj (hh₁.symm.trans (hheads.trans hh₂))
  rw [hl₁, hl₂]
  rfl

/-- Keys that avoid the exposed names play no part. -/
theorem contextInert_of_not_exposed {K : Set String} (hK : ∀ k ∈ K, k ∉ exposedNames) :
    ContextInert K := by
  intro E hE input ps _ hreads cfg hcfg req v₁ v₂ hv₁ hv₂ fresh₁ fresh₂ d₁ d₂ hd₁ hd₂
  obtain ⟨cps, hparse, hattrs⟩ := hreads
  have hset := cedarPolicySetFromDsl_ok hcfg
  obtain ⟨ms₁, q₁, hms₁, hc₁, ha₁, he₁⟩ := evaluate_decides hE hset hparse hd₁
  obtain ⟨ms₂, q₂, hms₂, hc₂, ha₂, he₂⟩ := evaluate_decides hE hset hparse hd₂
  have hscope : q₁.action = q₂.action := by
    rw [ha₁, ha₂]
    rfl
  -- the conditions read only names that the entries do not change
  have hsatisfied : ∀ p ∈ cps, p.satisfied q₁ = p.satisfied q₂ := by
    intro p hp
    have hconds : p.conditions.all (Cedar.holds q₁.context) =
        p.conditions.all (Cedar.holds q₂.context) := by
      rw [Bool.eq_iff_iff, List.all_eq_true, List.all_eq_true]
      refine forall₂_congr fun e he => ?_
      rw [@Cedar.holds_congr q₁.context q₂.context e]
      intro a ha
      have hbuiltin := hattrs p hp e he a ha
      rw [hc₁, hc₂]
      exact lookup_withContext hms₁ hms₂
        (settled_of_not_exposed (fun k hk => hK k (hv₁ k hk)) hbuiltin)
        (settled_of_not_exposed (fun k hk => hK k (hv₂ k hk)) hbuiltin)
    rw [Cedar.Policy.satisfied, Cedar.Policy.satisfied, hconds, Cedar.Policy.inScope,
      Cedar.Policy.inScope, hscope]
  rw [he₁, he₂, Cedar.decision_congr hsatisfied]

/-! ## Keys that matter -/

/-- A conjunct that does not hold leaves a compiled policy unsatisfied. -/
theorem unsatisfied_of_factor {p : DslPolicy} {q : Cedar.Request} {f : Cedar.Factor}
    (hf : f ∈ (printable p).first :: conditionFactors p) (h : Cedar.holds q.context f.expr = false) :
    (compile p).satisfied q = false := by
  rw [Bool.eq_false_iff, Ne, satisfied_compile_iff]
  rintro ⟨-, hall⟩
  rw [hall f hf] at h
  cases h

namespace Exposed

/-- A request about oneself: one of one's own reports, and a member of the staff. -/
def request : AuthzRequest :=
  { principal := ⟨"bob", [], [], .empty⟩
    action := ⟨"READ"⟩
    resource := ⟨"DOC", none, .empty⟩
    subject := some ⟨"bob", "Employee", ["STAFF"], .empty⟩
    context := ⟨.empty⟩
    relationships := [⟨.directReports, "bob", "bob"⟩]
    actingAs := none
    onBehalfOf := none }

/-- One allow policy; its `where` line rests on the attribute `k`, if any line can. -/
def text (k : String) : String :=
  "policy p\nallow READ DOC" ++
    if k = "subject_is_self" then "\nwhere subject == SELF"
    else if k = "subject_in_direct_reports" then "\nwhere subject in DIRECT_REPORTS"
    else if k = "subject_id" then "\nwhere subject == bob"
    else if k = "subject_groups" then "\nwhere subject in STAFF"
    else ""

/-- The policy of that text. -/
def policy (k : String) : DslPolicy :=
  { id := "p"
    effect := .allow
    action := "READ"
    resource := "DOC"
    whenRoles := []
    whereSubjects :=
      if k = "subject_is_self" then ["SELF"]
      else if k = "subject_in_direct_reports" then ["DIRECT_REPORTS"]
      else if k = "subject_id" then ["bob"]
      else []
    unlessRoles := []
    whereSubjectGroups := if k = "subject_groups" then ["STAFF"] else []
    raw := text k }

/-- The evaluator for the policy. -/
def config (k : String) : EvaluatorConfig Engine.reference :=
  ⟨([compile (policy k)] : List Cedar.Policy), "r1", none, .empty⟩

theorem parse_text : ∀ k ∈ exposedNames, parseDsl (text k) = .ok [policy k] := by
  decide +kernel

theorem plain_policy : ∀ k ∈ exposedNames, [policy k].all DslPolicy.plainNames = true := by
  decide +kernel

theorem policySet_config {k : String} (hk : k ∈ exposedNames) :
    cedarPolicySetFromDsl Engine.reference [policy k] = .ok (config k).policySet :=
  cedarPolicySetFromDsl_reference (plain_policy k hk)

/-- The request is decided whatever clean context it carries. -/
theorem decided {k : String} (values : IndexMap String)
    (hvalues : values.entries.all (fun e => Json.isClean e.1 && Json.isClean e.2) = true)
    (fresh : Fresh) :
    ∃ d, evaluate Engine.reference fresh (request.withContext values) (config k) = .ok d := by
  have hvalid : request.validate = .ok () := by decide
  have hsimple : isSimpleRequest request = true := by decide +kernel
  refine @evaluate_reference (request.withContext values) hvalid ?_ fresh _
  simp only [isSimpleRequest, Bool.and_eq_true] at hsimple ⊢
  obtain ⟨⟨⟨h, -⟩, hrels⟩, hlast⟩ := hsimple
  exact ⟨⟨⟨h, hvalues⟩, hrels⟩, hlast⟩

/-- Without a free-form context the request is allowed. -/
theorem allowed {k : String} (hk : k ∈ exposedNames) {fresh : Fresh} {d : AuthzDecision}
    (h : evaluate Engine.reference fresh (request.withContext .empty) (config k) = .ok d) :
    d.effect = .allow := by
  have havoid : AvoidsBuiltins (request.withContext .empty) := by
    intro a ha
    cases ha
  have hgrants : ∀ k ∈ exposedNames, Grants [policy k] (Facts.of (request.withContext .empty)) := by
    decide +kernel
  exact (evaluate_compiled Engine.reference_lawful (plain_policy k hk)
    (cedarPolicySetFromDsl_ok (policySet_config hk)) havoid (by decide) (by decide) h).2
      (hgrants k hk)

/-- The condition of the policy does not hold when the attribute is some other string. -/
theorem unsatisfied {k : String} (hk : k ∈ exposedNames) {q : Cedar.Request}
    (h : lookupEntry k q.context = some (.str "x")) : (compile (policy k)).satisfied q = false := by
  -- the value `x` meets none of the three kinds of conditions
  have hflag : ∀ a, lookupEntry a q.context = some (.str "x") →
      Cedar.holds q.context (.attr a) = false := by
    intro a ha
    simp [Cedar.holds, Cedar.Expr.eval, ha]
  have heq : ∀ a s, s ≠ "x" → lookupEntry a q.context = some (.str "x") →
      Cedar.holds q.context (.eqStr (.attr a) s) = false := by
    intro a s hs ha
    simp [Cedar.holds, Cedar.Expr.eval, ha, Except.map, Cedar.Value.isStr, Ne.symm hs]
  have hhas : ∀ a s, lookupEntry a q.context = some (.str "x") →
      Cedar.holds q.context (.containsStr (.attr a) s) = false := by
    intro a s ha
    simp [Cedar.holds, Cedar.Expr.eval, ha]
  simp only [exposedNames, List.mem_cons, List.not_mem_nil, or_false] at hk
  rcases hk with rfl | rfl | rfl | rfl | rfl | rfl
  · exact unsatisfied_of_factor (f := .atom (.eq "action_name" "READ")) (by decide)
      (heq _ _ (by decide) h)
  · exact unsatisfied_of_factor (f := .atom (.eq "resource_kind" "DOC")) (by decide)
      (heq _ _ (by decide) h)
  · exact unsatisfied_of_factor (f := .any (.flag "subject_is_self") []) (by decide) (hflag _ h)
  · exact unsatisfied_of_factor (f := .any (.flag "subject_in_direct_reports") []) (by decide)
      (hflag _ h)
  · exact unsatisfied_of_factor (f := .any (.eq "subject_id" "bob") []) (by decide)
      (heq _ _ (by decide) h)
  · exact unsatisfied_of_factor (f := .any (.has "subject_groups" "STAFF") []) (by decide)
      (hhas _ _ h)

/-- With a free-form entry under the attribute the request is denied. -/
theorem denied {k : String} (hk : k ∈ exposedNames) {fresh : Fresh} {d : AuthzDecision}
    (h : evaluate Engine.reference fresh (request.withContext (.ofList [(k, "x")])) (config k) =
      .ok d) : d.effect = .deny := by
  obtain ⟨ms, q, hms, hcontext, -, heffect⟩ := evaluate_decides Engine.reference_lawful
    (cedarPolicySetFromDsl_ok (policySet_config hk)) (parse_dslToCedar (plain_policy k hk)) h
  have hvalue : (IndexMap.ofList [(k, "x")]).get k = some "x" := IndexMap.get_insert_self _ _ _
  have hnames : ∀ k ∈ exposedNames, k ≠ "principal_roles" ∧ k ≠ "principal_groups" := by decide
  have hlookup := lookup_replaced hms (k := k) (v := "x") hvalue (hnames k hk).1 (hnames k hk).2
  rw [← hcontext] at hlookup
  have hnot : ¬Cedar.decision ([policy k].map compile) q = .allow := by
    rw [Cedar.decision_eq_allow_iff]
    rintro ⟨⟨p, hp, -, hsat⟩, -⟩
    obtain rfl := List.mem_singleton.1 hp
    rw [unsatisfied hk hlookup] at hsat
    cases hsat
  rw [heffect]
  cases hdecision : Cedar.decision ([policy k].map compile) q with
  | allow => exact absurd hdecision hnot
  | deny => rfl

/-- A free-form entry under an exposed name changes the effect. -/
theorem not_contextInert {K : Set String} {k : String} (hk : k ∈ exposedNames) (hK : k ∈ K) :
    ¬ContextInert K := by
  intro hinert
  have hclean : ∀ k ∈ exposedNames, (IndexMap.ofList [(k, "x")]).entries.all
      (fun e => Json.isClean e.1 && Json.isClean e.2) = true := by decide
  obtain ⟨d₁, h₁⟩ := decided (k := k) .empty rfl ⟨"u", "t"⟩
  obtain ⟨d₂, h₂⟩ := decided (k := k) (.ofList [(k, "x")]) (hclean k hk) ⟨"u", "t"⟩
  have hkeys : ∀ k' ∈ (IndexMap.ofList [(k, "x")]).keys, k' ∈ K := by
    intro k' hk'
    obtain rfl : k' = k := List.mem_singleton.1 hk'
    exact hK
  have hsame := hinert Engine.reference Engine.reference_lawful (text k) [policy k]
    (parse_text k hk) (readsBuiltins_of_plain (plain_policy k hk)) (config k) (policySet_config hk)
    request .empty (.ofList [(k, "x")]) (fun k' hk' => absurd hk' List.not_mem_nil) hkeys _ _ d₁ d₂
    h₁ h₂
  rw [allowed hk h₁, denied hk h₂] at hsame
  cases hsame

end Exposed

/-- **Which free-form keys carry authority.** The free-form context is inert exactly when its keys
avoid the attributes written in front of it. -/
theorem contextInert_iff (K : Set String) : ContextInert K ↔ ∀ k ∈ K, k ∉ exposedNames :=
  ⟨fun hinert _ hK hk => Exposed.not_contextInert hk hK hinert, contextInert_of_not_exposed⟩

/-- Arbitrary keys do carry authority. -/
theorem free_context_carries_authority : ¬ContextInert Set.univ :=
  Exposed.not_contextInert (k := "subject_is_self") (by decide) (Set.mem_univ _)

end Paac
