import Paac.Library.Cedar.Diagnostics
import Paac.Policy.GroupMembers

set_option autoImplicit false

/-!
# Evidence is exact

The evidence of a decision lists the policies that made it: on Allow the allow policies that apply,
on Deny the deny and review policies that do. They are listed by the id of the policy text, so as
often as they occur there, and where no policy is to be listed the evidence names the default.

The engine answers with ids of its own choice, which the evaluator resolves to the `id` annotations
of the generated text. So the list of the evidence is the list of the engine, mapped; that it is the
right one follows from what an answer reports (`Engine.Diagnoses`) and from what a compiled policy
is annotated with. Equality of lists is up to order.

## Main results

- `onSide_permit`, `onSide_forbid`, `satisfiedPolicies_compile`: the policies on each side of a
  decision are the records that apply.
- `humanId_compile`, `matched_ids`: they are listed under the ids of the text.
- `determining_of_matched`: what the evidence takes from the answer of the engine.
- `evidence_exact`: the evidence of every decision.
-/

namespace Paac

open Cedar (Engine Record)

/-- The policies of the list on one side of a decision that apply to the request. -/
def DslPolicy.onSide (req : AuthzRequest) (effect : Cedar.Effect) (ps : List DslPolicy) :
    List DslPolicy :=
  ps.filter fun p => p.effect.toCedar = effect && p.applies req

theorem onSide_permit (req : AuthzRequest) (ps : List DslPolicy) :
    DslPolicy.onSide req .permit ps = ps.filter fun p => p.effect = .allow && p.applies req := by
  apply List.filter_congr
  intro p _
  rw [decide_eq_decide.2 (toCedar_eq_permit p.effect)]

theorem onSide_forbid (req : AuthzRequest) (ps : List DslPolicy) :
    DslPolicy.onSide req .forbid ps = ps.filter fun p => p.effect ≠ .allow && p.applies req := by
  apply List.filter_congr
  intro p _
  rw [decide_eq_decide.2 (toCedar_eq_forbid p.effect)]

/-- The satisfied policies of the engine are the compiled ones of those that apply. -/
theorem satisfiedPolicies_compile {req : AuthzRequest} {ms : List (String × Json)}
    (hms : Json.parse (buildContextJson req) = some (.obj ms)) {q : Cedar.Request}
    (hcontext : q.context = Record.ofMembers ms)
    (haction : q.action = ⟨"Action", Text.toAsciiUppercase req.action.name⟩)
    (effect : Cedar.Effect) (ps : List DslPolicy) :
    Cedar.satisfiedPolicies (ps.map compile) effect q =
      (DslPolicy.onSide req effect ps).map compile := by
  have happlies : ∀ p : DslPolicy, (compile p).satisfied q = p.applies req := by
    intro p
    have hscope : (compile p).inScope q = (compile p).inScope (req.toCedar ms) :=
      inScope_congr _ haction
    simp only [DslPolicy.applies, hms]
    rw [Cedar.Policy.satisfied, Cedar.Policy.satisfied, hcontext, hscope]
    rfl
  rw [Cedar.satisfiedPolicies, List.filter_map, DslPolicy.onSide]
  congr 1
  apply List.filter_congr
  intro p _
  rw [Function.comp_apply, happlies]
  rfl

/-- The id of a compiled policy is the one of its record. -/
theorem humanId_compile {E : Engine} {set : E.PolicySet} {id : String} {p : DslPolicy}
    (h : E.policy set id = some (compile p).annotations) : humanId E set id = p.id := by
  rw [humanId, h]
  rfl

section

variable {E : Engine} {fresh : Fresh} {req : AuthzRequest} {cfg : EvaluatorConfig E}
  {d : AuthzDecision} {ps : List DslPolicy}

/-- **The ids a decision lists** are those of the policies on its side that apply, and its effect
is Allow exactly when those are allow policies. -/
theorem matched_ids (hE : E.Lawful) (hdiagnoses : E.Diagnoses)
    (hplain : ps.all DslPolicy.plainNames = true)
    (hset : cedarPolicySetFromDsl E ps = .ok cfg.policySet)
    (h : evaluate E fresh req cfg = .ok d) :
    ∃ response : Cedar.Response, d = decisionOf E fresh req cfg response ∧
      (d.evidence.matchedPolicies.map (·.id)).Perm
        ((DslPolicy.onSide req response.decision.determinedBy ps).map (·.id)) ∧
      (response.decision = .allow ↔
        DslPolicy.onSide req .permit ps ≠ [] ∧ DslPolicy.onSide req .forbid ps = []) := by
  obtain ⟨es, q, p, a, r, c, hcontext, ha, hq, rfl⟩ := evaluate_ok h
  obtain ⟨ms, hms, rfl⟩ := hE.context_reads hcontext
  have hparts := hE.request_parts hq
  have haction : q.action = ⟨"Action", Text.toAsciiUppercase req.action.name⟩ := by
    rw [hparts]
    exact Evaluate.uid_ok hE ha
  have hread : q.context = Record.ofMembers ms := by rw [hparts]
  have htext := cedarPolicySetFromDsl_ok hset
  have hparse := parse_dslToCedar hplain
  have hsatisfied := fun effect => satisfiedPolicies_compile hms hread haction effect ps
  refine ⟨_, rfl, ?_, ?_⟩
  · -- the ids in the annotations are those of the policies
    have hids := hdiagnoses.reason_map htext hparse
      (f := humanId E cfg.policySet) (g := fun cp => (cp.annotation "id").getD "")
      (fun cp hcp id hid => by
        obtain ⟨p', -, rfl⟩ := List.mem_map.1 hcp
        exact humanId_compile hid) q es
    rw [hsatisfied, List.map_map] at hids
    simp only [decisionOf, List.map_map]
    exact hids
  · rw [hE.decides htext hparse, Cedar.decision, hsatisfied, hsatisfied, List.isEmpty_map,
      List.isEmpty_map]
    cases hpermit : DslPolicy.onSide req .permit ps with
    | nil => simp
    | cons x xs => cases DslPolicy.onSide req .forbid ps <;> simp

/-- The determining policy is the first one listed. -/
theorem determining_of_matched {response : Cedar.Response}
    (h : d = decisionOf E fresh req cfg response) (hne : d.evidence.matchedPolicies ≠ []) :
    ∃ m ∈ d.evidence.matchedPolicies, d.evidence.determiningPolicy = some m := by
  have hdetermining : d.evidence.determiningPolicy = d.evidence.matchedPolicies.head?.or
      (if d.effect = .deny then some denyByDefault else none) := by rw [h]; rfl
  cases hmatched : d.evidence.matchedPolicies with
  | nil => exact absurd hmatched hne
  | cons m rest =>
      refine ⟨m, List.mem_cons_self, ?_⟩
      rw [hdetermining, hmatched]
      rfl

end

/-- **Evidence is exact.** On Allow the ids listed are those of the allow policies that apply, and
there is one; on Deny those of the deny and review policies that apply; the determining policy is
one of those listed, or the default where there is none. -/
theorem evidence_exact (E : Engine) (hE : E.Lawful) (hdiagnoses : E.Diagnoses) (fresh : Fresh)
    (req : AuthzRequest) (cfg : EvaluatorConfig E) (d : AuthzDecision) (ps : List DslPolicy)
    (hplain : ps.all DslPolicy.plainNames = true)
    (hset : cedarPolicySetFromDsl E ps = .ok cfg.policySet)
    (h : evaluate E fresh req cfg = .ok d) :
    d.evidence.effect = d.effect ∧ (d.effect = .allow ∨ d.effect = .deny) ∧
      (d.effect = .allow →
        d.evidence.matchedPolicies ≠ [] ∧
        (d.evidence.matchedPolicies.map (·.id)).Perm
          ((ps.filter fun p => p.effect = .allow && p.applies req).map (·.id)) ∧
        ∃ m ∈ d.evidence.matchedPolicies, d.evidence.determiningPolicy = some m) ∧
      (d.effect = .deny → (∃ p ∈ ps, p.effect ≠ .allow ∧ p.applies req = true) →
        (d.evidence.matchedPolicies.map (·.id)).Perm
          ((ps.filter fun p => p.effect ≠ .allow && p.applies req).map (·.id)) ∧
        ∃ m ∈ d.evidence.matchedPolicies, d.evidence.determiningPolicy = some m) ∧
      (d.effect = .deny → (¬∃ p ∈ ps, p.effect ≠ .allow ∧ p.applies req = true) →
        d.evidence.matchedPolicies = [] ∧ d.evidence.determiningPolicy = some denyByDefault) := by
  obtain ⟨response, hd, hids, hallow⟩ := matched_ids hE hdiagnoses hplain hset h
  have heffect : d.effect = effectFromCedar response.decision := by rw [hd]; rfl
  have hmatched : ∀ {ids : List String}, (d.evidence.matchedPolicies.map (·.id)).Perm ids →
      (d.evidence.matchedPolicies = [] ↔ ids = []) := by
    intro ids hperm
    rw [← List.map_eq_nil_iff (f := MatchedPolicy.id)]
    exact ⟨fun hnil => List.nil_perm.1 (hnil ▸ hperm), fun hnil => List.perm_nil.1 (hnil ▸ hperm)⟩
  have hforbid : DslPolicy.onSide req .forbid ps = [] ↔
      ¬∃ p ∈ ps, p.effect ≠ .allow ∧ p.applies req = true := by
    rw [onSide_forbid, List.filter_eq_nil_iff]
    simp
  have hdeny : d.effect = .deny → response.decision = .deny := by
    intro hd'
    cases hcase : response.decision with
    | allow => rw [heffect, hcase] at hd'; cases hd'
    | deny => rfl
  refine ⟨by rw [hd]; rfl, ?_, ?_, ?_, ?_⟩
  · rw [heffect]
    cases response.decision with
    | allow => exact Or.inl rfl
    | deny => exact Or.inr rfl
  · intro hd'
    rw [heffect, effectFromCedar_eq_allow] at hd'
    rw [hd'] at hids
    have hne : d.evidence.matchedPolicies ≠ [] := by
      rw [Ne, hmatched hids, List.map_eq_nil_iff]
      exact (hallow.1 hd').1
    rw [← onSide_permit]
    exact ⟨hne, hids, determining_of_matched hd hne⟩
  · intro hd' hsome
    rw [hdeny hd'] at hids
    rw [← onSide_forbid]
    refine ⟨hids, determining_of_matched hd ?_⟩
    rw [Ne, hmatched hids, List.map_eq_nil_iff]
    exact fun hnil => hforbid.1 hnil hsome
  · intro hd' hnone
    rw [hdeny hd'] at hids
    have hnil : d.evidence.matchedPolicies = [] := by
      rw [hmatched hids, List.map_eq_nil_iff]
      exact hforbid.2 hnone
    refine ⟨hnil, ?_⟩
    have hdetermining : d.evidence.determiningPolicy = d.evidence.matchedPolicies.head?.or
        (if d.effect = .deny then some denyByDefault else none) := by rw [hd]; rfl
    rw [hdetermining, hnil, if_pos hd']
    rfl

/-- Bob is denied a document about an executive by the closed policy, though the open one applies. -/
theorem evidence_exact_closed :
    ∃ d, evaluate Engine.reference ⟨"u", "t"⟩ (Membership.request.withSubjectGroups ["EXEC"])
        Membership.config = .ok d ∧ d.effect = .deny ∧
      d.evidence.matchedPolicies.map (·.id) = ["closed"] := by
  obtain ⟨d, hd⟩ := @Membership.decided ["EXEC"] (by simp)
  obtain ⟨-, htwo, -, hdeny, -⟩ := evidence_exact Engine.reference Engine.reference_lawful
    Engine.reference_diagnoses ⟨"u", "t"⟩ (Membership.request.withSubjectGroups ["EXEC"])
    Membership.config d Membership.policies Membership.plain_policies
    (cedarPolicySetFromDsl_reference Membership.plain_policies) hd
  have hdenied : d.effect = .deny := by
    apply htwo.resolve_left
    rw [Membership.allowed_iff hd]
    decide +kernel
  have hclosed : (Membership.policies.filter fun p => p.effect ≠ .allow &&
      p.applies (Membership.request.withSubjectGroups ["EXEC"])).map (·.id) = ["closed"] := by
    decide +kernel
  have hsome : ∃ p ∈ Membership.policies, p.effect ≠ .allow ∧
      p.applies (Membership.request.withSubjectGroups ["EXEC"]) = true := by decide +kernel
  obtain ⟨hids, -⟩ := hdeny hdenied hsome
  rw [hclosed] at hids
  exact ⟨d, hd, hdenied, List.perm_singleton.1 hids⟩

end Paac
