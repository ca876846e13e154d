import Paac.Library.Cedar.Diagnostics
import Paac.Policy.GroupMembers

set_option autoImplicit false

/-!
# Compiled policies never fail

The translator and the builder of the context name and type the attributes each for itself. They
agree, so no compiled policy is skipped and a decision carries no diagnostic of the engine.

An error at run time would need a missing attribute, a comparison of a set, or a membership test in
something that is no set. On the facts a context presents, every attribute that a compiled policy
reads is there with its type, so every conjunct evaluates to a Boolean, also the ones that the
engine does not come to.

## Main results

- `evaluates_factors`: on the facts a context presents, every conjunct the translator writes
  evaluates to a Boolean.
- `evaluates_compile`: so does the condition of a compiled policy.
- `notes_of_no_errors`: an answer without errors leaves no note in the evidence.
- `compiled_policies_never_fail`: for every list of policies and every request that avoids the
  built-in names.
-/

namespace Paac

open Cedar (Engine EvalsTo Record)

section

variable {c : Record} {f : Facts}

/-- Alternatives have a value when each of them has one. -/
theorem evaluates_anyFactor {atom : String → Cedar.Atom} {g : String → Bool}
    (h : ∀ s, EvalsTo c (atom s).expr (g s)) (ss : List String) :
    ∀ factor ∈ anyFactor (ss.map atom), ∃ b, EvalsTo c factor.expr b := by
  cases ss with
  | nil => intro factor hfactor; cases hfactor
  | cons s ss =>
      intro factor hfactor
      obtain rfl := List.mem_singleton.1 hfactor
      exact ⟨_, evalsTo_disjunction h s ss⟩

/-- Exceptions have a value when each of them has one. -/
theorem evaluates_noneFactor {atom : String → Cedar.Atom} {g : String → Bool}
    (h : ∀ s, EvalsTo c (atom s).expr (g s)) (ss : List String) :
    ∀ factor ∈ noneFactor (ss.map atom), ∃ b, EvalsTo c factor.expr b := by
  cases ss with
  | nil => intro factor hfactor; cases hfactor
  | cons s ss =>
      intro factor hfactor
      obtain rfl := List.mem_singleton.1 hfactor
      exact ⟨_, (evalsTo_disjunction h s ss).not⟩

/-- Every conjunct of a compiled policy evaluates on the facts a context presents. -/
theorem evaluates_factors (hc : Presents c f) (p : DslPolicy) :
    ∀ factor ∈ (printable p).first :: conditionFactors p, ∃ b, EvalsTo c factor.expr b := by
  intro factor hfactor
  simp only [printable, conditionFactors, List.mem_cons, List.mem_append] at hfactor
  rcases hfactor with rfl | rfl | ((hroles | hsubjects) | hgroups) | hexempt
  · exact ⟨_, Cedar.evalsTo_eqStr p.resource hc.kind⟩
  · exact ⟨_, Cedar.evalsTo_eqStr p.action hc.action⟩
  · exact evaluates_anyFactor (evalsTo_roleAtom hc) p.whenRoles factor hroles
  · exact evaluates_anyFactor (evalsTo_subjectAtom hc) p.whereSubjects factor hsubjects
  · exact evaluates_anyFactor (evalsTo_groupAtom hc) p.whereSubjectGroups factor hgroups
  · exact evaluates_noneFactor (evalsTo_roleAtom hc) p.unlessRoles factor hexempt

/-- The condition of a compiled policy evaluates to a Boolean. -/
theorem evaluates_compile (hc : Presents c f) (p : DslPolicy) :
    ∀ e ∈ (compile p).conditions, ∃ b, EvalsTo c e b := by
  intro e he
  obtain rfl := List.mem_singleton.1 he
  apply Cedar.evaluates_andAll
  rw [List.forall_mem_cons, List.forall_mem_map]
  have hfactors := evaluates_factors hc p
  rw [List.forall_mem_cons] at hfactors
  exact hfactors

end

/-- The notes of a decision without skipped policies hold no diagnostic of the engine. -/
theorem notes_of_no_errors {E : Engine} {fresh : Fresh} {req : AuthzRequest}
    {cfg : EvaluatorConfig E} {response : Cedar.Response} (h : response.errors = []) :
    ∀ note ∈ (decisionOf E fresh req cfg response).evidence.notes,
      note = "deny-by-default: no permitting policy matched" := by
  intro note hnote
  simp only [decisionOf, h, List.map_nil, List.nil_append] at hnote
  split at hnote
  · exact List.mem_singleton.1 hnote
  · cases hnote

/-- **Compiled policies never fail at run time.** On a request whose free-form keys avoid the
built-in names, with plain action and kind, every condition of the translated policies evaluates to
a Boolean whenever the context is accepted: no policy is skipped, and no note is a diagnostic. -/
theorem compiled_policies_never_fail (E : Engine) (hE : E.Lawful) (hdiagnoses : E.Diagnoses)
    (ps : List DslPolicy) (hplain : ps.all DslPolicy.plainNames = true) (req : AuthzRequest)
    (havoid : AvoidsBuiltins req) (haction : Cedar.isPlain req.action.name = true)
    (hkind : Cedar.isPlain req.resource.kind = true) :
    ∃ policies, Cedar.parsePolicies (dslToCedar ps) = some policies ∧
      (∀ c, E.contextFromJsonStr (buildContextJson req) = .ok c →
        (∀ p ∈ policies, ∀ e ∈ p.conditions, ∃ b, EvalsTo c e b) ∧
        ∀ principal action resource,
          Cedar.erringPolicies policies ⟨principal, action, resource, c⟩ = []) ∧
      ∀ (fresh : Fresh) (cfg : EvaluatorConfig E) (d : AuthzDecision),
        cedarPolicySetFromDsl E ps = .ok cfg.policySet → evaluate E fresh req cfg = .ok d →
          ∀ note ∈ d.evidence.notes, ¬"cedar diagnostic: ".toList <+: note.toList := by
  have hevaluates : ∀ c, E.contextFromJsonStr (buildContextJson req) = .ok c →
      ∀ p ∈ ps.map compile, ∀ e ∈ p.conditions, ∃ b, EvalsTo c e b := by
    intro c hcontext p hp
    obtain ⟨ms, hms, rfl⟩ := hE.context_reads hcontext
    obtain ⟨p, -, rfl⟩ := List.mem_map.1 hp
    exact evaluates_compile (presents_context hms havoid haction hkind) p
  refine ⟨ps.map compile, parse_dslToCedar hplain, ?_, ?_⟩
  · intro c hcontext
    have hall := hevaluates c hcontext
    exact ⟨hall, fun _ _ _ => Cedar.erringPolicies_eq_nil hall⟩
  · intro fresh cfg d hset hd note hnote
    obtain ⟨es, q, p, a, r, c, hcontext, -, hq, rfl⟩ := evaluate_ok hd
    have hnone : Cedar.erringPolicies (ps.map compile) q = [] := by
      apply Cedar.erringPolicies_eq_nil
      rw [hE.request_parts hq]
      exact hevaluates c hcontext
    -- one message for each erring policy, and there is none
    have hmessages := hdiagnoses.one_message (cedarPolicySetFromDsl_ok hset)
      (parse_dslToCedar hplain) q es
    rw [hnone, List.length_nil, List.length_eq_zero_iff] at hmessages
    rw [notes_of_no_errors hmessages note hnote]
    decide

/-- The policies on documents decide about Ann without a diagnostic. -/
theorem compiled_policies_never_fail_documents :
    ∃ d, evaluate Engine.reference ⟨"u", "t"⟩ (Membership.request.withSubjectGroups ["EXEC"])
        Membership.config = .ok d ∧
      ∀ note ∈ d.evidence.notes, ¬"cedar diagnostic: ".toList <+: note.toList := by
  obtain ⟨d, hd⟩ := @Membership.decided ["EXEC"] (by simp)
  obtain ⟨_, -, -, hnotes⟩ := compiled_policies_never_fail Engine.reference Engine.reference_lawful
    Engine.reference_diagnoses Membership.policies Membership.plain_policies
    (Membership.request.withSubjectGroups ["EXEC"]) (fun k hk => absurd hk List.not_mem_nil)
    (by decide) (by decide)
  exact ⟨d, hd, hnotes ⟨"u", "t"⟩ Membership.config d
    (cedarPolicySetFromDsl_reference Membership.plain_policies) hd⟩

end Paac
