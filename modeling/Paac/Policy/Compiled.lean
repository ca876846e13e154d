import Paac.Policy.Translate
import Paac.Core.Context

set_option autoImplicit false

/-!
# Compiled policies on a request

`Facts` are the values the evaluator computes from a request; a context presents them when its
built-in attributes hold them. On such a context a compiled policy never errs, and it is satisfied
exactly when its record admits the facts. So the decision on compiled policies is a statement about
records and facts, and neither the generated text nor the context appears in it.

`DslPolicy.admits` states the condition of a record clause by clause, as the translator compiles it:
subject ids and subject groups are two conjuncts. It is not what the documentation says of a block;
that comparison is made in `Fidelity.lean`.

## Main results

- `presents_context`: the context of a request that avoids the built-in names presents its facts.
- `evalsTo_roleAtom`, `evalsTo_groupAtom`, `evalsTo_subjectAtom`: every check has its value there.
- `satisfied_compile`: a compiled policy is satisfied exactly when its record admits the facts.
- `decision_compiled`: so the decision is Allow exactly when the policies grant the facts.
- `evaluate_compiled`: the decision rule of the evaluator over parsed records.
-/

namespace Paac

open Cedar (Engine Record Value EvalsTo)

/-! ## Facts -/

/-- What the built-in attributes say about a request. -/
structure Facts where
  action : String
  kind : String
  isSelf : Bool
  inDirectReports : Bool
  subjectId : String
  subjectGroups : List String
  roles : List String
  deriving DecidableEq, Repr

/-- The facts of a request. -/
def Facts.of (req : AuthzRequest) : Facts :=
  { action := Text.toAsciiUppercase req.action.name
    kind := Text.toAsciiUppercase req.resource.kind
    isSelf := subjectIsSelf req
    inDirectReports := subjectInDirectReports req
    subjectId := (req.subject.map (·.id)).getD ""
    subjectGroups := (req.subject.map (·.groups)).getD []
    roles := req.principal.roles }

/-- The built-in attributes of the record hold the facts. -/
structure Presents (c : Record) (f : Facts) : Prop where
  action : lookupEntry "action_name" c = some (.str f.action)
  kind : lookupEntry "resource_kind" c = some (.str f.kind)
  isSelf : lookupEntry "subject_is_self" c = some (.bool f.isSelf)
  inDirectReports : lookupEntry "subject_in_direct_reports" c = some (.bool f.inDirectReports)
  subjectId : lookupEntry "subject_id" c = some (.str f.subjectId)
  subjectGroups : lookupEntry "subject_groups" c = some (.set (f.subjectGroups.map .str))
  roles : lookupEntry "principal_roles" c = some (.set (f.roles.map .str))

/-- No key of the free-form context is a built-in name. -/
def AvoidsBuiltins (req : AuthzRequest) : Prop :=
  ∀ k ∈ req.context.values.keys, k ∉ builtinNames

theorem AvoidsBuiltins.settled {req : AuthzRequest} (h : AvoidsBuiltins req) {k : String}
    (hk : k ∈ builtinNames) : Settled req k :=
  Or.inl fun hmem => h k hmem hk

/-- **The context presents the facts** when its free-form keys avoid the built-in names and action
and kind need no escape. -/
theorem presents_context {req : AuthzRequest} {ms : List (String × Json)}
    (hms : Json.parse (buildContextJson req) = some (.obj ms)) (havoid : AvoidsBuiltins req)
    (haction : Cedar.isPlain req.action.name = true)
    (hkind : Cedar.isPlain req.resource.kind = true) :
    Presents (Record.ofMembers ms) (Facts.of req) := by
  -- the two members in front are plain, so the context reads as the fixed members
  have hlook : ∀ k ∈ builtinNames, lookupEntry k (Record.ofMembers ms) =
      (((lookupEntry k (fixedMembers req)).map Json.Plain.toJson).or
        (lookupEntry k [("action_name", .str (Text.toAsciiUppercase req.action.name)),
          ("resource_kind", .str (Text.toAsciiUppercase req.resource.kind))])).map
            Value.ofJson := by
    intro k hk
    obtain ⟨head, hhead, hlookup⟩ := lookup_context hms (havoid.settled hk)
    rw [hlookup, eq_of_headMembers_plain haction hkind hhead]
  constructor
  · rw [hlook _ (by decide)]
    rfl
  · rw [hlook _ (by decide)]
    rfl
  · rw [hlook _ (by decide)]
    rfl
  · rw [hlook _ (by decide)]
    rfl
  · rw [hlook _ (by decide)]
    rfl
  · rw [hlook _ (by decide), ← Value.ofItems_strs]
    rfl
  · rw [hlook _ (by decide), ← Value.ofItems_strs]
    rfl

/-! ## One policy -/

/-- The principal holds one of the roles. -/
def Facts.holdsOneOf (f : Facts) (roles : List String) : Bool := roles.any f.roles.contains

/-- A subject constraint holds. -/
def Facts.meets (f : Facts) (s : String) : Bool :=
  if s = "SELF" then f.isSelf
  else if s = "DIRECT_REPORTS" then f.inDirectReports
  else f.subjectId = s

/-- The subject is in one of the groups. -/
def Facts.inOneOf (f : Facts) (groups : List String) : Bool := groups.any f.subjectGroups.contains

/-- The condition of a policy as its record states it: every clause that is not empty must hold,
subject ids and subject groups being two clauses. -/
def DslPolicy.admits (p : DslPolicy) (f : Facts) : Bool :=
  f.kind = p.resource && f.action = p.action &&
    (p.whenRoles.isEmpty || f.holdsOneOf p.whenRoles) &&
    (p.whereSubjects.isEmpty || p.whereSubjects.any f.meets) &&
    (p.whereSubjectGroups.isEmpty || f.inOneOf p.whereSubjectGroups) &&
    !f.holdsOneOf p.unlessRoles

section

variable {c : Record} {f : Facts}

theorem evalsTo_roleAtom (hc : Presents c f) (r : String) :
    EvalsTo c (roleAtom r).expr (f.roles.contains r) :=
  Cedar.evalsTo_containsStr r hc.roles

theorem evalsTo_groupAtom (hc : Presents c f) (g : String) :
    EvalsTo c (groupAtom g).expr (f.subjectGroups.contains g) :=
  Cedar.evalsTo_containsStr g hc.subjectGroups

theorem evalsTo_subjectAtom (hc : Presents c f) (s : String) :
    EvalsTo c (subjectAtom s).expr (f.meets s) := by
  unfold subjectAtom Facts.meets
  split
  · exact Cedar.evalsTo_attr hc.isSelf
  · split
    · exact Cedar.evalsTo_attr hc.inDirectReports
    · exact Cedar.evalsTo_eqStr s hc.subjectId

/-- A disjunction over names evaluates to the disjunction of what its atoms evaluate to. -/
theorem evalsTo_disjunction {atom : String → Cedar.Atom} {g : String → Bool}
    (h : ∀ s, EvalsTo c (atom s).expr (g s)) (s : String) (ss : List String) :
    EvalsTo c (Cedar.orAll (atom s).expr ((ss.map atom).map Cedar.Atom.expr))
      ((s :: ss).any g) := by
  rw [List.map_map]
  exact Cedar.evalsTo_orAll (fun t => (atom t).expr) g ss (fun t _ => h t) (h s)

/-- Alternatives hold when there are none or one of them holds. -/
theorem holds_anyFactor {atom : String → Cedar.Atom} {g : String → Bool}
    (h : ∀ s, EvalsTo c (atom s).expr (g s)) (ss : List String) :
    ((anyFactor (ss.map atom)).map Cedar.Factor.expr).all (Cedar.holds c) =
      (ss.isEmpty || ss.any g) := by
  cases ss with
  | nil => rfl
  | cons s ss =>
      have hfactor : ((anyFactor ((s :: ss).map atom)).map Cedar.Factor.expr) =
          [Cedar.orAll (atom s).expr ((ss.map atom).map Cedar.Atom.expr)] := rfl
      rw [hfactor, List.all_cons, List.all_nil, Bool.and_true,
        (evalsTo_disjunction h s ss).holds_eq, List.isEmpty_cons, Bool.false_or]

/-- Exceptions hold when none of them applies. -/
theorem holds_noneFactor {atom : String → Cedar.Atom} {g : String → Bool}
    (h : ∀ s, EvalsTo c (atom s).expr (g s)) (ss : List String) :
    ((noneFactor (ss.map atom)).map Cedar.Factor.expr).all (Cedar.holds c) = !ss.any g := by
  cases ss with
  | nil => rfl
  | cons s ss =>
      have hfactor : ((noneFactor ((s :: ss).map atom)).map Cedar.Factor.expr) =
          [.not (Cedar.orAll (atom s).expr ((ss.map atom).map Cedar.Atom.expr))] := rfl
      rw [hfactor, List.all_cons, List.all_nil, Bool.and_true,
        (evalsTo_disjunction h s ss).not.holds_eq]

end

/-- **A compiled policy is satisfied exactly when its record admits the facts.** -/
theorem satisfied_compile {q : Cedar.Request} {f : Facts} (hc : Presents q.context f)
    (haction : q.action = ⟨"Action", f.action⟩) (p : DslPolicy) :
    (compile p).satisfied q = p.admits f := by
  have hkind := (Cedar.evalsTo_eqStr p.resource hc.kind).holds_eq
  have hname := (Cedar.evalsTo_eqStr p.action hc.action).holds_eq
  have hscope : (compile p).inScope q = decide (f.action = p.action) := by
    have hp : (compile p).action = some ⟨"Action", p.action⟩ := rfl
    rw [Cedar.Policy.inScope, hp, haction]
    simp
  have hconditions : (compile p).conditions = [Cedar.andAll
      (.eqStr (.attr "resource_kind") p.resource)
      (.eqStr (.attr "action_name") p.action ::
        ((anyFactor (p.whenRoles.map roleAtom)).map Cedar.Factor.expr ++
          (anyFactor (p.whereSubjects.map subjectAtom)).map Cedar.Factor.expr ++
          (anyFactor (p.whereSubjectGroups.map groupAtom)).map Cedar.Factor.expr ++
          (noneFactor (p.unlessRoles.map roleAtom)).map Cedar.Factor.expr))] := by
    simp only [compile, Cedar.Printable.policy, printable, conditionFactors, List.map_cons,
      List.map_append]
    rfl
  rw [Cedar.Policy.satisfied, hscope, hconditions, List.all_cons, List.all_nil, Bool.and_true,
    Cedar.holds_andAll, List.all_cons, List.all_append, List.all_append, List.all_append, hkind,
    hname, holds_anyFactor (evalsTo_roleAtom hc), holds_anyFactor (evalsTo_subjectAtom hc),
    holds_anyFactor (evalsTo_groupAtom hc), holds_noneFactor (evalsTo_roleAtom hc)]
  simp only [DslPolicy.admits, Facts.holdsOneOf, Facts.inOneOf, Value.isStr]
  cases decide (f.action = p.action) <;> cases decide (f.kind = p.resource) <;>
    simp [Bool.and_assoc]

/-! ## The decision -/

/-- Forbid overrides permit, over the records: some allow policy admits the facts and no deny or
review policy does. -/
def Grants (ps : List DslPolicy) (f : Facts) : Prop :=
  (∃ p ∈ ps, p.effect = .allow ∧ p.admits f = true) ∧
    ∀ p ∈ ps, p.effect ≠ .allow → p.admits f = false

instance (ps : List DslPolicy) (f : Facts) : Decidable (Grants ps f) :=
  inferInstanceAs (Decidable (_ ∧ _))

theorem toCedar_eq_permit (e : DslEffect) : e.toCedar = .permit ↔ e = .allow := by
  cases e <;> simp [DslEffect.toCedar]

theorem toCedar_eq_forbid (e : DslEffect) : e.toCedar = .forbid ↔ e ≠ .allow := by
  cases e <;> simp [DslEffect.toCedar]

theorem effectFromCedar_eq_allow (d : Cedar.Decision) :
    effectFromCedar d = .allow ↔ d = .allow := by
  cases d <;> simp [effectFromCedar]

/-- The decision by compiled policies is the documented one. -/
theorem decision_compiled {q : Cedar.Request} {f : Facts} (hc : Presents q.context f)
    (haction : q.action = ⟨"Action", f.action⟩) (ps : List DslPolicy) :
    Cedar.decision (ps.map compile) q = .allow ↔ Grants ps f := by
  have heffect : ∀ p : DslPolicy, (compile p).effect = p.effect.toCedar := fun _ => rfl
  rw [Cedar.decision_eq_allow_iff, Grants]
  simp only [List.mem_map, exists_exists_and_eq_and, forall_exists_index, and_imp,
    forall_apply_eq_imp_iff₂, heffect, toCedar_eq_permit, toCedar_eq_forbid,
    satisfied_compile hc haction]

/-- **The decision on compiled policies.** Whenever a lawful engine returns a decision, its effect
is Allow exactly when the records grant the facts of the request. -/
theorem evaluate_compiled {E : Engine} (hE : E.Lawful) {fresh : Fresh} {req : AuthzRequest}
    {cfg : EvaluatorConfig E} {d : AuthzDecision} {ps : List DslPolicy}
    (hplain : ps.all DslPolicy.plainNames = true)
    (hset : E.policySetFromStr (dslToCedar ps) = .ok cfg.policySet)
    (havoid : AvoidsBuiltins req) (haction : Cedar.isPlain req.action.name = true)
    (hkind : Cedar.isPlain req.resource.kind = true)
    (h : evaluate E fresh req cfg = .ok d) : d.effect = .allow ↔ Grants ps (Facts.of req) := by
  obtain ⟨ms, q, hms, hcontext, hq, heffect⟩ :=
    evaluate_decides hE hset (parse_dslToCedar hplain) h
  have hpresents := presents_context hms havoid haction hkind
  rw [heffect, effectFromCedar_eq_allow]
  exact decision_compiled (by rw [hcontext]; exact hpresents) hq ps

end Paac
