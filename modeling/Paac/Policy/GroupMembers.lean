import Paac.Core.Reference
import Paac.Policy.Attributes
import Paac.Policy.Compiled

set_option autoImplicit false

/-!
# Group members and the groups of a request

The evaluator knows the members of a group from its configuration and the groups of the subject from
the request. The first become parents of entities, the second the attribute that compiled policies
test: the configured members play no part in it.

Two requests are compared, one whose subject is in the group and one that leaves the group out
(`LeavesOut`). A policy needs the group when it has a line on it and on no other group of the
subject. The membership decides when without it the policies that allow would be gone, or those that
forbid while one that allows stays; then, and only then, the two effects differ.

## Main results

- `lookup_withSubjectGroups`, `lookup_subjectGroups`: putting other groups in changes one attribute
  of the context.
- `applies_withSubjectGroups`: how that changes which policies apply.
- `membershipDecides_iff`, `answers_agree_iff`: when the answers differ.
- `same_effect_iff`: when leaving a group out of the request leaves the effect unchanged.
- `executive_unnamed`: an executive by configuration is allowed what executives are denied when the
  request does not name the group.
-/

namespace Paac

open Cedar (Engine Record Value EvalsTo)

/-- The request with other groups of its subject. -/
def AuthzRequest.withSubjectGroups (req : AuthzRequest) (gs : List String) : AuthzRequest :=
  { req with subject := req.subject.map fun s => { s with groups := gs } }

/-- `gs₁` names the group, `gs₂` leaves it out, and they agree on all others. -/
structure LeavesOut (G : String) (gs₁ gs₂ : List String) : Prop where
  named : G ∈ gs₁
  left : G ∉ gs₂
  others : ∀ g, g ≠ G → (g ∈ gs₂ ↔ g ∈ gs₁)

/-- The request to Cedar with the members of the context. -/
def AuthzRequest.toCedar (req : AuthzRequest) (ms : List (String × Json)) : Cedar.Request :=
  ⟨⟨"User", req.principal.id⟩, ⟨"Action", Text.toAsciiUppercase req.action.name⟩,
    ⟨"Resource", req.resource.entityId⟩, Record.ofMembers ms⟩

/-- The compiled policy is satisfied in the context of the request. -/
def DslPolicy.applies (req : AuthzRequest) (p : DslPolicy) : Bool :=
  match Json.parse (buildContextJson req) with
  | some (.obj ms) => (compile p).satisfied (req.toCedar ms)
  | _ => false

/-- The policy has a line on the group and on no other group of the subject, and no free-form entry
replaces these groups. -/
def DslPolicy.needsGroup (req : AuthzRequest) (G : String) (p : DslPolicy) : Bool :=
  !req.context.values.keys.contains "subject_groups" && p.whereSubjectGroups.contains G &&
    !p.whereSubjectGroups.any fun g =>
      g ≠ G && ((req.subject.map (·.groups)).getD []).contains g

/-- The membership decides: without it the policies that allow would be gone, or those that
forbid, with one that allows left. -/
def MembershipDecides (ps : List DslPolicy) (req : AuthzRequest) (G : String) : Prop :=
  let allows := ps.filter fun p => p.effect = .allow && p.applies req
  let others := ps.filter fun p => p.effect ≠ .allow && p.applies req
  (allows ≠ [] ∧ others = [] ∧ ∀ p ∈ allows, p.needsGroup req G = true) ∨
    (others ≠ [] ∧ (∀ p ∈ others, p.needsGroup req G = true) ∧
      ∃ p ∈ allows, p.needsGroup req G = false)

/-! ## The two contexts -/

section

variable {req : AuthzRequest} {gs₁ gs₂ : List String}

theorem subjectId_withSubjectGroups (gs : List String) :
    (req.withSubjectGroups gs).subject.map (·.id) = req.subject.map (·.id) := by
  rw [AuthzRequest.withSubjectGroups, Option.map_map]
  rfl

theorem subjectIsSelf_withSubjectGroups (gs : List String) :
    subjectIsSelf (req.withSubjectGroups gs) = subjectIsSelf req := by
  unfold subjectIsSelf AuthzRequest.withSubjectGroups
  cases req.subject <;> rfl

theorem subjectInDirectReports_withSubjectGroups (gs : List String) :
    subjectInDirectReports (req.withSubjectGroups gs) = subjectInDirectReports req := by
  unfold subjectInDirectReports AuthzRequest.withSubjectGroups
  cases req.subject <;> rfl

theorem subjectGroups_withSubjectGroups (hsubj : req.subject.isSome = true) (gs : List String) :
    ((req.withSubjectGroups gs).subject.map (·.groups)).getD [] = gs := by
  unfold AuthzRequest.withSubjectGroups
  cases h : req.subject with
  | none => rw [h] at hsubj; cases hsubj
  | some s => rfl

/-- The two contexts agree on every key but the groups of the subject, and on that one too when a
free-form entry replaces it. -/
theorem lookup_withSubjectGroups {ms₁ ms₂ : List (String × Json)} {a : String}
    (h₁ : Json.parse (buildContextJson (req.withSubjectGroups gs₁)) = some (.obj ms₁))
    (h₂ : Json.parse (buildContextJson (req.withSubjectGroups gs₂)) = some (.obj ms₂))
    (ha : a ≠ "subject_groups" ∨ a ∈ req.context.values.keys) :
    lookupEntry a (Record.ofMembers ms₁) = lookupEntry a (Record.ofMembers ms₂) := by
  obtain ⟨head₁, hh₁, hl₁⟩ := lookup_members h₁ a
  obtain ⟨head₂, hh₂, hl₂⟩ := lookup_members h₂ a
  have hheads : headMembers (req.withSubjectGroups gs₁) =
      headMembers (req.withSubjectGroups gs₂) := rfl
  obtain rfl : head₁ = head₂ := Option.some.inj (hh₁.symm.trans (hheads.trans hh₂))
  have hspliced : lookupEntry a
      ((splicedMembers (req.withSubjectGroups gs₁)).map Json.memberJson).reverse =
      lookupEntry a ((splicedMembers (req.withSubjectGroups gs₂)).map Json.memberJson).reverse := by
    have hvalues : ∀ gs, (req.withSubjectGroups gs).context = req.context := fun _ => rfl
    rw [reverse_splicedMembers, reverse_splicedMembers, lookupEntry_append, lookupEntry_append,
      lookupEntry_append, lookupEntry_append, hvalues, hvalues, subjectId_withSubjectGroups,
      subjectId_withSubjectGroups, subjectIsSelf_withSubjectGroups,
      subjectIsSelf_withSubjectGroups, subjectInDirectReports_withSubjectGroups,
      subjectInDirectReports_withSubjectGroups]
    rcases ha with ha | ha
    · rw [lookupEntry_cons_ne (Ne.symm ha), lookupEntry_cons_ne (Ne.symm ha)]
      rfl
    · -- the free-form entry is found first
      have hsome : (lookupEntry a
          (req.context.values.entries.map fun e => (e.1, Json.str e.2)).reverse).isSome := by
        refine lookupEntry_isSome_of_mem ?_
        rw [List.map_reverse, List.mem_reverse, List.map_map]
        exact ha
      obtain ⟨v, hv⟩ := Option.isSome_iff_exists.1 hsome
      rw [hv]
      rfl
  rw [hl₁, hl₂, hspliced]

/-- The groups of the subject in the context, unless a free-form entry replaces them. -/
theorem lookup_subjectGroups {gs : List String} {ms : List (String × Json)}
    (hsubj : req.subject.isSome = true)
    (h : Json.parse (buildContextJson (req.withSubjectGroups gs)) = some (.obj ms))
    (hkey : "subject_groups" ∉ req.context.values.keys) :
    lookupEntry "subject_groups" (Record.ofMembers ms) = some (.set (gs.map .str)) := by
  obtain ⟨head, -, hlookup⟩ := lookup_context h (k := "subject_groups") (Or.inl hkey)
  have hfixed : lookupEntry "subject_groups" (fixedMembers (req.withSubjectGroups gs)) =
      some (.strs gs) := by
    have hgroups := subjectGroups_withSubjectGroups hsubj gs
    have hmember : lookupEntry "subject_groups" (fixedMembers (req.withSubjectGroups gs)) =
        some (.strs (((req.withSubjectGroups gs).subject.map (·.groups)).getD [])) := rfl
    rw [hmember, hgroups]
  rw [hlookup, hfixed, ← Value.ofItems_strs]
  rfl

/-! ## One policy -/

theorem inScope_congr (p : Cedar.Policy) {q q' : Cedar.Request} (h : q.action = q'.action) :
    p.inScope q = p.inScope q' := by
  rw [Cedar.Policy.inScope, Cedar.Policy.inScope, h]

/-- Without the group the subject is in one of the listed groups exactly when it was with it and is
in another of them. -/
theorem LeavesOut.inOne_iff {G : String} (hout : LeavesOut G gs₁ gs₂) (groups : List String) :
    (groups = [] ∨ ∃ g ∈ groups, g ∈ gs₂) ↔
      (groups = [] ∨ ∃ g ∈ groups, g ∈ gs₁) ∧
        (G ∈ groups → ∃ g ∈ groups, g ≠ G ∧ g ∈ gs₁) := by
  constructor
  · rintro (rfl | ⟨g, hg, hmem⟩)
    · exact ⟨Or.inl rfl, fun h => absurd h List.not_mem_nil⟩
    · have hne : g ≠ G := fun h => hout.left (h ▸ hmem)
      have hmem₁ := (hout.others g hne).1 hmem
      exact ⟨Or.inr ⟨g, hg, hmem₁⟩, fun _ => ⟨g, hg, hne, hmem₁⟩⟩
  · rintro ⟨hempty | ⟨g, hg, hmem⟩, hother⟩
    · exact Or.inl hempty
    · refine Or.inr ?_
      by_cases h : g = G
      · obtain ⟨g', hg', hne, hmem'⟩ := hother (h ▸ hg)
        exact ⟨g', hg', (hout.others g' hne).2 hmem'⟩
      · exact ⟨g, hg, (hout.others g h).2 hmem⟩

/-- The conjunct on the groups holds when the policy names none, or one that the subject is in. -/
theorem holds_groupFactor {c : Record} {gs : List String}
    (hc : lookupEntry "subject_groups" c = some (.set (gs.map .str))) (p : DslPolicy) :
    (∀ f ∈ anyFactor (p.whereSubjectGroups.map groupAtom), Cedar.holds c f.expr = true) ↔
      (p.whereSubjectGroups = [] ∨ ∃ g ∈ p.whereSubjectGroups, g ∈ gs) := by
  have hatom : ∀ g, EvalsTo c (groupAtom g).expr (gs.contains g) := fun g =>
    Cedar.evalsTo_containsStr g hc
  have hall := holds_anyFactor hatom p.whereSubjectGroups
  rw [← List.forall_mem_map (f := Cedar.Factor.expr) (P := fun e => Cedar.holds c e = true),
    ← List.all_eq_true, hall]
  simp

/-- **One policy on both requests.** Without the group a policy applies when it did with it and
does not need it. -/
theorem applies_withSubjectGroups {G : String} (hout : LeavesOut G gs₁ gs₂)
    (hsubj : req.subject.isSome = true) {ms₁ ms₂ : List (String × Json)}
    (h₁ : Json.parse (buildContextJson (req.withSubjectGroups gs₁)) = some (.obj ms₁))
    (h₂ : Json.parse (buildContextJson (req.withSubjectGroups gs₂)) = some (.obj ms₂))
    (p : DslPolicy) : p.applies (req.withSubjectGroups gs₂) =
      (p.applies (req.withSubjectGroups gs₁) && !p.needsGroup (req.withSubjectGroups gs₁) G) := by
  have hothers : (∀ f ∈ ungroupedFactors p, Cedar.holds (Record.ofMembers ms₂) f.expr = true) ↔
      ∀ f ∈ ungroupedFactors p, Cedar.holds (Record.ofMembers ms₁) f.expr = true := by
    refine forall₂_congr fun f hf => ?_
    rw [Cedar.holds_congr f.expr fun a ha =>
      lookup_withSubjectGroups h₂ h₁ (Or.inl (attrs_ungroupedFactors p f hf a ha).2)]
  have hgroup : (∀ f ∈ anyFactor (p.whereSubjectGroups.map groupAtom),
      Cedar.holds (Record.ofMembers ms₂) f.expr = true) ↔
      (∀ f ∈ anyFactor (p.whereSubjectGroups.map groupAtom),
        Cedar.holds (Record.ofMembers ms₁) f.expr = true) ∧
          p.needsGroup (req.withSubjectGroups gs₁) G = false := by
    -- a free-form key of that name replaces the groups, so the change does not show
    by_cases hkey : "subject_groups" ∈ req.context.values.keys
    · have hneeds : p.needsGroup (req.withSubjectGroups gs₁) G = false := by
        have hkey' : (req.withSubjectGroups gs₁).context.values.keys.contains "subject_groups" =
            true := List.contains_iff_mem.2 hkey
        rw [DslPolicy.needsGroup, hkey']
        rfl
      rw [and_iff_left hneeds]
      refine forall₂_congr fun f hf => ?_
      rw [Cedar.holds_congr f.expr fun a ha => lookup_withSubjectGroups h₂ h₁ (Or.inr ?_)]
      have hname : a = "subject_groups" := attrs_anyFactor (P := (· = "subject_groups"))
        (fun g a ha => by rwa [attrs_groupAtom, List.mem_singleton] at ha) _ f hf a ha
      rw [hname]
      exact hkey
    · have hkey' : (req.withSubjectGroups gs₁).context.values.keys.contains "subject_groups" =
          false := by
        rw [Bool.eq_false_iff, Ne, List.contains_iff_mem]
        exact hkey
      rw [holds_groupFactor (lookup_subjectGroups hsubj h₂ hkey),
        holds_groupFactor (lookup_subjectGroups hsubj h₁ hkey), DslPolicy.needsGroup, hkey',
        subjectGroups_withSubjectGroups hsubj, hout.inOne_iff]
      simp
  have hscope : (compile p).inScope ((req.withSubjectGroups gs₂).toCedar ms₂) =
      (compile p).inScope ((req.withSubjectGroups gs₁).toCedar ms₁) := inScope_congr _ rfl
  have hcontext : ∀ (req : AuthzRequest) ms, (req.toCedar ms).context = Record.ofMembers ms :=
    fun _ _ => rfl
  rw [Bool.eq_iff_iff, Bool.and_eq_true, Bool.not_eq_true']
  simp only [DslPolicy.applies, h₁, h₂]
  rw [satisfied_compile_iff, satisfied_compile_iff]
  simp only [mem_factors, or_imp, forall_and, hcontext, hothers, hgroup, hscope, and_assoc]

/-! ## Decisions -/

/-- The generated text reads as the compiled policies. -/
def ReadsBack (ps : List DslPolicy) : Prop :=
  Cedar.parsePolicies (dslToCedar ps) = some (ps.map compile)

/-- The decision on compiled policies, over those that apply. -/
theorem evaluate_applies {E : Engine} (hE : E.Lawful) {ps : List DslPolicy} (hreads : ReadsBack ps)
    {cfg : EvaluatorConfig E} (hcfg : cedarPolicySetFromDsl E ps = .ok cfg.policySet)
    {fresh : Fresh} {d : AuthzDecision} (h : evaluate E fresh req cfg = .ok d) :
    ∃ ms, Json.parse (buildContextJson req) = some (.obj ms) ∧
      d.effect = if (∃ p ∈ ps, p.effect = .allow ∧ p.applies req = true) ∧
        ∀ p ∈ ps, p.effect ≠ .allow → p.applies req = false then .allow else .deny := by
  obtain ⟨ms, q, hms, hcontext, haction, heffect⟩ :=
    evaluate_decides hE (cedarPolicySetFromDsl_ok hcfg) hreads h
  refine ⟨ms, hms, ?_⟩
  have hscope : q.action = (req.toCedar ms).action := haction
  have happlies : ∀ p : DslPolicy, (compile p).satisfied q = p.applies req := by
    intro p
    simp only [DslPolicy.applies, hms]
    rw [Cedar.Policy.satisfied, Cedar.Policy.satisfied, hcontext, inScope_congr _ hscope]
    rfl
  have heffects : ∀ p : DslPolicy, (compile p).effect = p.effect.toCedar := fun _ => rfl
  -- forbid overrides permit, over the records
  have hdecision : Cedar.decision (ps.map compile) q = .allow ↔
      (∃ p ∈ ps, p.effect = .allow ∧ p.applies req = true) ∧
        ∀ p ∈ ps, p.effect ≠ .allow → p.applies req = false := by
    rw [Cedar.decision_eq_allow_iff]
    simp only [List.mem_map, exists_exists_and_eq_and, forall_exists_index, and_imp,
      forall_apply_eq_imp_iff₂, heffects, toCedar_eq_permit, toCedar_eq_forbid, happlies]
  rw [heffect]
  split
  · rename_i hgrants
    rw [hdecision.2 hgrants]
    rfl
  · rename_i hgrants
    cases hdec : Cedar.decision (ps.map compile) q with
    | allow => exact absurd (hdecision.1 hdec) hgrants
    | deny => rfl

/-- When a membership is decisive, policy by policy. -/
theorem membershipDecides_iff (ps : List DslPolicy) (req : AuthzRequest) (G : String) :
    MembershipDecides ps req G ↔
      ((∃ p ∈ ps, p.effect = .allow ∧ p.applies req = true) ∧
        (∀ p ∈ ps, p.effect ≠ .allow → p.applies req = false) ∧
        ¬∃ p ∈ ps, p.effect = .allow ∧ p.applies req = true ∧ p.needsGroup req G = false) ∨
      ((¬∀ p ∈ ps, p.effect ≠ .allow → p.applies req = false) ∧
        (∀ p ∈ ps, p.effect ≠ .allow → p.applies req = true → p.needsGroup req G = true) ∧
        ∃ p ∈ ps, p.effect = .allow ∧ p.applies req = true ∧ p.needsGroup req G = false) := by
  simp [MembershipDecides, List.filter_eq_nil_iff, and_assoc]

/-- Two answers of the decision rule, the second after an allow policy may be lost and others may be
gone. -/
theorem answers_agree_iff {A B C D : Prop} (hA : C → A) (hD : B → D) :
    ((A ∧ B) ↔ (C ∧ D)) ↔ ¬((A ∧ B ∧ ¬C) ∨ (¬B ∧ D ∧ C)) := by
  tauto

/-- **When leaving a group out changes nothing.** Two decided requests that differ in naming the
group `G` of their subject get the same effect exactly when the membership does not decide, whatever
members the configuration lists for `G`. -/
theorem same_effect_iff {E : Engine} (hE : E.Lawful) {ps : List DslPolicy} (hreads : ReadsBack ps)
    {cfg : EvaluatorConfig E} (hcfg : cedarPolicySetFromDsl E ps = .ok cfg.policySet)
    (hsubj : req.subject.isSome = true) {G : String} (hout : LeavesOut G gs₁ gs₂)
    {fresh₁ fresh₂ : Fresh} {d₁ d₂ : AuthzDecision}
    (h₁ : evaluate E fresh₁ (req.withSubjectGroups gs₁) cfg = .ok d₁)
    (h₂ : evaluate E fresh₂ (req.withSubjectGroups gs₂) cfg = .ok d₂) :
    d₁.effect = d₂.effect ↔ ¬MembershipDecides ps (req.withSubjectGroups gs₁) G := by
  obtain ⟨ms₁, hms₁, heffect₁⟩ := evaluate_applies hE hreads hcfg h₁
  obtain ⟨ms₂, hms₂, heffect₂⟩ := evaluate_applies hE hreads hcfg h₂
  have happlies := applies_withSubjectGroups hout hsubj hms₁ hms₂
  have hsame : ∀ P Q : Prop, ∀ [Decidable P] [Decidable Q],
      ((if P then DecisionEffect.allow else .deny) = if Q then .allow else .deny) ↔ (P ↔ Q) := by
    intro P Q _ _
    split <;> split <;> simp [*]
  -- an allow policy left without the group applied with it; a policy that did not apply needs none
  have hleft : (∃ p ∈ ps, p.effect = .allow ∧ p.applies (req.withSubjectGroups gs₂) = true) →
      ∃ p ∈ ps, p.effect = .allow ∧ p.applies (req.withSubjectGroups gs₁) = true := by
    rintro ⟨p, hp, hallow, happ⟩
    rw [happlies, Bool.and_eq_true] at happ
    exact ⟨p, hp, hallow, happ.1⟩
  have hgone : (∀ p ∈ ps, p.effect ≠ .allow → p.applies (req.withSubjectGroups gs₁) = false) →
      ∀ p ∈ ps, p.effect ≠ .allow → p.applies (req.withSubjectGroups gs₂) = false := by
    intro h p hp hother
    rw [happlies, h p hp hother, Bool.false_and]
  have hallows : (∃ p ∈ ps, p.effect = .allow ∧
      p.applies (req.withSubjectGroups gs₁) = true ∧
        p.needsGroup (req.withSubjectGroups gs₁) G = false) ↔
      ∃ p ∈ ps, p.effect = .allow ∧ p.applies (req.withSubjectGroups gs₂) = true := by
    simp only [happlies, Bool.and_eq_true, Bool.not_eq_true']
  have hothers : (∀ p ∈ ps, p.effect ≠ .allow → p.applies (req.withSubjectGroups gs₁) = true →
      p.needsGroup (req.withSubjectGroups gs₁) G = true) ↔
      ∀ p ∈ ps, p.effect ≠ .allow → p.applies (req.withSubjectGroups gs₂) = false := by
    refine forall₂_congr fun p _ => forall_congr' fun _ => ?_
    rw [happlies, Bool.and_eq_false_iff, Bool.not_eq_false', ← Bool.not_eq_true, imp_iff_not_or]
  rw [heffect₁, heffect₂, hsame, membershipDecides_iff, hallows, hothers]
  exact answers_agree_iff hleft hgone

end

namespace Membership

/-- Documents are open, but those about an executive. -/
def policies : List DslPolicy :=
  [⟨"open", .allow, "READ", "DOC", [], [], [], [], ""⟩,
    ⟨"closed", .deny, "READ", "DOC", [], [], [], ["EXEC"], ""⟩]

/-- The configuration lists Ann as an executive. -/
def config : EvaluatorConfig Engine.reference :=
  ⟨(policies.map compile : List Cedar.Policy), "r1", none, .ofList [("EXEC", ["ann"])]⟩

/-- Bob reads a document about Ann. -/
def request : AuthzRequest :=
  { principal := ⟨"bob", [], [], .empty⟩
    action := ⟨"READ"⟩
    resource := ⟨"DOC", none, .empty⟩
    subject := some ⟨"ann", "Employee", [], .empty⟩
    context := ⟨.empty⟩
    relationships := []
    actingAs := none
    onBehalfOf := none }

theorem plain_policies : policies.all DslPolicy.plainNames = true := by decide +kernel

theorem decided {gs : List String} (hgs : gs ∈ [[], ["STAFF"], ["EXEC"]]) :
    ∃ d, evaluate Engine.reference ⟨"u", "t"⟩ (request.withSubjectGroups gs) config = .ok d := by
  have hsimple : ∀ gs ∈ [[], ["STAFF"], ["EXEC"]],
      isSimpleRequest (request.withSubjectGroups gs) = true := by decide +kernel
  have hvalid : request.validate = .ok () := by decide
  exact @evaluate_reference (request.withSubjectGroups gs) hvalid (hsimple gs hgs) _ _

/-- The effect is Allow exactly when the records grant the facts. -/
theorem allowed_iff {gs : List String} {d : AuthzDecision}
    (h : evaluate Engine.reference ⟨"u", "t"⟩ (request.withSubjectGroups gs) config = .ok d) :
    d.effect = .allow ↔ Grants policies (Facts.of (request.withSubjectGroups gs)) := by
  have haction : Cedar.isPlain request.action.name = true := by decide
  have hkind : Cedar.isPlain request.resource.kind = true := by decide
  exact evaluate_compiled Engine.reference_lawful plain_policies
    (cedarPolicySetFromDsl_ok (cedarPolicySetFromDsl_reference plain_policies))
    (fun k hk => absurd hk List.not_mem_nil) haction hkind h

theorem leavesOut_staff : LeavesOut "STAFF" ["STAFF"] [] :=
  ⟨List.mem_singleton_self _, List.not_mem_nil, fun g hg => by simp [hg]⟩

end Membership

/-- No policy is about the staff, so naming it or not makes no difference. -/
theorem same_effect_staff :
    ∃ d₁ d₂, evaluate Engine.reference ⟨"u", "t"⟩ (Membership.request.withSubjectGroups ["STAFF"])
        Membership.config = .ok d₁ ∧
      evaluate Engine.reference ⟨"u", "t"⟩ (Membership.request.withSubjectGroups [])
        Membership.config = .ok d₂ ∧
      (d₁.effect = d₂.effect ↔ ¬MembershipDecides Membership.policies
        (Membership.request.withSubjectGroups ["STAFF"]) "STAFF") := by
  obtain ⟨d₁, h₁⟩ := @Membership.decided ["STAFF"] (by simp)
  obtain ⟨d₂, h₂⟩ := @Membership.decided [] (by simp)
  exact ⟨d₁, d₂, h₁, h₂, same_effect_iff Engine.reference_lawful
    (parse_dslToCedar Membership.plain_policies)
    (cedarPolicySetFromDsl_reference Membership.plain_policies) rfl Membership.leavesOut_staff h₁ h₂⟩

/-- An executive by configuration is denied when the request names the group, and allowed when it
leaves it out. -/
theorem executive_unnamed :
    ∃ d₁ d₂, Membership.config.groupMembers.get "EXEC" = some ["ann"] ∧
      cedarPolicySetFromDsl Engine.reference Membership.policies =
        .ok Membership.config.policySet ∧
      evaluate Engine.reference ⟨"u", "t"⟩ (Membership.request.withSubjectGroups ["EXEC"])
        Membership.config = .ok d₁ ∧
      evaluate Engine.reference ⟨"u", "t"⟩ (Membership.request.withSubjectGroups [])
        Membership.config = .ok d₂ ∧
      d₁.effect ≠ .allow ∧ d₂.effect = .allow := by
  obtain ⟨d₁, h₁⟩ := @Membership.decided ["EXEC"] (by simp)
  obtain ⟨d₂, h₂⟩ := @Membership.decided [] (by simp)
  have hnamed : ¬Grants Membership.policies
      (Facts.of (Membership.request.withSubjectGroups ["EXEC"])) := by decide +kernel
  have hleft : Grants Membership.policies (Facts.of (Membership.request.withSubjectGroups [])) := by
    decide +kernel
  exact ⟨d₁, d₂, rfl, cedarPolicySetFromDsl_reference Membership.plain_policies, h₁, h₂,
    fun h => hnamed ((Membership.allowed_iff h₁).1 h), (Membership.allowed_iff h₂).2 hleft⟩

end Paac
