import Paac.Core.Context
import Paac.Policy.Translate

set_option autoImplicit false

/-!
# What compiled policies read

The conditions of a compiled policy are about built-in attributes of the context. The lemmas on the
single atoms and on the factors made of them say which: a `when` or `unless` clause reads the roles
of the principal, a `where` clause one of the subject's attributes, and the rule line action and
kind.

## Main results

- `attrs_roleAtom`, `attrs_groupAtom`, `attrs_subjectAtom`: what the atoms read.
- `attrs_anyFactor`, `attrs_noneFactor`, `attrs_ungroupedFactors`: what the factors read; only one
  of them tests the groups of the subject.
- `attrs_compile`: a compiled policy reads built-in attributes only.
- `satisfied_compile_iff`: so its satisfaction depends on their values alone.
-/

namespace Paac

theorem attrs_orAll (es : List Cedar.Expr) :
    ∀ e : Cedar.Expr, (Cedar.orAll e es).attrs = e.attrs ++ es.flatMap Cedar.Expr.attrs := by
  induction es with
  | nil => intro e; simp [Cedar.orAll]
  | cons e' es ih =>
      intro e
      have hstep : Cedar.orAll e (e' :: es) = Cedar.orAll (.or e e') es := rfl
      rw [hstep, ih, Cedar.Expr.attrs, List.flatMap_cons, List.append_assoc]

theorem attrs_andAll (es : List Cedar.Expr) :
    ∀ e : Cedar.Expr, (Cedar.andAll e es).attrs = e.attrs ++ es.flatMap Cedar.Expr.attrs := by
  induction es with
  | nil => intro e; simp [Cedar.andAll]
  | cons e' es ih =>
      intro e
      have hstep : Cedar.andAll e (e' :: es) = Cedar.andAll (.and e e') es := rfl
      rw [hstep, ih, Cedar.Expr.attrs, List.flatMap_cons, List.append_assoc]

theorem attrs_roleAtom (r : String) : (roleAtom r).expr.attrs = ["principal_roles"] := rfl

theorem attrs_groupAtom (g : String) : (groupAtom g).expr.attrs = ["subject_groups"] := rfl

/-- The check of a subject reads one of three attributes. -/
theorem attrs_subjectAtom (s : String) : ∀ a ∈ (subjectAtom s).expr.attrs,
    a ∈ ["subject_is_self", "subject_in_direct_reports", "subject_id"] := by
  unfold subjectAtom
  split
  · decide
  · split
    · decide
    · intro a ha
      obtain rfl : a = "subject_id" := by simpa [Cedar.Atom.expr, Cedar.Expr.attrs] using ha
      decide

section

variable {atom : String → Cedar.Atom} {P : String → Prop}

/-- A disjunction over names reads what its atoms read. -/
theorem attrs_disjunction (h : ∀ s, ∀ a ∈ (atom s).expr.attrs, P a) (s : String)
    (ss : List String) :
    ∀ a ∈ (Cedar.orAll (atom s).expr ((ss.map atom).map Cedar.Atom.expr)).attrs, P a := by
  intro a ha
  rw [attrs_orAll, List.mem_append, List.mem_flatMap] at ha
  rcases ha with ha | ⟨e, he, ha⟩
  · exact h s a ha
  · simp only [List.map_map, List.mem_map] at he
    obtain ⟨t, -, rfl⟩ := he
    exact h t a ha

theorem attrs_anyFactor (h : ∀ s, ∀ a ∈ (atom s).expr.attrs, P a) (ss : List String) :
    ∀ f ∈ anyFactor (ss.map atom), ∀ a ∈ f.expr.attrs, P a := by
  cases ss with
  | nil => intro f hf; cases hf
  | cons s ss =>
      intro f hf
      obtain rfl := List.mem_singleton.1 hf
      exact attrs_disjunction h s ss

theorem attrs_noneFactor (h : ∀ s, ∀ a ∈ (atom s).expr.attrs, P a) (ss : List String) :
    ∀ f ∈ noneFactor (ss.map atom), ∀ a ∈ f.expr.attrs, P a := by
  cases ss with
  | nil => intro f hf; cases hf
  | cons s ss =>
      intro f hf
      obtain rfl := List.mem_singleton.1 hf
      exact attrs_disjunction h s ss

end

/-- The conjuncts of a policy that do not test the groups of the subject. -/
def ungroupedFactors (p : DslPolicy) : List Cedar.Factor :=
  .atom (.eq "resource_kind" p.resource) :: .atom (.eq "action_name" p.action) ::
    (anyFactor (p.whenRoles.map roleAtom) ++ anyFactor (p.whereSubjects.map subjectAtom) ++
      noneFactor (p.unlessRoles.map roleAtom))

/-- Without its groups a policy reads built-in attributes other than the groups. -/
theorem attrs_ungroupedFactors (p : DslPolicy) : ∀ f ∈ ungroupedFactors p, ∀ a ∈ f.expr.attrs,
    a ∈ builtinNames ∧ a ≠ "subject_groups" := by
  have hrole : ∀ r, ∀ a ∈ (roleAtom r).expr.attrs, a ∈ builtinNames ∧ a ≠ "subject_groups" := by
    intro r a ha
    rw [attrs_roleAtom, List.mem_singleton] at ha
    subst ha
    decide
  have hsubject : ∀ s, ∀ a ∈ (subjectAtom s).expr.attrs,
      a ∈ builtinNames ∧ a ≠ "subject_groups" := by
    intro s a ha
    have hnames : ∀ a ∈ ["subject_is_self", "subject_in_direct_reports", "subject_id"],
        a ∈ builtinNames ∧ a ≠ "subject_groups" := by decide
    exact hnames a (attrs_subjectAtom s a ha)
  intro f hf a ha
  simp only [ungroupedFactors, List.mem_cons, List.mem_append] at hf
  rcases hf with rfl | rfl | (hf | hf) | hf
  · obtain rfl : a = "resource_kind" := by
      simpa [Cedar.Factor.expr, Cedar.Atom.expr, Cedar.Expr.attrs] using ha
    decide
  · obtain rfl : a = "action_name" := by
      simpa [Cedar.Factor.expr, Cedar.Atom.expr, Cedar.Expr.attrs] using ha
    decide
  · exact attrs_anyFactor hrole _ f hf a ha
  · exact attrs_anyFactor hsubject _ f hf a ha
  · exact attrs_noneFactor hrole _ f hf a ha

/-- The conjuncts of a compiled policy are the one on the groups and the others. -/
theorem mem_factors (p : DslPolicy) (f : Cedar.Factor) :
    f ∈ (printable p).first :: conditionFactors p ↔
      f ∈ ungroupedFactors p ∨ f ∈ anyFactor (p.whereSubjectGroups.map groupAtom) := by
  simp only [printable, conditionFactors, ungroupedFactors, List.mem_cons, List.mem_append]
  tauto

theorem conditions_compile (p : DslPolicy) : (compile p).conditions =
    [Cedar.andAll (printable p).first.expr ((conditionFactors p).map Cedar.Factor.expr)] := rfl

/-- The condition of a compiled policy reads built-in attributes only. -/
theorem attrs_compile (p : DslPolicy) :
    ∀ e ∈ (compile p).conditions, ∀ a ∈ e.attrs, a ∈ builtinNames := by
  intro e he a ha
  rw [conditions_compile, List.mem_singleton] at he
  have hfactor : ∃ f ∈ (printable p).first :: conditionFactors p, a ∈ f.expr.attrs := by
    rw [he, attrs_andAll, List.mem_append, List.mem_flatMap] at ha
    rcases ha with ha | ⟨e', he', ha⟩
    · exact ⟨_, List.mem_cons_self, ha⟩
    · obtain ⟨f, hf, rfl⟩ := List.mem_map.1 he'
      exact ⟨f, List.mem_cons_of_mem _ hf, ha⟩
  obtain ⟨f, hf, ha⟩ := hfactor
  rcases (mem_factors p f).1 hf with hf | hf
  · exact (attrs_ungroupedFactors p f hf a ha).1
  · refine attrs_anyFactor (P := (· ∈ builtinNames)) (fun g a ha => ?_) _ f hf a ha
    rw [attrs_groupAtom, List.mem_singleton] at ha
    subst ha
    decide

/-- A compiled policy is satisfied when it is in scope and all its conjuncts hold. -/
theorem satisfied_compile_iff (p : DslPolicy) (q : Cedar.Request) :
    (compile p).satisfied q = true ↔ (compile p).inScope q = true ∧
      ∀ f ∈ (printable p).first :: conditionFactors p, Cedar.holds q.context f.expr = true := by
  rw [Cedar.Policy.satisfied, conditions_compile, List.all_cons, List.all_nil, Bool.and_true,
    Cedar.holds_andAll, Bool.and_eq_true, Bool.and_eq_true, List.all_eq_true, List.forall_mem_cons,
    List.forall_mem_map]

end Paac
