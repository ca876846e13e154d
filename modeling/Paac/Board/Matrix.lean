import Paac.Policy.Compiled

set_option autoImplicit false

/-!
# The policy board

The board shows a cell for each role and each resource that the policies name, with the policies of
the resource that concern the role. A policy concerns a role when it names it in its `when` clause,
has no `when` clause, or lifts the role by its `unless` clause. The last disjunct has the wrong
sign: no request of such a role can match the policy, so the cell lists a policy that says nothing
about it.

What a cell is to show is defined through requests: a policy is open to a role when its compiled
condition admits the facts of some request of a principal that holds just the role. A cell tells the
truth (`Tells`) when it lists exactly the open policies on its resource, and says that the default
denies exactly when there is none.

## Main results

- `openTo_iff`: when a policy can match some request of a role, with facts that are chosen for it.
- `openPolicies_eq`: so the policies of a cell that are open to its role.
- `summary_ne_default`, `effectSummary_default_iff`: what the summary of a cell says.
- `buildCell_tells_iff`: when a cell tells what the policies do.
- `board_tells_iff`, `cell_tells_iff`: the same of every cell of the board.
- `board_shows_lifted_denial`: a denial that is lifted for a role is shown to deny it.
-/

namespace Paac

structure MatrixCell where
  role : String
  resource : String
  policies : List String
  effectSummary : String
  deriving DecidableEq, Repr

structure PolicyMatrix where
  roles : List String
  resources : List String
  cells : List MatrixCell
  deriving DecidableEq, Repr

/-- Push a name that is not in the list yet. -/
def pushNew (names : List String) (name : String) : List String :=
  if names.contains name then names else names ++ [name]

/-- The roles and the resources after one policy of the first loop. -/
def collectNames (acc : List String × List String) (p : DslPolicy) :
    List String × List String :=
  (p.unlessRoles.foldl pushNew (p.whenRoles.foldl pushNew acc.1), pushNew acc.2 p.resource)

/-- The `Debug` text of an effect. -/
def DslEffect.debugText : DslEffect → String
  | .allow => "Allow"
  | .deny => "Deny"
  | .review => "Review"

/-- The filter of a cell. -/
def DslPolicy.concerns (role resource : String) (p : DslPolicy) : Bool :=
  p.resource = resource &&
    (p.whenRoles.isEmpty || p.whenRoles.contains role || p.unlessRoles.contains role)

/-- One cell. -/
def buildCell (policies : List DslPolicy) (role resource : String) : MatrixCell :=
  let matched := policies.filter (DslPolicy.concerns role resource)
  { role
    resource
    policies := matched.map (·.id)
    effectSummary :=
      if matched.isEmpty then "DENY (default)"
      else Text.join "; " (matched.map fun p => p.effect.debugText ++ " " ++ p.id) }

/-- `build_matrix`. -/
def buildMatrix (policies : List DslPolicy) : PolicyMatrix :=
  let names := policies.foldl collectNames ([], [])
  let roles := if names.1.isEmpty then ["*"] else names.1
  { roles
    resources := names.2
    cells := roles.flatMap fun role => names.2.map (buildCell policies role) }

/-! ## What a cell is to show -/

/-- A principal with just the role meets the role clauses of the policy. -/
def DslPolicy.openTo (role : String) (p : DslPolicy) : Bool :=
  (p.whenRoles.isEmpty || p.whenRoles.contains role) && !p.unlessRoles.contains role

/-- The policies on the resource that a request of the role can match. -/
def openPolicies (policies : List DslPolicy) (role resource : String) : List DslPolicy :=
  policies.filter fun p => p.resource = resource && p.openTo role

/-- The cell lists these policies, and says that the default denies exactly when there is none. -/
def MatrixCell.Tells (policies : List DslPolicy) (cell : MatrixCell) : Prop :=
  cell.policies = (openPolicies policies cell.role cell.resource).map (·.id) ∧
    (cell.effectSummary = "DENY (default)" ↔
      openPolicies policies cell.role cell.resource = [])

instance (policies : List DslPolicy) (cell : MatrixCell) : Decidable (cell.Tells policies) :=
  inferInstanceAs (Decidable (_ ∧ _))

/-! ## Role clauses and requests -/

theorem holdsOneOf_role {f : Facts} {role : String} (hf : f.roles = [role]) (roles : List String) :
    f.holdsOneOf roles = roles.contains role := by
  rw [Facts.holdsOneOf, hf, List.contains_eq_any_beq]
  apply congrArg
  funext r
  rw [List.contains_cons, List.contains_nil, Bool.or_false, Bool.beq_comm]

/-- Facts that meet every clause of the policy but the ones on roles. -/
def DslPolicy.factsFor (role : String) (p : DslPolicy) : Facts :=
  { action := p.action
    kind := p.resource
    isSelf := true
    inDirectReports := true
    subjectId := p.whereSubjects.headD ""
    subjectGroups := p.whereSubjectGroups
    roles := [role] }

/-- The facts chosen for a role meet the subject constraints of the policy. -/
theorem factsFor_meets (role : String) (p : DslPolicy) :
    (p.whereSubjects.isEmpty || p.whereSubjects.any (p.factsFor role).meets) = true := by
  cases h : p.whereSubjects with
  | nil => rfl
  | cons s ss =>
      have hs : (p.factsFor role).meets s = true := by
        rw [Facts.meets]
        split
        · rfl
        · split
          · rfl
          · simp [DslPolicy.factsFor, h]
      rw [List.any_cons, hs]
      rfl

/-- The facts chosen for a role are in one of its subject groups. -/
theorem factsFor_inOneOf (role : String) (p : DslPolicy) :
    (p.whereSubjectGroups.isEmpty || (p.factsFor role).inOneOf p.whereSubjectGroups) = true := by
  cases h : p.whereSubjectGroups with
  | nil => rfl
  | cons g gs =>
      have hg : (p.factsFor role).subjectGroups.contains g = true := by
        rw [DslPolicy.factsFor, h, List.contains_cons, beq_self_eq_true]
        rfl
      rw [Facts.inOneOf, List.any_cons, hg]
      rfl

/-- **Role clauses and requests.** A policy is open to the role exactly when its compiled condition
admits the facts of some request of a principal that holds just the role. -/
theorem openTo_iff (role : String) (p : DslPolicy) :
    p.openTo role = true ↔ ∃ f : Facts, f.roles = [role] ∧ p.admits f = true := by
  constructor
  · intro hopen
    refine ⟨p.factsFor role, rfl, ?_⟩
    rw [DslPolicy.openTo, Bool.and_eq_true] at hopen
    have hroles : (p.factsFor role).roles = [role] := rfl
    have hkind : (p.factsFor role).kind = p.resource := rfl
    have haction : (p.factsFor role).action = p.action := rfl
    rw [DslPolicy.admits, holdsOneOf_role hroles, holdsOneOf_role hroles, factsFor_meets,
      factsFor_inOneOf, hopen.1, hopen.2, hkind, haction]
    simp
  · rintro ⟨f, hf, hadmits⟩
    rw [DslPolicy.admits, holdsOneOf_role hf, holdsOneOf_role hf] at hadmits
    simp only [Bool.and_eq_true] at hadmits
    rw [DslPolicy.openTo, Bool.and_eq_true]
    exact ⟨hadmits.1.1.1.2, hadmits.2⟩

/-! ## One cell -/

/-- Of the policies that concern the role, those that do not lift it are open to it. -/
theorem openPolicies_eq (policies : List DslPolicy) (role resource : String) :
    openPolicies policies role resource =
      (policies.filter (DslPolicy.concerns role resource)).filter
        fun p => !p.unlessRoles.contains role := by
  rw [openPolicies, List.filter_filter]
  apply List.filter_congr
  intro p _
  rw [DslPolicy.concerns, DslPolicy.openTo]
  cases decide (p.resource = resource) <;> cases p.unlessRoles.contains role <;> simp

/-- No summary of policies is the text for the default. -/
theorem summary_ne_default (p : DslPolicy) (ps : List DslPolicy) :
    Text.join "; " ((p :: ps).map fun p => p.effect.debugText ++ " " ++ p.id) ≠ "DENY (default)" := by
  intro h
  have hlist := congrArg String.toList h
  have hhead : ∃ rest, (Text.join "; " ((p :: ps).map fun p =>
      p.effect.debugText ++ " " ++ p.id)).toList = p.effect.debugText.toList ++ rest := by
    cases ps with
    | nil =>
        rw [List.map_cons, List.map_nil, Text.join_singleton, String.toList_append,
          String.toList_append, List.append_assoc]
        exact ⟨_, rfl⟩
    | cons q qs =>
        rw [List.map_cons, List.map_cons, Text.join_cons_cons]
        simp only [String.toList_append, List.append_assoc]
        exact ⟨_, rfl⟩
  obtain ⟨rest, hrest⟩ := hhead
  rw [hrest] at hlist
  -- the second letter of an effect is small
  cases he : p.effect with
  | allow =>
      rw [he] at hlist
      exact absurd (List.head_eq_of_cons_eq hlist) (by decide)
  | deny =>
      rw [he] at hlist
      exact absurd (List.head_eq_of_cons_eq (List.tail_eq_of_cons_eq hlist)) (by decide)
  | review =>
      rw [he] at hlist
      exact absurd (List.head_eq_of_cons_eq hlist) (by decide)

/-- A cell says that the default denies exactly when no policy concerns the role. -/
theorem effectSummary_default_iff (policies : List DslPolicy) (role resource : String) :
    (buildCell policies role resource).effectSummary = "DENY (default)" ↔
      policies.filter (DslPolicy.concerns role resource) = [] := by
  rw [buildCell]
  cases policies.filter (DslPolicy.concerns role resource) with
  | nil => exact iff_of_true rfl rfl
  | cons p ps => exact iff_of_false (summary_ne_default p ps) (List.cons_ne_nil p ps)

/-- A cell tells what the policies do exactly when none of its resource lifts its role. -/
theorem buildCell_tells_iff (policies : List DslPolicy) (role resource : String) :
    (buildCell policies role resource).Tells policies ↔
      ∀ p ∈ policies, p.resource = resource → role ∉ p.unlessRoles := by
  have hopen := openPolicies_eq policies role resource
  constructor
  · rintro ⟨hlisted, -⟩ p hp hresource hlifts
    have hlisted : (policies.filter (DslPolicy.concerns role resource)).map (·.id) =
        (openPolicies policies role resource).map (·.id) := hlisted
    -- the lists have the same length, so nothing was filtered out
    have hlength := congrArg List.length hlisted
    rw [List.length_map, List.length_map, hopen] at hlength
    have hall := List.length_filter_eq_length_iff.1 hlength.symm
    have hconcerns : p ∈ policies.filter (DslPolicy.concerns role resource) := by
      apply List.mem_filter.2
      refine ⟨hp, ?_⟩
      rw [DslPolicy.concerns, List.contains_iff_mem.2 hlifts, Bool.or_true]
      simpa using hresource
    have hnot := hall p hconcerns
    rw [List.contains_iff_mem.2 hlifts] at hnot
    cases hnot
  · intro hnone
    have hsame : openPolicies policies role resource =
        policies.filter (DslPolicy.concerns role resource) := by
      rw [hopen]
      apply List.filter_eq_self.2
      intro p hp
      obtain ⟨hmem, hconcerns⟩ := List.mem_filter.1 hp
      rw [DslPolicy.concerns, Bool.and_eq_true, decide_eq_true_eq] at hconcerns
      simpa using hnone p hmem hconcerns.1
    refine ⟨?_, ?_⟩
    · show _ = (openPolicies policies role resource).map _
      rw [hsame]
      rfl
    · show _ ↔ openPolicies policies role resource = []
      rw [hsame]
      exact effectSummary_default_iff policies role resource

/-! ## The board -/

/-- The cells of the board are those of its roles and resources. -/
theorem mem_cells {policies : List DslPolicy} {cell : MatrixCell} :
    cell ∈ (buildMatrix policies).cells ↔ ∃ role ∈ (buildMatrix policies).roles,
      ∃ resource ∈ (buildMatrix policies).resources, buildCell policies role resource = cell := by
  have hcells : (buildMatrix policies).cells = (buildMatrix policies).roles.flatMap fun role =>
      (buildMatrix policies).resources.map (buildCell policies role) := rfl
  rw [hcells, List.mem_flatMap]
  simp only [List.mem_map]

theorem mem_pushNew {names : List String} {name x : String} :
    x ∈ pushNew names name ↔ x ∈ names ∨ x = name := by
  unfold pushNew
  split
  · rename_i hcontains
    have hmem := List.contains_iff_mem.1 hcontains
    constructor
    · exact Or.inl
    · rintro (hx | rfl)
      · exact hx
      · exact hmem
  · rw [List.mem_append, List.mem_singleton]

theorem mem_foldl_pushNew {names : List String} {x : String} (more : List String) :
    x ∈ more.foldl pushNew names ↔ x ∈ names ∨ x ∈ more := by
  induction more generalizing names with
  | nil => simp
  | cons name more ih => rw [List.foldl_cons, ih, mem_pushNew, List.mem_cons, or_assoc]

/-- The roles and the resources that the first loop collects are those of the policies. -/
theorem mem_foldl_collectNames {policies : List DslPolicy} {acc : List String × List String}
    {x : String} :
    (x ∈ (policies.foldl collectNames acc).1 ↔
        x ∈ acc.1 ∨ ∃ p ∈ policies, x ∈ p.whenRoles ∨ x ∈ p.unlessRoles) ∧
      (x ∈ (policies.foldl collectNames acc).2 ↔
        x ∈ acc.2 ∨ ∃ p ∈ policies, x = p.resource) := by
  induction policies generalizing acc with
  | nil => simp
  | cons p ps ih =>
      rw [List.foldl_cons, ih.1, ih.2, collectNames, mem_foldl_pushNew, mem_foldl_pushNew,
        mem_pushNew]
      simp only [List.exists_mem_cons_iff, or_assoc, and_self]

/-- A role that a policy lifts and the resource of the policy have a cell. -/
theorem buildCell_mem_cells {policies : List DslPolicy} {p : DslPolicy} (hp : p ∈ policies)
    {role : String} (hrole : role ∈ p.unlessRoles) :
    buildCell policies role p.resource ∈ (buildMatrix policies).cells := by
  have hnames : role ∈ (policies.foldl collectNames ([], [])).1 :=
    mem_foldl_collectNames.1.2 (Or.inr ⟨p, hp, Or.inr hrole⟩)
  have hresource : p.resource ∈ (policies.foldl collectNames ([], [])).2 :=
    mem_foldl_collectNames.2.2 (Or.inr ⟨p, hp, rfl⟩)
  refine mem_cells.2 ⟨role, ?_, p.resource, hresource, rfl⟩
  have hroles : (buildMatrix policies).roles = if (policies.foldl collectNames ([], [])).1.isEmpty
      then ["*"] else (policies.foldl collectNames ([], [])).1 := rfl
  rw [hroles, if_neg]
  · exact hnames
  · rw [List.isEmpty_iff]
    exact List.ne_nil_of_mem hnames

/-- The whole board tells the truth exactly when no policy lifts a role. -/
theorem board_tells_iff (policies : List DslPolicy) :
    (∀ cell ∈ (buildMatrix policies).cells, cell.Tells policies) ↔
      ∀ p ∈ policies, p.unlessRoles = [] := by
  constructor
  · intro h p hp
    apply List.eq_nil_iff_forall_not_mem.2
    intro role hrole
    have htells := h _ (buildCell_mem_cells hp hrole)
    exact (buildCell_tells_iff policies role p.resource).1 htells p hp rfl hrole
  · intro h cell hcell
    obtain ⟨role, -, resource, -, rfl⟩ := mem_cells.1 hcell
    apply (buildCell_tells_iff policies role resource).2
    intro p hp _ hrole
    rw [h p hp] at hrole
    exact absurd hrole List.not_mem_nil

/-- **When a cell tells the truth.** A cell of the board lists the policies that its role can match on
its resource, and says when the default denies, exactly when no policy on the resource lifts the
role. -/
theorem cell_tells_iff (policies : List DslPolicy) (cell : MatrixCell)
    (h : cell ∈ (buildMatrix policies).cells) :
    cell.Tells policies ↔
      ∀ p ∈ policies, p.resource = cell.resource → cell.role ∉ p.unlessRoles := by
  obtain ⟨role, -, resource, -, rfl⟩ := mem_cells.1 h
  exact buildCell_tells_iff policies role resource

namespace Payroll

/-- Exports of salaries are denied unless the principal is a payroll administrator. -/
def policies : List DslPolicy :=
  [⟨"salary_export", .deny, "EXPORT", "SALARY", [], [], ["PAYROLL_ADMIN"], [], ""⟩]

end Payroll

/-- A policy for one role is shown in its cell. -/
theorem cell_tells_hr :
    MatrixCell.Tells [⟨"p", .allow, "READ", "SALARY", ["HR"], [], [], [], ""⟩]
      ⟨"HR", "SALARY", ["p"], "Allow p"⟩ := by
  apply (cell_tells_iff _ _ (by decide +kernel)).2
  decide

/-- The cell of the administrator shows the denial that is lifted for the role. -/
theorem board_shows_lifted_denial :
    ⟨"PAYROLL_ADMIN", "SALARY", ["salary_export"], "Deny salary_export"⟩ ∈
        (buildMatrix Payroll.policies).cells ∧
      ¬MatrixCell.Tells Payroll.policies
        ⟨"PAYROLL_ADMIN", "SALARY", ["salary_export"], "Deny salary_export"⟩ := by
  decide +kernel

end Paac
