import Paac.Library.Cedar.Spliced
import Paac.Policy.Validate

set_option autoImplicit false

/-!
# Names in the generated text

The translator splices names between quotes as they are. A name with a quote closes its literal, and
what follows it is read as policy text; one with a backslash denotes another string. What a policy
set shows of its text (`ShowsSources`) is compared with the records: id, effect and names of each,
in order.

## Main results

- `names_printable`, `source_compile`: the names that are spliced are the names of the record.
- `sources_of_plain`, `plain_of_sources`: the two directions; the second one holds for every text
  that the engine accepts.
- `sources_iff_plain`: for an accepted text the policy set has the names of the records as its
  literals exactly when no name has a quote or a backslash.
- `hasBareReturn_dslToCedar`: the text of plain names has a bare carriage return in a literal
  exactly when one of the names has a carriage return.
- `role_closes_literal`: a quote closes its literal, and what follows it in the name is read as
  policy text.
-/

namespace Paac

open Cedar (Atom Engine Factor Printable PolicySource ShowsSources isIdentifier isPlain)

/-! ## Names of a record -/

/-- A subject constraint that names a subject. -/
def isSubjectId (s : String) : Bool := s ≠ "SELF" && s ≠ "DIRECT_REPORTS"

/-- The names of a record in the order in which the translator prints them. -/
def DslPolicy.names (p : DslPolicy) : List String :=
  [p.id, p.action, p.resource, p.action] ++ p.whenRoles ++ p.whereSubjects.filter isSubjectId ++
    p.whereSubjectGroups ++ p.unlessRoles

/-- The record as a policy should show it. -/
def DslPolicy.source (p : DslPolicy) : PolicySource := ⟨[("id", p.id)], p.effect.toCedar, p.names⟩

theorem atoms_anyFactor (as : List Atom) : (anyFactor as).flatMap Factor.atoms = as := by
  cases as with
  | nil => rfl
  | cons a as => exact List.append_nil _

theorem atoms_noneFactor (as : List Atom) : (noneFactor as).flatMap Factor.atoms = as := by
  cases as with
  | nil => rfl
  | cons a as => exact List.append_nil _

/-- The checks of a printed policy. -/
theorem atoms_printable (p : DslPolicy) :
    (printable p).atoms = .eq "resource_kind" p.resource :: .eq "action_name" p.action ::
      (p.whenRoles.map roleAtom ++ p.whereSubjects.map subjectAtom ++
        p.whereSubjectGroups.map groupAtom ++ p.unlessRoles.map roleAtom) := by
  simp only [Printable.atoms, printable, conditionFactors, List.flatMap_cons, List.flatMap_append,
    atoms_anyFactor, atoms_noneFactor]
  rfl

theorem names_map {f : String → Atom} (hf : ∀ s, (f s).names = [s]) (ss : List String) :
    (ss.map f).flatMap Atom.names = ss := by
  rw [List.flatMap_map]
  simp [hf]

theorem names_subjectAtoms (ss : List String) :
    (ss.map subjectAtom).flatMap Atom.names = ss.filter isSubjectId := by
  induction ss with
  | nil => rfl
  | cons s ss ih =>
      rw [List.map_cons, List.flatMap_cons, ih, List.filter_cons]
      by_cases hself : s = "SELF"
      · simp [subjectAtom, isSubjectId, hself, Atom.names]
      · by_cases hreports : s = "DIRECT_REPORTS"
        · simp [subjectAtom, isSubjectId, hreports, Atom.names]
        · simp [subjectAtom, isSubjectId, hself, hreports, Atom.names]

theorem names_printable (p : DslPolicy) : (printable p).names = p.names := by
  have hroles := names_map (f := roleAtom) fun _ => rfl
  have hgroups := names_map (f := groupAtom) fun _ => rfl
  simp only [Printable.names, atoms_printable, List.flatMap_cons, List.flatMap_append, hroles,
    hgroups, names_subjectAtoms]
  simp [printable, DslPolicy.names, Atom.names]

/-- The compiled policy shows the record. -/
theorem source_compile (p : DslPolicy) : (compile p).source = p.source := by
  rw [compile, Cedar.source_policy, names_printable]
  rfl

/-- The attributes the translator reads are identifiers. -/
theorem attr_printable (p : DslPolicy) : ∀ a ∈ (printable p).atoms, isIdentifier a.attr = true := by
  have hmap : ∀ {f : String → Atom}, (∀ s, isIdentifier (f s).attr = true) → ∀ ss : List String,
      ∀ a ∈ ss.map f, isIdentifier a.attr = true := by
    intro f hf ss a ha
    obtain ⟨s, -, rfl⟩ := List.mem_map.1 ha
    exact hf s
  have hrole : ∀ s, isIdentifier (roleAtom s).attr = true := fun _ => by
    have hname : isIdentifier "principal_roles" = true := by decide
    exact hname
  have hgroup : ∀ s, isIdentifier (groupAtom s).attr = true := fun _ => by
    have hname : isIdentifier "subject_groups" = true := by decide
    exact hname
  have hsubject : ∀ s, isIdentifier (subjectAtom s).attr = true := by
    intro s
    unfold subjectAtom
    split
    · decide
    · split
      · decide
      · have hname : isIdentifier "subject_id" = true := by decide
        exact hname
  have hkind : isIdentifier "resource_kind" = true := by decide
  have haction : isIdentifier "action_name" = true := by decide
  intro a ha
  rw [atoms_printable] at ha
  simp only [List.mem_cons, List.mem_append] at ha
  -- the conjuncts in the order in which they are printed
  rcases ha with rfl | rfl | ((ha | ha) | ha) | ha
  · exact hkind
  · exact haction
  · exact hmap hrole _ a ha
  · exact hmap hsubject _ a ha
  · exact hmap hgroup _ a ha
  · exact hmap hrole _ a ha

/-- The two subjects that are no names are plain. -/
theorem all_isSubjectId (ss : List String) :
    (ss.filter isSubjectId).all isPlain = ss.all isPlain := by
  induction ss with
  | nil => rfl
  | cons s ss ih =>
      have hself : isPlain "SELF" = true := by decide
      have hreports : isPlain "DIRECT_REPORTS" = true := by decide
      rw [List.filter_cons, List.all_cons]
      split
      · rw [List.all_cons, ih]
      · rename_i hid
        have hs : s = "SELF" ∨ s = "DIRECT_REPORTS" := by
          by_contra hnot
          rw [not_or] at hnot
          exact hid (by simp [isSubjectId, hnot.1, hnot.2])
        rcases hs with rfl | rfl
        · rw [ih, hself, Bool.true_and]
        · rw [ih, hreports, Bool.true_and]

theorem all_names (p : DslPolicy) : p.names.all isPlain = p.plainNames := by
  simp only [DslPolicy.names, DslPolicy.plainNames, List.all_append, List.all_cons, List.all_nil,
    all_isSubjectId]
  cases isPlain p.id <;> cases isPlain p.action <;> cases isPlain p.resource <;> rfl

/-! ## The names read back -/

/-- The printed policies of plain names show the records. -/
theorem sources_of_plain {E : Engine} {sources : E.PolicySet → List PolicySource}
    (hshows : ShowsSources E sources) {ps : List DslPolicy} {set : E.PolicySet}
    (hset : E.policySetFromStr (dslToCedar ps) = .ok set)
    (hplain : ps.all DslPolicy.plainNames = true) : sources set = ps.map DslPolicy.source := by
  rw [hshows.grammar hset (parse_dslToCedar hplain), List.map_map]
  exact List.map_congr_left fun p _ => source_compile p

/-- The names of the printed records. -/
theorem names_printables (ps : List DslPolicy) :
    (ps.map printable).flatMap Printable.names = ps.flatMap DslPolicy.names := by
  rw [List.flatMap_map]
  exact congrArg (ps.flatMap ·) (funext names_printable)

theorem attrs_printables (ps : List DslPolicy) :
    ∀ q ∈ ps.map printable, ∀ a ∈ q.atoms, isIdentifier a.attr = true :=
  List.forall_mem_map.2 fun p _ => attr_printable p

/-- The comment that heads the generated text stays on one line. -/
theorem headComment_oneLine : " Generated by authz-policy from PAAC DSL".toList.all
    (fun c => c ≠ '\n' && c ≠ '\r') = true := by decide

/-- **Carriage returns in the generated text** are those of the names. -/
theorem hasBareReturn_dslToCedar {ps : List DslPolicy}
    (hplain : ps.all DslPolicy.plainNames = true) :
    Cedar.hasBareReturn (dslToCedar ps) = false ↔ ∀ p ∈ ps, ∀ n ∈ p.names, '\r' ∉ n.toList := by
  have hnames : ((ps.map printable).flatMap Printable.names).all isPlain = true := by
    rw [names_printables, List.all_flatMap, ← hplain]
    exact congrArg (ps.all ·) (funext all_names)
  have hliterals := Cedar.literals_printFile headComment_oneLine (attrs_printables ps) hnames
  rw [← dslToCedar_eq, names_printables] at hliterals
  rw [Cedar.hasBareReturn_eq_false hliterals, List.forall_mem_map]
  simp only [List.forall_mem_flatMap]

/-- Records that are shown have plain names. -/
theorem plain_of_sources {E : Engine} {sources : E.PolicySet → List PolicySource}
    (hshows : ShowsSources E sources) {ps : List DslPolicy} {set : E.PolicySet}
    (hset : E.policySetFromStr (dslToCedar ps) = .ok set)
    (hsources : sources set = ps.map DslPolicy.source) : ps.all DslPolicy.plainNames = true := by
  obtain ⟨raws, hraws, hden⟩ := hshows.literals hset
  rw [hsources, List.flatMap_map] at hden
  rw [dslToCedar_eq] at hraws
  have hplain := Cedar.isPlain_of_printFile headComment_oneLine (attrs_printables ps) hraws
    (by rw [names_printables]; exact hden)
  rw [names_printables, List.all_flatMap, List.all_eq_true] at hplain
  rw [List.all_eq_true]
  intro p hp
  rw [← all_names]
  exact hplain p hp

/-- **Names are kept exactly when they are plain.** The policy set of an accepted text has one
policy for each record, in order, with the record's id, effect and names, if and only if no name of
the records has a quote or a backslash. -/
theorem sources_iff_plain {E : Engine} {sources : E.PolicySet → List PolicySource}
    (hshows : ShowsSources E sources) {dsl : String} {ps : List DslPolicy}
    (h : validateDsl E dsl = .ok ps) :
    ∃ set, cedarPolicySetFromDsl E ps = .ok set ∧
      (sources set = ps.map DslPolicy.source ↔ ps.all DslPolicy.plainNames = true) := by
  obtain ⟨-, -, set, hset, -⟩ := validateDsl_ok h
  refine ⟨set, ?_, plain_of_sources hshows hset, sources_of_plain hshows hset⟩
  simp only [cedarPolicySetFromDsl, hset]

/-- The checks of the reference engine. -/
theorem validateDsl_reference {dsl : String} {ps : List DslPolicy} {cps : List Cedar.Policy}
    (hparse : parseDsl dsl = .ok ps) (hne : ps ≠ [])
    (hread : Cedar.parsePolicies (dslToCedar ps) = some cps) :
    validateDsl Engine.reference dsl = .ok ps := by
  cases ps with
  | nil => exact absurd rfl hne
  | cons p ps =>
      have hset : cedarPolicySetFromDsl Engine.reference (p :: ps) = .ok cps := by
        simp only [cedarPolicySetFromDsl, Engine.reference, hread]
      simp only [validateDsl, hparse, hset, bind, Except.bind]
      rfl

/-- Two roles on lines of their own. -/
def twoRolesText : String := "policy p\nallow READ SALARY\nwhen role == A\nwhen role == B"

def twoRolesPolicies : List DslPolicy :=
  [⟨"p", .allow, "READ", "SALARY", ["A", "B"], [], [], [], twoRolesText⟩]

theorem parsePolicies_twoRoles :
    Cedar.parsePolicies (dslToCedar twoRolesPolicies) = some (twoRolesPolicies.map compile) :=
  parse_dslToCedar (by decide)

/-- Two plain roles are the literals of their policy. -/
theorem sources_iff_plain_twoRoles :
    ∃ set, cedarPolicySetFromDsl Engine.reference twoRolesPolicies = .ok set ∧
      (set.map Cedar.Policy.source = twoRolesPolicies.map DslPolicy.source ↔
        twoRolesPolicies.all DslPolicy.plainNames = true) := by
  have hparse : parseDsl twoRolesText = .ok twoRolesPolicies := by decide +kernel
  exact sources_iff_plain Cedar.Engine.reference_showsSources
    (validateDsl_reference hparse (by decide) parsePolicies_twoRoles)

/-- One role that closes its literal and opens another. -/
def closingRoleText : String :=
  "policy p\nallow READ SALARY\nwhen role == A\") || context.principal_roles.contains(\"B"

def closingRolePolicies : List DslPolicy :=
  [⟨"p", .allow, "READ", "SALARY", ["A\") || context.principal_roles.contains(\"B"], [], [], [],
    closingRoleText⟩]

/-- The one role is printed as the two. -/
theorem dslToCedar_closingRole : dslToCedar closingRolePolicies = dslToCedar twoRolesPolicies := by
  have hchecks : roleChecks ["A\") || context.principal_roles.contains(\"B"] =
      roleChecks ["A", "B"] := by
    rw [← String.toList_inj]
    decide
  have hparts : whenParts ⟨"p", .allow, "READ", "SALARY",
        ["A\") || context.principal_roles.contains(\"B"], [], [], [], closingRoleText⟩ =
      whenParts ⟨"p", .allow, "READ", "SALARY", ["A", "B"], [], [], [], twoRolesText⟩ := by
    simp only [whenParts, hchecks]
    rfl
  simp only [dslToCedar, closingRolePolicies, twoRolesPolicies, List.foldl_cons, List.foldl_nil,
    translateOne, hparts]

/-- A name can close its literal and add a condition. -/
theorem role_closes_literal :
    ¬∀ (E : Engine) (sources : E.PolicySet → List PolicySource), ShowsSources E sources →
      ∀ (dsl : String) (ps : List DslPolicy), validateDsl E dsl = .ok ps →
        ∃ set, cedarPolicySetFromDsl E ps = .ok set ∧ sources set = ps.map DslPolicy.source := by
  intro hkeeps
  have hparse : parseDsl closingRoleText = .ok closingRolePolicies := by decide +kernel
  have hread : Cedar.parsePolicies (dslToCedar closingRolePolicies) =
      some (twoRolesPolicies.map compile) := by
    rw [dslToCedar_closingRole, parsePolicies_twoRoles]
  -- about any text, so that the kernel has no policies to parse
  have hset_of : ∀ text cps, Cedar.parsePolicies text = some cps →
      ∀ set, Engine.reference.policySetFromStr text = .ok set → cps = set := by
    intro text cps htext set hset
    simp only [Engine.reference, htext] at hset
    exact Except.ok.inj hset
  obtain ⟨set, hset, hsources⟩ := hkeeps Engine.reference _ Cedar.Engine.reference_showsSources _ _
    (validateDsl_reference hparse (by decide) hread)
  obtain rfl := hset_of _ _ hread set (cedarPolicySetFromDsl_ok hset)
  revert hsources
  decide

end Paac
