import Paac.Policy.Dsl
import Paac.Library.Cedar.Printing
import Paac.Library.Cedar.Engine

set_option autoImplicit false

/-!
# From the policy language to Cedar

The translator prints one Cedar policy for each parsed policy. `compile` is the policy it means, and
`parse_dslToCedar` says that the printed text reads as the compiled policies when no name needs an
escape.

The definitions print texts, as `translate.rs` does, with every name spliced between quotes as it
is. Roles are alternatives, exempt roles a negated disjunction, and the subject constraints two
conjuncts, one for ids and relations and one for groups. The meaning is given beside it as factors
of a condition (`conditionFactors`), and the two are connected by the printer of the library, whose
parser lemmas then apply.

## Main results

- `translateOne_eq`, `dslToCedar_eq`: the translator is the printer of `Library/Cedar/Printing.lean`
  on the compiled policies, whatever the names are.
- `plain_printable`: names without quotes and backslashes are printed as they are.
- `parse_dslToCedar`: so the generated text reads back.
- `cedarPolicySetFromDsl_ok`: what a policy set was read from.
- `cedarPolicySetFromDsl_reference`: the reference engine takes the text.
-/

namespace Paac

open Cedar (Atom Factor Printable isPlain)

/-! ## The translator -/

/-- The role conditions between `||`. -/
def roleChecks (roles : List String) : String :=
  Text.join " || " (roles.map fun r => "context.principal_roles.contains(\"" ++ r ++ "\")")

/-- The condition of one subject constraint. -/
def subjectCheck (s : String) : String :=
  if s = "SELF" then "context.subject_is_self"
  else if s = "DIRECT_REPORTS" then "context.subject_in_direct_reports"
  else "context.subject_id == \"" ++ s ++ "\""

/-- The parts of the generated condition. Subject ids and subject groups are two conjuncts. -/
def whenParts (p : DslPolicy) : List String :=
  ["context.resource_kind == \"" ++ p.resource ++ "\"",
    "context.action_name == \"" ++ p.action ++ "\""] ++
  (if p.whenRoles.isEmpty then [] else ["(" ++ roleChecks p.whenRoles ++ ")"]) ++
  (if p.whereSubjects.isEmpty then []
    else ["(" ++ Text.join " || " (p.whereSubjects.map subjectCheck) ++ ")"]) ++
  (if p.whereSubjectGroups.isEmpty then []
    else ["(" ++ Text.join " || " (p.whereSubjectGroups.map fun g =>
      "context.subject_groups.contains(\"" ++ g ++ "\")") ++ ")"]) ++
  (if p.unlessRoles.isEmpty then [] else ["!(" ++ roleChecks p.unlessRoles ++ ")"])

/-- The Cedar effect; a review is a forbid. -/
def cedarEffect : DslEffect → String
  | .allow => "permit"
  | .deny => "forbid"
  | .review => "forbid"

/-- `translate_one`; it never fails. -/
def translateOne (p : DslPolicy) : String :=
  "@id(\"" ++ p.id ++ "\")\n" ++ cedarEffect p.effect ++
    " (\n  principal,\n  action == Action::\"" ++ p.action ++ "\",\n  resource\n) when \x7b\n  " ++
    Text.join " &&\n  " (whenParts p) ++ "\n\x7d;\n"

/-- `dsl_to_cedar`; it never fails. -/
def dslToCedar (policies : List DslPolicy) : String :=
  policies.foldl (fun out p => out ++ translateOne p ++ "\n")
    "// Generated by authz-policy from PAAC DSL\n"

/-- `cedar_policy_set_from_dsl`. -/
def cedarPolicySetFromDsl (E : Cedar.Engine) (policies : List DslPolicy) :
    Except PolicyError E.PolicySet :=
  match E.policySetFromStr (dslToCedar policies) with
  | .ok set => .ok set
  | .error e => .error (.cedar e)

/-! ## The policy meant -/

/-- The effect of a policy as Cedar sees it. -/
def DslEffect.toCedar : DslEffect → Cedar.Effect
  | .allow => .permit
  | .deny => .forbid
  | .review => .forbid

/-- The principal holds the role. -/
def roleAtom (r : String) : Atom := .has "principal_roles" r

/-- The subject constraint holds. -/
def subjectAtom (s : String) : Atom :=
  if s = "SELF" then .flag "subject_is_self"
  else if s = "DIRECT_REPORTS" then .flag "subject_in_direct_reports"
  else .eq "subject_id" s

/-- The subject is in the group. -/
def groupAtom (g : String) : Atom := .has "subject_groups" g

/-- No factor for an empty disjunction. -/
def anyFactor : List Atom → List Factor
  | [] => []
  | a :: as => [.any a as]

/-- No factor for an empty exclusion. -/
def noneFactor : List Atom → List Factor
  | [] => []
  | a :: as => [.none a as]

/-- The factors of the condition. -/
def conditionFactors (p : DslPolicy) : List Factor :=
  .atom (.eq "action_name" p.action) ::
    (anyFactor (p.whenRoles.map roleAtom) ++ anyFactor (p.whereSubjects.map subjectAtom) ++
      anyFactor (p.whereSubjectGroups.map groupAtom) ++ noneFactor (p.unlessRoles.map roleAtom))

/-- The policy the translator prints. -/
def printable (p : DslPolicy) : Printable :=
  ⟨p.id, p.effect.toCedar, p.action, .atom (.eq "resource_kind" p.resource), conditionFactors p⟩

/-- **The compiled policy.** -/
def compile (p : DslPolicy) : Cedar.Policy := (printable p).policy

/-- No name of the policy contains a quote or a backslash. -/
def DslPolicy.plainNames (p : DslPolicy) : Bool :=
  isPlain p.id && isPlain p.action && isPlain p.resource && p.whenRoles.all isPlain &&
    p.whereSubjects.all isPlain && p.whereSubjectGroups.all isPlain && p.unlessRoles.all isPlain

/-! ## The text means the policy -/

theorem word_toCedar (e : DslEffect) : e.toCedar.word = cedarEffect e := by
  cases e <;> rfl

theorem text_roleAtoms (roles : List String) :
    (roles.map roleAtom).map Atom.text =
      roles.map fun r => "context.principal_roles.contains(\"" ++ r ++ "\")" := by
  rw [List.map_map]
  exact List.map_congr_left fun r _ => rfl

theorem text_groupAtoms (groups : List String) :
    (groups.map groupAtom).map Atom.text =
      groups.map fun g => "context.subject_groups.contains(\"" ++ g ++ "\")" := by
  rw [List.map_map]
  exact List.map_congr_left fun g _ => rfl

/-- The checks of subjects as they are printed. -/
theorem text_subjectAtoms (subjects : List String) :
    (subjects.map subjectAtom).map Atom.text = subjects.map subjectCheck := by
  rw [List.map_map]
  refine List.map_congr_left fun s _ => ?_
  by_cases hself : s = "SELF"
  · simp [subjectAtom, subjectCheck, hself]
    rfl
  · by_cases hreports : s = "DIRECT_REPORTS"
    · simp [subjectAtom, subjectCheck, hreports]
      rfl
    · simp only [Function.comp, subjectAtom, subjectCheck, if_neg hself, if_neg hreports]
      rfl

theorem text_anyFactor (as : List Atom) :
    (anyFactor as).map Factor.text =
      if as.isEmpty then [] else ["(" ++ Text.join " || " (as.map Atom.text) ++ ")"] := by
  cases as <;> rfl

theorem text_noneFactor (as : List Atom) :
    (noneFactor as).map Factor.text =
      if as.isEmpty then [] else ["!(" ++ Text.join " || " (as.map Atom.text) ++ ")"] := by
  cases as <;> rfl

theorem text_factors (p : DslPolicy) :
    ((Factor.atom (.eq "resource_kind" p.resource)) :: conditionFactors p).map Factor.text =
      whenParts p := by
  simp only [conditionFactors, List.map_cons, List.map_append, text_anyFactor, text_noneFactor,
    text_roleAtoms, text_groupAtoms, text_subjectAtoms, List.isEmpty_map, whenParts, roleChecks,
    List.cons_append, List.nil_append, List.append_assoc]
  rfl

/-- The translator prints the policy meant. -/
theorem translateOne_eq (p : DslPolicy) : translateOne p = (printable p).text := by
  have hparts := text_factors p
  simp only [translateOne, Printable.text, Printable.condition, printable, word_toCedar, hparts]

/-- **The translation prints the compiled policies** below a comment. -/
theorem dslToCedar_eq (ps : List DslPolicy) :
    dslToCedar ps =
      Cedar.printFile " Generated by authz-policy from PAAC DSL" (ps.map printable) := by
  have hfold : ∀ out : String,
      ps.foldl (fun out p => out ++ translateOne p ++ "\n") out =
        (ps.map printable).foldl (fun out p => out ++ p.text ++ "\n") out := by
    intro out
    rw [List.foldl_map]
    simp only [translateOne_eq]
  rw [dslToCedar, hfold]
  rfl

theorem plain_roleAtom (r : String) : (roleAtom r).plain = isPlain r := by
  have hname : Cedar.isIdentifier "principal_roles" = true := by decide
  rw [roleAtom, Atom.plain, hname, Bool.true_and]

theorem plain_groupAtom (g : String) : (groupAtom g).plain = isPlain g := by
  have hname : Cedar.isIdentifier "subject_groups" = true := by decide
  rw [groupAtom, Atom.plain, hname, Bool.true_and]

theorem plain_subjectAtom {s : String} (h : isPlain s = true) : (subjectAtom s).plain = true := by
  unfold subjectAtom
  split
  · decide
  · split
    · decide
    · have hname : Cedar.isIdentifier "subject_id" = true := by decide
      rw [Atom.plain, hname, h]
      rfl

theorem plain_anyFactor {as : List Atom} (h : as.all Atom.plain = true) :
    (anyFactor as).all Factor.plain = true := by
  cases as with
  | nil => rfl
  | cons a as => simpa [anyFactor, Factor.plain] using h

theorem plain_noneFactor {as : List Atom} (h : as.all Atom.plain = true) :
    (noneFactor as).all Factor.plain = true := by
  cases as with
  | nil => rfl
  | cons a as => simpa [noneFactor, Factor.plain] using h

theorem all_map_plain {f : String → Atom} (hf : ∀ s, isPlain s = true → (f s).plain = true)
    {ss : List String} (h : ss.all isPlain = true) : (ss.map f).all Atom.plain = true := by
  rw [List.all_map]
  rw [List.all_eq_true] at h ⊢
  exact fun s hs => hf s (h s hs)

/-- A policy with plain names is printed without escapes. -/
theorem plain_printable {p : DslPolicy} (h : p.plainNames = true) : (printable p).plain = true := by
  simp only [DslPolicy.plainNames, Bool.and_eq_true] at h
  obtain ⟨⟨⟨⟨⟨⟨hid, haction⟩, hresource⟩, hwhen⟩, hsubjects⟩, hgroups⟩, hunless⟩ := h
  have hkind : (Factor.atom (.eq "resource_kind" p.resource)).plain = true := by
    have hname : Cedar.isIdentifier "resource_kind" = true := by decide
    rw [Factor.plain, Atom.plain, hname, hresource]
    rfl
  have hname : (Factor.atom (.eq "action_name" p.action)).plain = true := by
    have hname : Cedar.isIdentifier "action_name" = true := by decide
    rw [Factor.plain, Atom.plain, hname, haction]
    rfl
  have hroles : ∀ s, isPlain s = true → (roleAtom s).plain = true := fun s hs => by
    rw [plain_roleAtom, hs]
  have hgroup : ∀ s, isPlain s = true → (groupAtom s).plain = true := fun s hs => by
    rw [plain_groupAtom, hs]
  have h₁ := plain_anyFactor (all_map_plain hroles hwhen)
  have h₂ := plain_anyFactor (all_map_plain (fun _ => plain_subjectAtom) hsubjects)
  have h₃ := plain_anyFactor (all_map_plain hgroup hgroups)
  have h₄ := plain_noneFactor (all_map_plain hroles hunless)
  simp only [Printable.plain, printable, conditionFactors, List.all_cons, List.all_append, hid,
    haction, hkind, hname, h₁, h₂, h₃, h₄, Bool.and_self]

/-- **The generated text reads as the compiled policies.** -/
theorem parse_dslToCedar {ps : List DslPolicy} (h : ps.all DslPolicy.plainNames = true) :
    Cedar.parsePolicies (dslToCedar ps) = some (ps.map compile) := by
  have hplain : (ps.map printable).all Printable.plain = true := by
    rw [List.all_map]
    rw [List.all_eq_true] at h ⊢
    exact fun p hp => plain_printable (h p hp)
  have hcomment : " Generated by authz-policy from PAAC DSL".toList.all
      (fun c => c ≠ '\n' && c ≠ '\r') = true := by
    decide
  rw [dslToCedar_eq, Cedar.parsePolicies_printFile hcomment hplain, List.map_map]
  rfl

/-- A policy set of the translator is one of the generated text. -/
theorem cedarPolicySetFromDsl_ok {E : Cedar.Engine} {ps : List DslPolicy} {set : E.PolicySet}
    (h : cedarPolicySetFromDsl E ps = .ok set) : E.policySetFromStr (dslToCedar ps) = .ok set := by
  unfold cedarPolicySetFromDsl at h
  split at h
  · rename_i s hs
    rw [hs, Except.ok.inj h]
  · cases h

/-- The reference engine reads the compiled policies. -/
theorem cedarPolicySetFromDsl_reference {ps : List DslPolicy}
    (h : ps.all DslPolicy.plainNames = true) :
    cedarPolicySetFromDsl Cedar.Engine.reference ps = .ok (ps.map compile) := by
  have hparse := parse_dslToCedar h
  simp only [cedarPolicySetFromDsl, Cedar.Engine.reference, hparse]

end Paac
