import Paac.Library.Cedar.Engine

set_option autoImplicit false

/-!
# What an answer says about its policies

Beside its decision an answer names the policies that determined it and has one message for each
policy that was skipped. Policies parsed from a text get ids of the engine's choice, one each, under
which their annotations are found again; a caller that wants the names of its own policies has to
look them up through these ids.

`Engine.Diagnoses` is what a caller relies on here: on policies written in the grammar an answer
reports the policies that determine the decision by the semantics, and has a message exactly for
each policy that raises an error.

## Main results

- `erringPolicies_eq_nil`: a policy whose conditions all evaluate to Booleans is never skipped.
- `evaluates_andAll`: a conjunction evaluates to a Boolean when its parts do.
- `Engine.Diagnoses.reason_map`: the annotations of the policies that an answer names are those of
  the policies that determine the decision, in the order of the answer.
- `Engine.reference_diagnoses`: the reference engine answers so.
-/

namespace Paac.Cedar

/-- The effect of the policies that determine a decision. -/
def Decision.determinedBy : Decision → Effect
  | .allow => .permit
  | .deny => .forbid

/-- An answer reports exactly what the semantics says, on policies written in the grammar. -/
structure Engine.Diagnoses (E : Engine) : Prop where
  /-- The ids under which the answer lists the determining policies lead to their annotations. -/
  reports : ∀ {s : String} {P : E.PolicySet} {ps : List Policy}, E.policySetFromStr s = .ok P →
    parsePolicies s = some ps → ∃ name : Nat → String,
      (∀ i p, ps[i]? = some p → E.policy P (name i) = some p.annotations) ∧
      ∀ (q : Request) (es : List Entity), (E.isAuthorized q P es).reason.Perm
        ((ps.zipIdx.filter fun e =>
          e.1.effect = (E.isAuthorized q P es).decision.determinedBy && e.1.satisfied q).map
            fun e => name e.2)
  /-- One message for each policy that was skipped. -/
  one_message : ∀ {s : String} {P : E.PolicySet} {ps : List Policy}, E.policySetFromStr s = .ok P →
    parsePolicies s = some ps → ∀ (q : Request) (es : List Entity),
      (E.isAuthorized q P es).errors.length = (erringPolicies ps q).length

/-! ## Conditions that evaluate -/

theorem raisesError_of_evaluates {c : Record} (es : List Expr)
    (h : ∀ e ∈ es, ∃ b, EvalsTo c e b) : raisesError c es = false := by
  induction es with
  | nil => rfl
  | cons e es ih =>
      obtain ⟨b, hb⟩ := h e List.mem_cons_self
      rw [raisesError, show e.eval c = .ok (.bool b) from hb]
      cases b with
      | false => rfl
      | true => exact ih fun e' he' => h e' (List.mem_cons_of_mem e he')

/-- Policies whose conditions all evaluate are never skipped. -/
theorem erringPolicies_eq_nil {ps : List Policy} {q : Request}
    (h : ∀ p ∈ ps, ∀ e ∈ p.conditions, ∃ b, EvalsTo q.context e b) : erringPolicies ps q = [] := by
  rw [erringPolicies, List.filter_eq_nil_iff]
  intro p hp
  rw [Policy.erring, raisesError_of_evaluates p.conditions (h p hp), Bool.and_false]
  exact Bool.false_ne_true

/-- A conjunction of conditions that evaluate evaluates. -/
theorem evaluates_andAll {c : Record} {e : Expr} {es : List Expr}
    (h : ∀ e' ∈ e :: es, ∃ b, EvalsTo c e' b) : ∃ b, EvalsTo c (andAll e es) b := by
  obtain ⟨b, hb⟩ := h e List.mem_cons_self
  have hrest : List.Forall₂ (EvalsTo c) es (es.map (holds c)) := by
    rw [List.forall₂_map_right_iff, List.forall₂_same]
    intro e' he'
    obtain ⟨b', hb'⟩ := h e' (List.mem_cons_of_mem e he')
    rw [hb'.holds_eq]
    exact hb'
  exact ⟨_, evalsTo_andAll hrest hb⟩

/-! ## What the ids lead to -/

/-- What the reported ids lead to is what the determining policies carry. -/
theorem Engine.Diagnoses.reason_map {E : Engine} (hE : E.Diagnoses) {s : String} {P : E.PolicySet}
    {ps : List Policy} (hset : E.policySetFromStr s = .ok P) (hps : parsePolicies s = some ps)
    {β : Type} {f : String → β} {g : Policy → β}
    (hfg : ∀ p ∈ ps, ∀ id, E.policy P id = some p.annotations → f id = g p) (q : Request)
    (es : List Entity) :
    ((E.isAuthorized q P es).reason.map f).Perm
      ((satisfiedPolicies ps (E.isAuthorized q P es).decision.determinedBy q).map g) := by
  obtain ⟨name, hname, hreason⟩ := hE.reports hset hps
  apply ((hreason q es).map f).trans
  have hfst : satisfiedPolicies ps (E.isAuthorized q P es).decision.determinedBy q =
      (ps.zipIdx.filter fun e => e.1.effect = (E.isAuthorized q P es).decision.determinedBy &&
        e.1.satisfied q).map Prod.fst := by
    rw [satisfiedPolicies]
    conv_lhs => rw [← List.zipIdx_map_fst 0 ps]
    rw [List.filter_map]
    rfl
  rw [hfst, List.map_map, List.map_map]
  apply List.Perm.of_eq
  apply List.map_congr_left
  intro e he
  have hat := List.mem_zipIdx_iff_getElem?.1 (List.mem_of_mem_filter he)
  exact hfg e.1 (List.mem_of_getElem? hat) (name e.2) (hname e.2 e.1 hat)

/-! ## The reference engine -/

theorem nodup_withIds (ps : List Policy) : ((withIds ps).map Prod.fst).Nodup := by
  rw [withIds, List.map_map]
  have hname : (ps.zipIdx.map (Prod.fst ∘ fun e : Policy × Nat => ("policy" ++ toString e.2, e.1))) =
      (ps.zipIdx.map Prod.snd).map fun i => "policy" ++ toString i := by
    rw [List.map_map]
    rfl
  rw [hname, List.zipIdx_map_snd]
  apply List.Nodup.map _ List.nodup_range'
  intro i j hij
  exact Nat.repr_injective ((String.append_right_inj "policy").1 hij)

/-- The reference engine reports what the semantics says. -/
theorem Engine.reference_diagnoses : Engine.reference.Diagnoses where
  reports := by
    intro s P ps hset hps
    simp only [Engine.reference, hps] at hset
    obtain rfl := Except.ok.inj hset
    refine ⟨fun i => "policy" ++ toString i, ?_, ?_⟩
    · intro i p hi
      -- the ids are distinct, so the lookup finds this policy
      have hmem : ("policy" ++ toString i, p) ∈ withIds ps :=
        List.mem_map.2 ⟨(p, i), List.mem_zipIdx_iff_getElem?.2 hi, rfl⟩
      show (lookupEntry ("policy" ++ toString i) (withIds ps)).map _ = _
      rw [lookupEntry_of_mem (nodup_withIds ps) hmem]
      rfl
    · intro q es
      apply List.Perm.of_eq
      show ((withIds ps).filter _).map Prod.fst = _
      rw [withIds, List.filter_map, List.map_map]
      have hdecision : (Engine.reference.isAuthorized q ps es).decision = decision ps q := rfl
      rw [hdecision]
      cases decision ps q with
      | allow => rfl
      | deny => rfl
  one_message := by
    intro s P ps hset hps q es
    simp only [Engine.reference, hps] at hset
    obtain rfl := Except.ok.inj hset
    show (((withIds ps).filter fun p => p.2.erring q).map Prod.fst).length = _
    -- one message for each policy that errs
    have hsnd : erringPolicies ps q = ((withIds ps).filter fun p => p.2.erring q).map Prod.snd := by
      rw [erringPolicies, withIds, List.filter_map, List.map_map]
      conv_lhs => rw [← List.zipIdx_map_fst 0 ps]
      rw [List.filter_map]
      rfl
    rw [hsnd, List.length_map, List.length_map]

end Paac.Cedar
