import Paac.Policy.Attributes
import Paac.Policy.Written

set_option autoImplicit false

/-!
# Policy files one after the other

A text behind another one says what both say: its first statement is a header, so nothing of it
belongs to the last block of the other. The compiled policies of both decide alike in either order,
and only an allow policy of the second whose condition holds turns a denial of the first into an
allowance.

For the texts, the reader is run on the second one from two states: the empty one, and the one the
first text has left. `Blocks.Behind` says that it has then read the same blocks, behind the earlier
ones. For the decisions, an evaluation allows exactly when some allow policy holds for the request
and no other one does, and this does not depend on the order.

## Main results

- `Blocks.Behind.readStatement`, `readBlocks_append`: the blocks of the two texts, one statement and
  then all of them.
- `parseDsl_append`: the policies of the two texts, up to the raw texts they keep.
- `evaluate_allows`: when an evaluation allows, over the policies that hold.
- `allows_congr`: the order of the policies does not matter.
- `exists_of_allows_append`: which policy turns a denial into an allowance.
- `files_compose`: the texts together.
-/

namespace Paac

open Cedar (Engine Record)

/-! ## Texts -/

/-- Splitting a text that has the separator inside. -/
theorem splitChars_append_cons (c : Char) (cs rest : List Char) :
    Text.splitChars c (cs ++ c :: rest) = Text.splitChars c cs ++ Text.splitChars c rest := by
  induction cs with
  | nil => simp [Text.splitChars]
  | cons d ds ih =>
      rw [List.cons_append, Text.splitChars, Text.splitChars, ih]
      by_cases hd : d = c
      · rw [if_pos hd, if_pos hd, List.cons_append]
      · rw [if_neg hd, if_neg hd]
        cases hpieces : Text.splitChars c ds with
        | nil => exact absurd hpieces (Text.splitChars_ne_nil c ds)
        | cons piece pieces => rfl

/-- The statements of a text, one a line. -/
def statementsOf (input : String) : List String := (Text.split '\n' input).map statementOf

theorem foldlM_lines (input : String) (bs : Blocks) :
    (Text.lines input).foldlM Blocks.readLine bs =
      (statementsOf input).foldlM Blocks.readStatement bs := by
  rw [statementsOf, ← foldlM_closeLines, Text.lines, Text.split, List.map_map]
  congr 3
  simp

theorem statementsOf_append (a b : String) :
    statementsOf (a ++ "\n" ++ b) = statementsOf a ++ statementsOf b := by
  have hchars : (a ++ "\n" ++ b).toList = a.toList ++ '\n' :: b.toList := by
    rw [String.toList_append, String.toList_append, List.append_assoc]
    rfl
  rw [statementsOf, Text.split, hchars, splitChars_append_cons, List.map_append, List.map_append]
  rfl

/-! ## Blocks behind other blocks -/

/-- The reader has read the same blocks, behind earlier ones. -/
def Blocks.Behind (prior : List Block) (s t : Blocks) : Prop :=
  (t = ⟨[], none⟩ ∧ s.all = prior) ∨ (t.current.isSome = true ∧ s = ⟨prior ++ t.done, t.current⟩)

theorem Blocks.Behind.all {prior : List Block} {s t : Blocks} (h : s.Behind prior t) :
    s.all = prior ++ t.all := by
  rcases h with ⟨rfl, hs⟩ | ⟨-, rfl⟩
  · rw [hs, Blocks.all, Option.toList_none, List.append_nil, List.append_nil]
  · rw [Blocks.all, Blocks.all, List.append_assoc]

/-- **One statement in step.** Where nothing is open, only a header can follow. -/
theorem Blocks.Behind.readStatement {prior : List Block} {s t t' : Blocks} {statement : String}
    (h : s.Behind prior t) (hread : t.readStatement statement = some t') :
    ∃ s', s.readStatement statement = some s' ∧ s'.Behind prior t' := by
  unfold Blocks.readStatement at hread ⊢
  split at hread
  · rename_i hempty
    obtain rfl := Option.some.inj hread
    exact ⟨s, if_pos hempty, h⟩
  · rename_i hempty
    rw [if_neg hempty]
    obtain ⟨c, hc, hpush⟩ := Option.bind_eq_some_iff.1 hread
    rw [hc, Option.bind_some]
    -- a clause that is no header goes to the open block
    have hadd : (∀ u : Blocks, u.push c = u.current.map fun b =>
        ({ u with current := some ⟨b.name, b.clauses ++ [c]⟩ } : Blocks)) →
        ∃ s', s.push c = some s' ∧ s'.Behind prior t' := by
      intro hadds
      rw [hadds] at hpush
      obtain ⟨b, hb, rfl⟩ := Option.map_eq_some_iff.1 hpush
      rcases h with ⟨rfl, -⟩ | ⟨-, rfl⟩
      · cases hb
      · rw [hadds, hb]
        exact ⟨_, rfl, Or.inr ⟨rfl, rfl⟩⟩
    cases c with
    | header name =>
        obtain rfl := Option.some.inj hpush
        exact ⟨_, rfl, Or.inr ⟨rfl, by rw [h.all]⟩⟩
    | roles rs => exact hadd fun _ => rfl
    | rule e a k => exact hadd fun _ => rfl
    | subject l => exact hadd fun _ => rfl
    | exempt rs => exact hadd fun _ => rfl

/-- Statements keep the blocks behind the others, by induction. -/
theorem Blocks.Behind.foldlM {prior : List Block} (statements : List String) :
    ∀ {s t t' : Blocks}, s.Behind prior t → statements.foldlM Blocks.readStatement t = some t' →
      ∃ s', statements.foldlM Blocks.readStatement s = some s' ∧ s'.Behind prior t' := by
  induction statements with
  | nil =>
      intro s t t' h hread
      obtain rfl := Option.some.inj hread
      exact ⟨s, rfl, h⟩
  | cons statement statements ih =>
      intro s t t' h hread
      rw [List.foldlM_cons] at hread
      obtain ⟨t₁, ht₁, hread⟩ := Option.bind_eq_some_iff.1 hread
      obtain ⟨s₁, hs₁, h₁⟩ := h.readStatement ht₁
      obtain ⟨s', hs', h'⟩ := ih h₁ hread
      exact ⟨s', by rw [List.foldlM_cons, hs₁]; exact hs', h'⟩

/-- The blocks of a text behind another one are those of both. -/
theorem readBlocks_append {a b : String} {as bs : List Block} (ha : readBlocks a = some as)
    (hb : readBlocks b = some bs) : readBlocks (a ++ "\n" ++ b) = some (as ++ bs) := by
  obtain ⟨s, hs, rfl⟩ := Option.map_eq_some_iff.1 ha
  obtain ⟨t, ht, rfl⟩ := Option.map_eq_some_iff.1 hb
  rw [foldlM_lines] at hs ht
  obtain ⟨s', hs', hbehind⟩ := Blocks.Behind.foldlM (statementsOf b)
    (s := s) (t := ⟨[], none⟩) (Or.inl ⟨rfl, rfl⟩) ht
  rw [readBlocks, foldlM_lines, statementsOf_append, List.foldlM_append, hs]
  rw [show (some s >>= fun u => (statementsOf b).foldlM Blocks.readStatement u) =
    (statementsOf b).foldlM Blocks.readStatement s from rfl, hs', Option.map_some, hbehind.all]

/-! ## Records -/

/-- The records of a block agree up to their raw texts. -/
theorem DslPolicy.Lists.withoutRaw_eq {p p' : DslPolicy} {b : Block} (h : p.Lists b)
    (h' : p'.Lists b) : p.withoutRaw = p'.withoutRaw := by
  have hrule := h.rule.symm.trans h'.rule
  rw [Option.some.injEq, Prod.mk.injEq, Prod.mk.injEq] at hrule
  rw [DslPolicy.withoutRaw, DslPolicy.withoutRaw, h.id, h'.id, hrule.1, hrule.2.1, hrule.2.2,
    h.whenRoles, h'.whenRoles, h.whereSubjects, h'.whereSubjects, h.whereSubjectGroups,
    h'.whereSubjectGroups, h.unlessRoles, h'.unlessRoles]

/-- Two lists of policies that list the same blocks are equal up to raw texts. -/
theorem map_withoutRaw_eq {ps : List DslPolicy} {bs : List Block}
    (h : List.Forall₂ DslPolicy.Lists ps bs) : ∀ {ps' : List DslPolicy},
      List.Forall₂ DslPolicy.Lists ps' bs →
        ps.map DslPolicy.withoutRaw = ps'.map DslPolicy.withoutRaw := by
  induction h with
  | nil =>
      intro ps' h'
      cases h'
      rfl
  | cons hp _ ih =>
      intro ps' h'
      cases h' with
      | cons hp' hrest => rw [List.map_cons, List.map_cons, hp.withoutRaw_eq hp', ih hrest]

/-- **Texts compose**: a text behind another one is accepted when both are, and the records are those
of both, up to their raw texts. -/
theorem parseDsl_append {a b : String} {psa psb : List DslPolicy} (ha : parseDsl a = .ok psa)
    (hb : parseDsl b = .ok psb) :
    ∃ ps, parseDsl (a ++ "\n" ++ b) = .ok ps ∧
      ps.map DslPolicy.withoutRaw = (psa ++ psb).map DslPolicy.withoutRaw := by
  obtain ⟨as, has, hlistsa⟩ := parseDsl_reads ha
  obtain ⟨bs, hbs, hlistsb⟩ := parseDsl_reads hb
  have hread := readBlocks_append has hbs
  have hrules : ∀ {input : String} {blocks : List Block} {ps : List DslPolicy},
      parseDsl input = .ok ps → readBlocks input = some blocks →
        ∀ block ∈ blocks, block.hasRule = true := by
    intro input blocks ps hps hblocks
    obtain ⟨blocks', hblocks', hall⟩ := parseDsl_accepts_iff.1 ⟨ps, hps⟩
    obtain rfl := Option.some.inj (hblocks'.symm.trans hblocks)
    exact hall
  obtain ⟨ps, hps⟩ := parseDsl_accepts_iff.2 ⟨_, hread, by
    rw [List.forall_mem_append]
    exact ⟨hrules ha has, hrules hb hbs⟩⟩
  refine ⟨ps, hps, ?_⟩
  obtain ⟨blocks, hblocks, hlists⟩ := parseDsl_reads hps
  obtain rfl := Option.some.inj (hread.symm.trans hblocks)
  exact map_withoutRaw_eq hlists (List.rel_append hlistsa hlistsb)

/-! ## Decisions -/

/-- The compiled condition of the policy holds for the request. -/
def DslPolicy.HoldsFor (req : AuthzRequest) (p : DslPolicy) : Prop :=
  ∃ (ms : List (String × Json)) (q : Cedar.Request),
    Json.parse (buildContextJson req) = some (.obj ms) ∧ q.context = Record.ofMembers ms ∧
      q.action = ⟨"Action", Text.toAsciiUppercase req.action.name⟩ ∧ (compile p).satisfied q = true

/-- A compiled policy looks at action and context only. -/
theorem satisfied_congr (p : DslPolicy) {q q' : Cedar.Request} (hcontext : q.context = q'.context)
    (haction : q.action = q'.action) : (compile p).satisfied q = (compile p).satisfied q' := by
  rw [Cedar.Policy.satisfied, Cedar.Policy.satisfied, Cedar.Policy.inScope, Cedar.Policy.inScope,
    hcontext, haction]

/-- A policy holds for a request when it is satisfied in the context of the request. -/
theorem holdsFor_iff {req : AuthzRequest} {ms : List (String × Json)} {q : Cedar.Request}
    (hms : Json.parse (buildContextJson req) = some (.obj ms))
    (hcontext : q.context = Record.ofMembers ms)
    (haction : q.action = ⟨"Action", Text.toAsciiUppercase req.action.name⟩) (p : DslPolicy) :
    p.HoldsFor req ↔ (compile p).satisfied q = true := by
  constructor
  · rintro ⟨ms', q', hms', hcontext', haction', hsat⟩
    obtain rfl : ms = ms' := by
      rw [hms] at hms'
      exact Json.obj.inj (Option.some.inj hms')
    rwa [satisfied_congr p (hcontext.trans hcontext'.symm) (haction.trans haction'.symm)]
  · exact fun hsat => ⟨ms, q, hms, hcontext, haction, hsat⟩

/-- Some allow policy holds for the request, and no other one does. -/
def Allows (req : AuthzRequest) (ps : List DslPolicy) : Prop :=
  (∃ p ∈ ps, p.effect = .allow ∧ p.HoldsFor req) ∧ ∀ p ∈ ps, p.effect ≠ .allow → ¬p.HoldsFor req

/-- **The decision on compiled policies**, whatever the names in the request. -/
theorem evaluate_allows {E : Engine} (hE : E.Lawful) {fresh : Fresh} {req : AuthzRequest}
    {cfg : EvaluatorConfig E} {d : AuthzDecision} {ps : List DslPolicy}
    (hplain : ps.all DslPolicy.plainNames = true)
    (hset : cedarPolicySetFromDsl E ps = .ok cfg.policySet)
    (h : evaluate E fresh req cfg = .ok d) :
    (d.effect = .allow ∨ d.effect = .deny) ∧ (d.effect = .allow ↔ Allows req ps) := by
  obtain ⟨ms, q, hms, hcontext, haction, heffect⟩ :=
    evaluate_decides hE (cedarPolicySetFromDsl_ok hset) (parse_dslToCedar hplain) h
  constructor
  · rw [heffect]
    cases Cedar.decision (ps.map compile) q with
    | allow => exact Or.inl rfl
    | deny => exact Or.inr rfl
  · have hcompiled : ∀ p : DslPolicy, (compile p).effect = p.effect.toCedar := fun _ => rfl
    rw [heffect, effectFromCedar_eq_allow, Cedar.decision_eq_allow_iff, Allows]
    simp only [List.mem_map, exists_exists_and_eq_and, forall_exists_index, and_imp,
      forall_apply_eq_imp_iff₂, hcompiled, toCedar_eq_permit, toCedar_eq_forbid,
      holdsFor_iff hms hcontext haction, Bool.not_eq_true]

/-- Only what the records say decides, in whatever order they stand. -/
theorem allows_congr {req : AuthzRequest} {ps ps' : List DslPolicy}
    (h : ∀ p, p ∈ ps.map DslPolicy.withoutRaw ↔ p ∈ ps'.map DslPolicy.withoutRaw) :
    Allows req ps ↔ Allows req ps' := by
  have hraw : ∀ qs : List DslPolicy, Allows req (qs.map DslPolicy.withoutRaw) ↔ Allows req qs := by
    intro qs
    have hholds : ∀ p : DslPolicy, p.withoutRaw.HoldsFor req ↔ p.HoldsFor req := fun _ => Iff.rfl
    have heffect : ∀ p : DslPolicy, p.withoutRaw.effect = p.effect := fun _ => rfl
    simp only [Allows, List.mem_map, exists_exists_and_eq_and, forall_exists_index, and_imp,
      forall_apply_eq_imp_iff₂, hholds, heffect]
  rw [← hraw ps, ← hraw ps', Allows, Allows]
  simp only [h]

theorem effect_eq_of_allow_iff {d d' : AuthzDecision} (hd : d.effect = .allow ∨ d.effect = .deny)
    (hd' : d'.effect = .allow ∨ d'.effect = .deny) (h : d.effect = .allow ↔ d'.effect = .allow) :
    d.effect = d'.effect := by
  rcases hd with hd | hd
  · rw [hd, h.1 hd]
  · rcases hd' with hd' | hd'
    · rw [hd', h.2 hd']
    · rw [hd, hd']

/-- More policies allow where fewer do not only through an allow policy among the new ones. -/
theorem exists_of_allows_append {req : AuthzRequest} {ps qs : List DslPolicy}
    (hnot : ¬Allows req ps) (h : Allows req (ps ++ qs)) :
    ∃ p ∈ qs, p.effect = .allow ∧ p.HoldsFor req := by
  obtain ⟨⟨p, hp, heffect, hholds⟩, hothers⟩ := h
  rcases List.mem_append.1 hp with hp | hp
  · have hallows : Allows req ps :=
      ⟨⟨p, hp, heffect, hholds⟩, fun q hq => hothers q (List.mem_append_left qs hq)⟩
    exact absurd hallows hnot
  · exact ⟨p, hp, heffect, hholds⟩

theorem plainNames_of_withoutRaw {ps qs : List DslPolicy}
    (h : ps.map DslPolicy.withoutRaw = qs.map DslPolicy.withoutRaw)
    (hqs : qs.all DslPolicy.plainNames = true) : ps.all DslPolicy.plainNames = true := by
  have hraw : ∀ rs : List DslPolicy,
      (rs.map DslPolicy.withoutRaw).all DslPolicy.plainNames = rs.all DslPolicy.plainNames := by
    intro rs
    rw [List.all_map]
    rfl
  rw [← hraw, h, hraw, hqs]

/-- **Policy files compose.** A text behind another one is accepted and read as both; with plain names
the order of the two makes no difference to any decision, and a denial becomes an allowance only
through an allow policy of the second text whose condition holds. -/
theorem files_compose (a b : String) (psa psb : List DslPolicy) (ha : parseDsl a = .ok psa)
    (hb : parseDsl b = .ok psb) :
    ∃ psab psba, parseDsl (a ++ "\n" ++ b) = .ok psab ∧ parseDsl (b ++ "\n" ++ a) = .ok psba ∧
      psab.map DslPolicy.withoutRaw = (psa ++ psb).map DslPolicy.withoutRaw ∧
      psba.map DslPolicy.withoutRaw = (psb ++ psa).map DslPolicy.withoutRaw ∧
      (psa.all DslPolicy.plainNames = true → psb.all DslPolicy.plainNames = true →
        ∀ (E : Engine) (req : AuthzRequest) (fresh fresh' : Fresh) (cfg cfg' : EvaluatorConfig E)
          (d d' : AuthzDecision), E.Lawful →
          cedarPolicySetFromDsl E psab = .ok cfg'.policySet → evaluate E fresh' req cfg' = .ok d' →
          evaluate E fresh req cfg = .ok d →
            (cedarPolicySetFromDsl E psba = .ok cfg.policySet → d.effect = d'.effect) ∧
            (cedarPolicySetFromDsl E psa = .ok cfg.policySet → d.effect = .deny →
              d'.effect = .allow → ∃ p ∈ psb, p.effect = .allow ∧ p.HoldsFor req)) := by
  obtain ⟨psab, hab, hrawab⟩ := parseDsl_append ha hb
  obtain ⟨psba, hba, hrawba⟩ := parseDsl_append hb ha
  refine ⟨psab, psba, hab, hba, hrawab, hrawba, ?_⟩
  intro hplaina hplainb E req fresh fresh' cfg cfg' d d' hE hset' hd' hd
  have hplainab : psab.all DslPolicy.plainNames = true :=
    plainNames_of_withoutRaw hrawab (by rw [List.all_append, hplaina, hplainb]; rfl)
  obtain ⟨htwo', hallow'⟩ := evaluate_allows hE hplainab hset' hd'
  constructor
  · intro hset
    have hplainba : psba.all DslPolicy.plainNames = true :=
      plainNames_of_withoutRaw hrawba (by rw [List.all_append, hplaina, hplainb]; rfl)
    obtain ⟨htwo, hallow⟩ := evaluate_allows hE hplainba hset hd
    -- both orders hold the same policies
    apply effect_eq_of_allow_iff htwo htwo'
    rw [hallow, hallow']
    apply allows_congr
    intro p
    rw [hrawab, hrawba, List.map_append, List.map_append, List.mem_append, List.mem_append, or_comm]
  · intro hset hdeny hallowed
    obtain ⟨-, hallow⟩ := evaluate_allows hE hplaina hset hd
    have hnot : ¬Allows req psa := by
      rw [← hallow, hdeny]
      exact nofun
    have hjoined : Allows req (psa ++ psb) := by
      apply (allows_congr fun p => ?_).1 (hallow'.1 hallowed)
      rw [hrawab]
    exact exists_of_allows_append hnot hjoined

/-! ### Two files -/

namespace Compose

def grants : String := "policy \"pay\"\nallow READ PAYROLL\nwhen role == HR\r"

def denials : String := "# leavers\n\npolicy \"leavers\"\ndeny READ PAYROLL\nwhere subject in LEAVERS"

def grantPolicies : List DslPolicy :=
  [⟨"pay", .allow, "READ", "PAYROLL", ["HR"], [], [], [], grants⟩]

def denialPolicies : List DslPolicy :=
  [⟨"leavers", .deny, "READ", "PAYROLL", [], [], [], ["LEAVERS"],
    "policy \"leavers\"\ndeny READ PAYROLL\nwhere subject in LEAVERS"⟩]

end Compose

open Compose in
/-- A file of grants and one of denials decide alike in either order. -/
theorem files_compose_grants_denials :
    ∃ psab psba, parseDsl (grants ++ "\n" ++ denials) = .ok psab ∧
      parseDsl (denials ++ "\n" ++ grants) = .ok psba ∧
      psab.map DslPolicy.withoutRaw = (grantPolicies ++ denialPolicies).map DslPolicy.withoutRaw ∧
      ∀ (E : Engine) (req : AuthzRequest) (fresh : Fresh) (cfg cfg' : EvaluatorConfig E)
        (d d' : AuthzDecision), E.Lawful → cedarPolicySetFromDsl E psab = .ok cfg'.policySet →
          cedarPolicySetFromDsl E psba = .ok cfg.policySet → evaluate E fresh req cfg' = .ok d' →
            evaluate E fresh req cfg = .ok d → d.effect = d'.effect := by
  obtain ⟨psab, psba, hab, hba, hrawab, -, hdecide⟩ := files_compose grants denials grantPolicies
    denialPolicies (by decide +kernel) (by decide +kernel)
  refine ⟨psab, psba, hab, hba, hrawab, ?_⟩
  intro E req fresh cfg cfg' d d' hE hset' hset hd' hd
  exact (hdecide (by decide) (by decide) E req fresh fresh cfg cfg' d d' hE hset' hd' hd).1 hset

end Paac
