import Paac.Core.Reference
import Paac.Policy.Meaning

set_option autoImplicit false

/-!
# Compilation against the documented meaning

A text is a list of blocks, and the documentation says when a block matches a request and how the
matching blocks decide it. The translator turns each block into one policy. Two slips keep it from
the documented meaning:

- the subjects that name a group and those that name none go into two lists, and the lists become
  two conjuncts of the condition, although the lines are alternatives in the text (`Block.splits`);
- `when` lines that name no role leave the list of roles empty, which the translator reads as no
  `when` line at all (`Block.widens`).

A request meets one of them in a block when everything else about the block applies
(`Block.misread`). That is a condition on the block and the request, and it is exact block by block.
It is not exact for the whole text, where a block that is read wrongly can be outvoted by another
one.

## Main results

- `admits_eq_counts`: the compiled policy of a block admits the facts of a request exactly when the
  block counts, which is the documented condition with the two slips in it.
- `misread_iff`: a block counts and does not match, or matches and does not count, exactly when the
  request meets one of the two slips in it.
- `follows_iff`: so a compiled policy is satisfied as its block matches exactly when the block is
  not misread.
- `decision_follows_rule`: where no block of the text is misread, the decision follows the
  documented rule; and each compiled policy is satisfied exactly when its block matches, unless the
  block is misread.
- `executive_let_through`: a block that is split lets a denied request through.
-/

namespace Paac

open Cedar (Engine)

/-! ## The two kinds of blocks -/

/-- Subject lines that name no group, and those that do. -/
def groupLines (cs : List Clause) (isGroup : Bool) : List SubjectLine :=
  (subjectLines cs).filter fun l => l.group?.isSome == isGroup

/-- The request satisfies a subject line of one kind and none of the other, and the block has lines
of both kinds. -/
def Block.splits (req : AuthzRequest) (b : Block) : Bool :=
  !(groupLines b.clauses true).isEmpty && !(groupLines b.clauses false).isEmpty &&
    (groupLines b.clauses true).any (SubjectLine.holds req) !=
      (groupLines b.clauses false).any (SubjectLine.holds req)

/-- The block has `when` lines, and none of them names a role. -/
def Block.widens (b : Block) : Bool :=
  !(roleLists b.clauses).isEmpty && (roleLists b.clauses).flatten.isEmpty

/-- The block matches once split blocks are left out and the `when` lines of widened blocks are
ignored. -/
def Block.counts (req : AuthzRequest) (b : Block) : Bool :=
  !b.splits req && ruleApplies req b.clauses && (b.widens || rolesHold req b.clauses) &&
    subjectHolds req b.clauses && !holdsRole req (exemptRoles b.clauses)

/-- The request meets one of the two slips in the block: the rule line applies and no exempt role is
held, and the block is split where its roles hold, or widened where its subjects do. -/
def Block.misread (req : AuthzRequest) (b : Block) : Bool :=
  ruleApplies req b.clauses && !holdsRole req (exemptRoles b.clauses) &&
    ((b.splits req && rolesHold req b.clauses) ||
      (b.widens && !b.splits req && subjectHolds req b.clauses))

/-- A block that is neither split nor widened is not misread. -/
theorem misread_eq_false {req : AuthzRequest} {b : Block} (hsplits : b.splits req = false)
    (hwidens : b.widens = false) : b.misread req = false := by
  simp [Block.misread, hsplits, hwidens]

/-- The roles of a widened block never hold: its lines name none. -/
theorem rolesHold_of_widens {req : AuthzRequest} {b : Block} (h : b.widens = true) :
    rolesHold req b.clauses = false := by
  rw [Block.widens, Bool.and_eq_true, Bool.not_eq_true', List.isEmpty_iff] at h
  obtain ⟨hlists, hnone⟩ := h
  rw [rolesHold, hlists, Bool.false_or, List.any_eq_false]
  intro rs hrs
  obtain rfl := List.flatten_eq_nil_iff.1 hnone rs hrs
  exact Bool.false_ne_true

/-- The subjects of a split block hold: one of the two kinds does. -/
theorem subjectHolds_of_splits {req : AuthzRequest} {b : Block} (h : b.splits req = true) :
    subjectHolds req b.clauses = true := by
  have hpart : ∀ kind, (groupLines b.clauses kind).any (SubjectLine.holds req) = true →
      subjectHolds req b.clauses = true := by
    intro kind hany
    obtain ⟨l, hl, hholds⟩ := List.any_eq_true.1 hany
    rw [subjectHolds, Bool.or_eq_true, List.any_eq_true]
    exact Or.inr ⟨l, List.mem_of_mem_filter hl, hholds⟩
  rw [Block.splits, Bool.and_eq_true, bne_iff_ne] at h
  cases hgroups : (groupLines b.clauses true).any (SubjectLine.holds req) with
  | true => exact hpart true hgroups
  | false =>
      apply hpart false
      rw [hgroups] at h
      exact Bool.eq_true_of_not_eq_false fun hsingle => h.2 hsingle.symm

/-- **A block counts exactly when it matches**, unless the request meets a slip in it. -/
theorem misread_iff (req : AuthzRequest) (b : Block) :
    b.counts req = b.matches req ↔ b.misread req = false := by
  rw [Block.counts, Block.matches, Block.misread]
  cases hwidens : b.widens with
  | true =>
      rw [rolesHold_of_widens hwidens]
      cases b.splits req with
      | true => simp
      | false =>
          cases ruleApplies req b.clauses <;> cases subjectHolds req b.clauses <;>
            cases holdsRole req (exemptRoles b.clauses) <;> rfl
  | false =>
      cases hsplits : b.splits req with
      | true =>
          rw [subjectHolds_of_splits hsplits]
          cases rolesHold req b.clauses <;> simp
      | false => simp

/-! ## Records admit what counts -/

/-- A subject constraint is met as its line holds. -/
theorem meets_constraint {req : AuthzRequest} {l : SubjectLine} {s : String} (hproper : l.Proper)
    (hs : l.constraint? = some s) : (Facts.of req).meets s = l.holds req := by
  cases l with
  | self =>
      obtain rfl := Option.some.inj hs
      rfl
  | directReports =>
      obtain rfl := Option.some.inj hs
      rfl
  | group g => cases hs
  | id x =>
      obtain rfl := Option.some.inj hs
      obtain ⟨hne, hself, hreports⟩ := hproper x rfl
      rw [Facts.meets, if_neg hself, if_neg hreports, SubjectLine.holds]
      cases hsubj : req.subject with
      | none => simp [Facts.of, hsubj, Ne.symm hne]
      | some subj => simp [Facts.of, hsubj]

/-- A subject group is held as its line holds. -/
theorem contains_group {req : AuthzRequest} {l : SubjectLine} {g : String}
    (hg : l.group? = some g) : (Facts.of req).subjectGroups.contains g = l.holds req := by
  cases l with
  | group g' =>
      obtain rfl := Option.some.inj hg
      rw [SubjectLine.holds]
      cases hsubj : req.subject with
      | none => simp [Facts.of, hsubj]
      | some subj => simp [Facts.of, hsubj]
  | self => cases hg
  | directReports => cases hg
  | id x => cases hg

theorem constraint?_isNone (l : SubjectLine) : l.constraint?.isNone = l.group?.isSome := by
  cases l <;> rfl

/-- The parser's subject constraints hold as the lines that name no group do. -/
theorem any_meets {req : AuthzRequest} {ls : List SubjectLine} (hproper : ∀ l ∈ ls, l.Proper) :
    (ls.filterMap SubjectLine.constraint?).any (Facts.of req).meets =
      (ls.filter fun l => l.group?.isSome == false).any (SubjectLine.holds req) := by
  induction ls with
  | nil => rfl
  | cons l ls ih =>
      have hls := ih fun l' hl' => hproper l' (List.mem_cons_of_mem _ hl')
      have hl := hproper l List.mem_cons_self
      have hkind := constraint?_isNone l
      cases hc : l.constraint? with
      | none =>
          rw [hc, Option.isNone_none] at hkind
          rw [List.filterMap_cons_none hc, hls, List.filter_cons_of_neg (by simp [← hkind])]
      | some s =>
          rw [hc, Option.isNone_some] at hkind
          rw [List.filterMap_cons_some hc, List.filter_cons_of_pos (by simp [← hkind]),
            List.any_cons, List.any_cons, meets_constraint hl hc, hls]

/-- The groups of the record are those of the subject lines. -/
theorem any_inOneOf {req : AuthzRequest} (ls : List SubjectLine) :
    (Facts.of req).inOneOf (ls.filterMap SubjectLine.group?) =
      (ls.filter fun l => l.group?.isSome == true).any (SubjectLine.holds req) := by
  unfold Facts.inOneOf
  induction ls with
  | nil => rfl
  | cons l ls ih =>
      cases hg : l.group? with
      | none =>
          rw [List.filterMap_cons_none hg, ih, List.filter_cons_of_neg (by simp [hg])]
      | some g =>
          rw [List.filterMap_cons_some hg, List.filter_cons_of_pos (by simp [hg]), List.any_cons,
            List.any_cons, contains_group hg, ih]

theorem isEmpty_constraints (ls : List SubjectLine) :
    (ls.filterMap SubjectLine.constraint?).isEmpty =
      (ls.filter fun l => l.group?.isSome == false).isEmpty := by
  induction ls with
  | nil => rfl
  | cons l ls ih =>
      have hkind := constraint?_isNone l
      cases hc : l.constraint? with
      | none =>
          rw [hc, Option.isNone_none] at hkind
          rw [List.filterMap_cons_none hc, ih, List.filter_cons_of_neg (by simp [← hkind])]
      | some s =>
          rw [hc, Option.isNone_some] at hkind
          rw [List.filterMap_cons_some hc, List.filter_cons_of_pos (by simp [← hkind]),
            List.isEmpty_cons, List.isEmpty_cons]

theorem isEmpty_groups (ls : List SubjectLine) :
    (ls.filterMap SubjectLine.group?).isEmpty =
      (ls.filter fun l => l.group?.isSome == true).isEmpty := by
  induction ls with
  | nil => rfl
  | cons l ls ih =>
      cases hg : l.group? with
      | none => rw [List.filterMap_cons_none hg, ih, List.filter_cons_of_neg (by simp [hg])]
      | some g =>
          rw [List.filterMap_cons_some hg, List.filter_cons_of_pos (by simp [hg]),
            List.isEmpty_cons, List.isEmpty_cons]

/-- Subject lines are those of the two kinds together. -/
theorem subjectHolds_eq (req : AuthzRequest) (cs : List Clause) :
    subjectHolds req cs =
      (((groupLines cs true).isEmpty && (groupLines cs false).isEmpty) ||
        (groupLines cs true).any (SubjectLine.holds req) ||
          (groupLines cs false).any (SubjectLine.holds req)) := by
  unfold subjectHolds groupLines
  induction subjectLines cs with
  | nil => rfl
  | cons l ls ih =>
      cases l <;> simp [SubjectLine.group?, Bool.or_assoc, Bool.or_left_comm] at ih ⊢ <;> grind

theorem any_flatten (f : String → Bool) (rss : List (List String)) :
    rss.flatten.any f = rss.any fun rs => rs.any f := by
  induction rss with
  | nil => rfl
  | cons rs rss ih => rw [List.flatten_cons, List.any_append, List.any_cons, ih]

/-- Two conjuncts against one alternative, each empty or holding: they differ when the alternative
is split. -/
theorem conjuncts_eq {g s ge se : Bool} (hg : ge = true → g = false) (hs : se = true → s = false) :
    ((se || s) && (ge || g)) = (!(!ge && !se && g != s) && (ge && se || g || s)) := by
  revert hg hs
  cases g <;> cases s <;> cases ge <;> cases se <;> decide

/-- **A record admits the facts exactly when its block counts.** -/
theorem admits_eq_counts {p : DslPolicy} {b : Block} (h : p.Lists b) (req : AuthzRequest) :
    p.admits (Facts.of req) = b.counts req := by
  have hrule : (decide ((Facts.of req).kind = p.resource) &&
      decide ((Facts.of req).action = p.action)) = ruleApplies req b.clauses := by
    rw [ruleApplies, h.rule, Bool.and_comm]
    rfl
  have hroles : (p.whenRoles.isEmpty || (Facts.of req).holdsOneOf p.whenRoles) =
      (b.widens || rolesHold req b.clauses) := by
    have hany : (Facts.of req).holdsOneOf p.whenRoles =
        (roleLists b.clauses).any (holdsRole req) := by
      rw [Facts.holdsOneOf, h.whenRoles, any_flatten]
      rfl
    rw [hany, Block.widens, rolesHold, h.whenRoles]
    cases hlists : roleLists b.clauses with
    | nil => rfl
    | cons rs rss => simp
  -- the constraints and the groups are two conjuncts of the condition
  have hsubject : ((p.whereSubjects.isEmpty || p.whereSubjects.any (Facts.of req).meets) &&
      (p.whereSubjectGroups.isEmpty || (Facts.of req).inOneOf p.whereSubjectGroups)) =
      (!b.splits req && subjectHolds req b.clauses) := by
    rw [h.whereSubjects, h.whereSubjectGroups, any_meets h.proper, any_inOneOf,
      isEmpty_constraints, isEmpty_groups, subjectHolds_eq, Block.splits]
    have hnone : ∀ k, (groupLines b.clauses k).isEmpty = true →
        (groupLines b.clauses k).any (SubjectLine.holds req) = false := by
      intro k hk
      rw [List.isEmpty_iff.1 hk, List.any_nil]
    exact conjuncts_eq (hnone true) (hnone false)
  have hexempt : (Facts.of req).holdsOneOf p.unlessRoles =
      holdsRole req (exemptRoles b.clauses) := by
    rw [h.unlessRoles]
    rfl
  calc p.admits (Facts.of req)
      = (ruleApplies req b.clauses && (b.widens || rolesHold req b.clauses) &&
          (!b.splits req && subjectHolds req b.clauses) &&
          !holdsRole req (exemptRoles b.clauses)) := by
        rw [← hrule, ← hroles, ← hsubject, ← hexempt, ← Bool.and_assoc, DslPolicy.admits]
    _ = b.counts req := by
        rw [Block.counts]
        cases b.splits req <;> simp

theorem allows_iff {p : DslPolicy} {b : Block} (h : p.Lists b) :
    b.allows = true ↔ p.effect = .allow := by
  rw [Block.allows, h.rule]
  cases p.effect <;> simp

/-- An allow policy admits the facts exactly when an allow block counts. -/
theorem some_allow_iff {ps : List DslPolicy} {bs : List Block}
    (h : List.Forall₂ DslPolicy.Lists ps bs) (req : AuthzRequest) :
    (∃ p ∈ ps, p.effect = .allow ∧ p.admits (Facts.of req) = true) ↔
      bs.any (fun b => b.allows && b.counts req) = true := by
  induction h with
  | nil => simp
  | @cons p b ps bs hpb _ ih =>
      rw [List.any_cons, Bool.or_eq_true, ← ih, Bool.and_eq_true, allows_iff hpb,
        ← admits_eq_counts hpb req]
      simp only [List.mem_cons, exists_eq_or_imp]

/-- No deny or review policy admits the facts exactly when no such block counts. -/
theorem no_other_iff {ps : List DslPolicy} {bs : List Block}
    (h : List.Forall₂ DslPolicy.Lists ps bs) (req : AuthzRequest) :
    (∀ p ∈ ps, p.effect ≠ .allow → p.admits (Facts.of req) = false) ↔
      bs.any (fun b => !b.allows && b.counts req) = false := by
  induction h with
  | nil => simp
  | @cons p b ps bs hpb _ ih =>
      have hkind : b.allows = decide (p.effect = .allow) := by
        rw [Bool.eq_iff_iff, allows_iff hpb, decide_eq_true_eq]
      rw [List.any_cons, Bool.or_eq_false_iff, ← ih, ← admits_eq_counts hpb req, hkind,
        List.forall_mem_cons]
      simp

/-- The records grant the facts exactly when the rule answers yes over the blocks that count. -/
theorem grants_iff_ruleAnswer {ps : List DslPolicy} {bs : List Block}
    (h : List.Forall₂ DslPolicy.Lists ps bs) (req : AuthzRequest) :
    Grants ps (Facts.of req) ↔ ruleAnswer bs (Block.counts req) = true := by
  rw [Grants, some_allow_iff h, no_other_iff h, ruleAnswer, Bool.and_eq_true, Bool.not_eq_true']

/-! ## Policies and decisions -/

/-- On the engine's request the compiled policy is satisfied as the documentation says. -/
def DslPolicy.Follows (p : DslPolicy) (b : Block) (req : AuthzRequest) : Prop :=
  ∀ (ms : List (String × Json)) (q : Cedar.Request),
    Json.parse (buildContextJson req) = some (.obj ms) → q.context = Cedar.Record.ofMembers ms →
      q.action = ⟨"Action", Text.toAsciiUppercase req.action.name⟩ →
        (compile p).satisfied q = b.matches req

/-- The compiled policy of a block follows the documentation exactly when the block is not
misread. -/
theorem follows_iff {p : DslPolicy} {b : Block} (hlists : p.Lists b) {req : AuthzRequest}
    (havoid : AvoidsBuiltins req) (haction : Cedar.isPlain req.action.name = true)
    (hkind : Cedar.isPlain req.resource.kind = true)
    (hcontext : ∃ (ms : List (String × Json)) (q : Cedar.Request),
      Json.parse (buildContextJson req) = some (.obj ms) ∧ q.context = Cedar.Record.ofMembers ms ∧
        q.action = ⟨"Action", Text.toAsciiUppercase req.action.name⟩) :
    p.Follows b req ↔ b.misread req = false := by
  have hsatisfied : ∀ (ms : List (String × Json)) (q : Cedar.Request),
      Json.parse (buildContextJson req) = some (.obj ms) → q.context = Cedar.Record.ofMembers ms →
        q.action = ⟨"Action", Text.toAsciiUppercase req.action.name⟩ →
          (compile p).satisfied q = b.counts req := by
    intro ms q hms hq hname
    have hpresents := presents_context hms havoid haction hkind
    rw [← hq] at hpresents
    rw [satisfied_compile hpresents hname, admits_eq_counts hlists]
  rw [← misread_iff]
  constructor
  · intro hfollows
    obtain ⟨ms, q, hms, hq, hname⟩ := hcontext
    rw [← hsatisfied ms q hms hq hname, hfollows ms q hms hq hname]
  · intro hcounts ms q hms hq hname
    rw [hsatisfied ms q hms hq hname, hcounts]

/-- Over blocks none of which is misread, counting is matching. -/
theorem ruleAnswer_counts {req : AuthzRequest} {bs : List Block}
    (h : ∀ b ∈ bs, b.misread req = false) :
    ruleAnswer bs (Block.counts req) = ruleAnswer bs (Block.matches req) := by
  have hsame : ∀ b ∈ bs, b.counts req = b.matches req := fun b hb => (misread_iff req b).2 (h b hb)
  have hany : ∀ g : Block → Bool, (bs.any fun b => g b && b.counts req) =
      bs.any fun b => g b && b.matches req := by
    intro g
    rw [Bool.eq_iff_iff, List.any_eq_true, List.any_eq_true]
    exact exists_congr fun b => and_congr_right fun hb => by rw [hsame b hb]
  rw [ruleAnswer, ruleAnswer, hany, hany]

/-- **The decision follows the documented rule** where no block of the text is misread. Each compiled
policy is satisfied as its block matches exactly when that block is not. -/
theorem decision_follows_rule {E : Engine} (hE : E.Lawful) {input : String} {ps : List DslPolicy}
    (hparse : parseDsl input = .ok ps) (hplain : ps.all DslPolicy.plainNames = true)
    {cfg : EvaluatorConfig E} (hcfg : cedarPolicySetFromDsl E ps = .ok cfg.policySet)
    {req : AuthzRequest} (havoid : AvoidsBuiltins req)
    (haction : Cedar.isPlain req.action.name = true)
    (hkind : Cedar.isPlain req.resource.kind = true) {fresh : Fresh} {d : AuthzDecision}
    (h : evaluate E fresh req cfg = .ok d) :
    ∃ bs, readBlocks input = some bs ∧
      ((∀ b ∈ bs, b.misread req = false) →
        (d.effect = .allow ↔ ruleAnswer bs (Block.matches req) = true)) ∧
      List.Forall₂ (fun p b => DslPolicy.Follows p b req ↔ b.misread req = false) ps bs := by
  obtain ⟨bs, hbs, hlists⟩ := parseDsl_reads hparse
  have hset := cedarPolicySetFromDsl_ok hcfg
  refine ⟨bs, hbs, ?_, ?_⟩
  · intro hread
    rw [evaluate_compiled hE hplain hset havoid haction hkind h, grants_iff_ruleAnswer hlists,
      ruleAnswer_counts hread]
  · obtain ⟨ms, q, hms, hq, hname, -⟩ := evaluate_decides hE hset (parse_dslToCedar hplain) h
    exact hlists.imp fun _ _ hpb =>
      follows_iff hpb havoid haction hkind ⟨ms, q, hms, hq, hname⟩

namespace Executives

/-- Documents are open to all, but those about oneself or about an executive. -/
def text : String :=
  "policy open\nallow READ DOC\npolicy closed\ndeny READ DOC\nwhere subject == SELF\nor subject in EXEC"

/-- The policies of that text. -/
def policies : List DslPolicy :=
  [{ id := "open", effect := .allow, action := "READ", resource := "DOC", whenRoles := [],
     whereSubjects := [], unlessRoles := [], whereSubjectGroups := [],
     raw := "policy open\nallow READ DOC" },
   { id := "closed", effect := .deny, action := "READ", resource := "DOC", whenRoles := [],
     whereSubjects := ["SELF"], unlessRoles := [], whereSubjectGroups := ["EXEC"],
     raw := "policy closed\ndeny READ DOC\nwhere subject == SELF\nor subject in EXEC" }]

/-- Bob reads a document about someone in the given groups. -/
def request (groups : List String) : AuthzRequest :=
  { principal := ⟨"bob", [], [], .empty⟩
    action := ⟨"READ"⟩
    resource := ⟨"DOC", none, .empty⟩
    subject := some ⟨"ann", "Employee", groups, .empty⟩
    context := ⟨.empty⟩
    relationships := []
    actingAs := none
    onBehalfOf := none }

def config : EvaluatorConfig Engine.reference :=
  ⟨(policies.map compile : List Cedar.Policy), "r1", none, .empty⟩

theorem parse_text : parseDsl text = .ok policies := by decide +kernel

theorem plain_policies : policies.all DslPolicy.plainNames = true := by decide +kernel

end Executives

/-- On a subject outside the executives no block is misread, and the rule is followed. -/
theorem decision_follows_rule_staff :
    ∃ d bs, evaluate Engine.reference ⟨"u", "t"⟩ (Executives.request ["STAFF"]) Executives.config =
        .ok d ∧ readBlocks Executives.text = some bs ∧
      (d.effect = .allow ↔ ruleAnswer bs (Block.matches (Executives.request ["STAFF"])) = true) := by
  obtain ⟨d, hd⟩ := @evaluate_reference (Executives.request ["STAFF"]) (by decide)
    (by decide +kernel) ⟨"u", "t"⟩ Executives.config
  have havoid : AvoidsBuiltins (Executives.request ["STAFF"]) :=
    fun a ha => absurd ha List.not_mem_nil
  have hread : (readBlocks Executives.text).map
      (fun bs => bs.all fun b => !b.splits (Executives.request ["STAFF"]) && !b.widens) =
        some true := by
    decide +kernel
  obtain ⟨bs, hbs, hall⟩ := Option.map_eq_some_iff.1 hread
  obtain ⟨bs', hbs', h, -⟩ := decision_follows_rule Engine.reference_lawful Executives.parse_text
    Executives.plain_policies (cedarPolicySetFromDsl_reference Executives.plain_policies) havoid
    (by decide) (by decide) hd
  obtain rfl := Option.some.inj (hbs.symm.trans hbs')
  refine ⟨d, bs, hd, hbs, h ?_⟩
  intro b hb
  have hfine := List.all_eq_true.1 hall b hb
  rw [Bool.and_eq_true, Bool.not_eq_true', Bool.not_eq_true'] at hfine
  exact misread_eq_false hfine.1 hfine.2

/-- A denied subject group is let through when another line of the block does not hold: the lines
are alternatives in the text and conjuncts in the compiled policy. -/
theorem executive_let_through :
    ∃ d bs, evaluate Engine.reference ⟨"u", "t"⟩ (Executives.request ["EXEC"]) Executives.config =
        .ok d ∧ parseDsl Executives.text = .ok Executives.policies ∧
      cedarPolicySetFromDsl Engine.reference Executives.policies = .ok Executives.config.policySet ∧
      readBlocks Executives.text = some bs ∧
      ruleAnswer bs (Block.matches (Executives.request ["EXEC"])) = false ∧ d.effect = .allow := by
  have hset := cedarPolicySetFromDsl_reference Executives.plain_policies
  obtain ⟨d, hd⟩ := @evaluate_reference (Executives.request ["EXEC"]) (by decide)
    (by decide +kernel) ⟨"u", "t"⟩ Executives.config
  have hgrants : Grants Executives.policies (Facts.of (Executives.request ["EXEC"])) := by
    decide +kernel
  have hanswer : (readBlocks Executives.text).map
      (fun bs => ruleAnswer bs (Block.matches (Executives.request ["EXEC"]))) = some false := by
    decide +kernel
  obtain ⟨bs, hbs, hfalse⟩ := Option.map_eq_some_iff.1 hanswer
  exact ⟨d, bs, hd, Executives.parse_text, hset, hbs, hfalse,
    (evaluate_compiled Engine.reference_lawful Executives.plain_policies
      (cedarPolicySetFromDsl_ok hset) (fun a ha => absurd ha List.not_mem_nil) (by decide)
      (by decide) hd).2 hgrants⟩

end Paac
