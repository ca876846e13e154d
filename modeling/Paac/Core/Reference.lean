import Paac.Core.Context
import Paac.Library.Cedar.Literals

set_option autoImplicit false

/-!
# Deciding with the reference engine

On the reference engine every valid request whose strings need no escape and contain no control
character is decided: its entities can be built and its context is accepted. Results about decided
requests are therefore about something, and the examples of later modules obtain their decisions
from here without running the evaluator in the kernel.

## Main results

- `strAttr_reference`, `setAttr_reference`: the attribute builders never panic on simple strings.
- `collectEdges_reference`: the ends of the collected edges are simple as well.
- `buildEntities_reference`: so all entities of a simple request are built, whatever the configured
  groups are.
- `parse_context_simple`: the context text of a simple request is JSON.
- `evaluate_reference`: a valid simple request is decided under every policy set.
-/

namespace Paac

open Cedar (Engine Entity EntityUid Value isPlain)

/-! ## Requests that need no escape -/

/-- The string needs no escape and contains no control character: a carriage return is one. -/
def isSimple (s : String) : Bool := isPlain s && Json.isClean s

/-- All strings of the request that are spliced into expressions or into the context are simple,
and the entity type of the subject is an identifier. -/
def isSimpleRequest (req : AuthzRequest) : Bool :=
  isSimple req.action.name && isSimple req.resource.kind &&
    req.principal.roles.all isSimple && req.principal.groups.all isSimple &&
    req.principal.attrs.entries.all (fun e => isSimple e.2) &&
    req.resource.attrs.entries.all (fun e => isSimple e.2) &&
    (match req.subject with
      | some s => isSimple s.id && s.groups.all isSimple &&
          s.attrs.entries.all (fun e => isSimple e.2) && Cedar.isIdentifier (subjectType s.kind)
      | none => true) &&
    req.context.values.entries.all (fun e => Json.isClean e.1 && Json.isClean e.2) &&
    req.relationships.all (fun r => isSimple r.«to») &&
    (req.actingAs.all isSimple && req.onBehalfOf.all isSimple)

theorem isSimple_plain {s : String} (h : isSimple s = true) : isPlain s = true := by
  rw [isSimple, Bool.and_eq_true] at h
  exact h.1

theorem all_isSimple_clean {ss : List String} (h : ss.all isSimple = true) :
    ss.all Json.isClean = true := by
  rw [List.all_eq_true] at h ⊢
  intro s hs
  have hsimple := h s hs
  rw [isSimple, Bool.and_eq_true] at hsimple
  exact hsimple.2

/-! ## Attribute expressions -/

/-- The builders escape the quotes of a string. -/
theorem quoteAttr_eq (v : String) : quoteAttr v = Cedar.literal (Cedar.escaped v) := by
  have hquote : "\\\"".toList = ['\\', '"'] := by decide
  rw [quoteAttr, Text.replaceChar, hquote]
  rfl

theorem setText_eq (vals : List String) : "[" ++ Text.join ", " (vals.map quoteAttr) ++ "]" =
    Cedar.literalList (vals.map Cedar.escaped) := by
  rw [Cedar.literalList, List.map_map]
  have hsame : quoteAttr = Cedar.literal ∘ Cedar.escaped := funext quoteAttr_eq
  rw [hsame]

/-- The literal of a simple string denotes it. -/
theorem shortEscapes_simple {v : String} (h : isSimple v = true) :
    Cedar.ShortEscapes (Cedar.escaped v).toList v.toList := by
  rw [isSimple, Bool.and_eq_true] at h
  rw [Cedar.escaped, String.toList_ofList]
  apply Cedar.shortEscapes_escapeQuotes
  · intro hback
    have hplain := List.all_eq_true.1 h.1 _ hback
    simp at hplain
  · intro hreturn
    have hclean := List.all_eq_true.1 h.2 _ hreturn
    revert hclean
    decide

theorem strAttr_reference {v : String} (h : isSimple v = true) :
    strAttr Engine.reference v = .ok (.str v) := by
  have hv := Cedar.reference_literal (shortEscapes_simple h)
  rw [← quoteAttr_eq] at hv
  simp only [strAttr, hv]

theorem setAttr_reference {vs : List String} (h : vs.all isSimple = true) :
    setAttr Engine.reference vs = .ok (.set (vs.map .str)) := by
  have hforall : List.Forall₂ (fun raw s : String => Cedar.ShortEscapes raw.toList s.toList)
      (vs.map Cedar.escaped) vs := by
    rw [List.forall₂_map_left_iff, List.forall₂_same]
    exact fun v hv => shortEscapes_simple (List.all_eq_true.1 h v hv)
  have hvs := Cedar.reference_literalList hforall
  rw [← setText_eq] at hvs
  simp only [setAttr, hvs]

/-! ## Entities -/

/-- A fold whose steps succeed and keep an invariant succeeds and keeps it. -/
theorem foldlM_total {α β ε : Type} {f : β → α → Except ε β} {I : β → Prop} {as : List α}
    (step : ∀ b, ∀ a ∈ as, I b → ∃ b', f b a = .ok b' ∧ I b') :
    ∀ b, I b → ∃ b', as.foldlM f b = .ok b' ∧ I b' := by
  induction as with
  | nil => intro b hb; exact ⟨b, rfl, hb⟩
  | cons a as ih =>
      intro b hb
      obtain ⟨b₁, h₁, hb₁⟩ := step b a List.mem_cons_self hb
      obtain ⟨b₂, h₂, hb₂⟩ := ih (fun b' a' ha' => step b' a' (List.mem_cons_of_mem _ ha')) b₁ hb₁
      exact ⟨b₂, by rw [List.foldlM_cons, h₁]; exact h₂, hb₂⟩

theorem uid_reference {tn : String} (h : Cedar.isIdentifier tn = true) (id : String) :
    Entities.uid Engine.reference tn id = .ok ⟨tn, id⟩ := by
  simp [Entities.uid, entityUid, Engine.reference, h, mapErr]

/-- The ends of the collected manager and report edges are simple. -/
def Edges.Simple (g : Edges) : Prop :=
  (∀ k vs, lookupEntry k g.managerOf = some vs → vs.all isSimple = true) ∧
    ∀ k vs, lookupEntry k g.directReports = some vs → vs.all isSimple = true

/-- An edge list stays simple when a simple target is added. -/
theorem all_simple_pushEntry {m : List (String × List String)} {k v : String}
    (hm : ∀ k vs, lookupEntry k m = some vs → vs.all isSimple = true) (hv : isSimple v = true) :
    ∀ k' vs, lookupEntry k' (pushEntry k v m) = some vs → vs.all isSimple = true := by
  intro k' vs h
  rw [pushEntry, lookupEntry_insertEntry] at h
  split at h
  · obtain rfl := Option.some.inj h
    rw [List.all_append, List.all_cons, hv]
    cases hl : lookupEntry k m with
    | none => rfl
    | some us => simp [hm k us hl]
  · exact hm k' vs h

/-- The edges of simple relationships are collected, and are simple. -/
theorem collectEdges_reference {input : EntityBuildInput}
    (h : input.request.relationships.all (fun r => isSimple r.«to») = true) :
    ∃ g, collectEdges Engine.reference input = .ok g ∧ g.Simple := by
  have hgroup : Cedar.isIdentifier "Group" = true := by decide
  rw [List.all_eq_true] at h
  -- both loops keep the edges simple
  have hedges : ∀ g, ∀ rel ∈ input.request.relationships, Edges.Simple g →
      ∃ g', edgeStep Engine.reference g rel = .ok g' ∧ g'.Simple := by
    intro g rel hrel hg
    have hto := h rel hrel
    cases hkind : rel.kind with
    | managerOf =>
        exact ⟨{ g with managerOf := pushEntry rel.«from» rel.«to» g.managerOf },
          by simp only [edgeStep, hkind], all_simple_pushEntry hg.1 hto, hg.2⟩
    | directReports =>
        exact ⟨{ g with directReports := pushEntry rel.«from» rel.«to» g.directReports },
          by simp only [edgeStep, hkind], hg.1, all_simple_pushEntry hg.2 hto⟩
    | groupMember =>
        refine ⟨{ g with
          groupLinks := pushEntry rel.«to» rel.«from» g.groupLinks
          parents := addParent rel.«from» ⟨"Group", rel.«to»⟩ g.parents }, ?_, hg⟩
        simp only [edgeStep, hkind, uid_reference hgroup]
        rfl
    | delegation => exact ⟨g, by simp only [edgeStep, hkind], hg⟩
  have hmembers : ∀ g, ∀ e ∈ input.groupMembers.entries, Edges.Simple g →
      ∃ g', e.2.foldlM (memberStep Engine.reference e.1) g = .ok g' ∧ g'.Simple := by
    intro g e _ hg
    refine foldlM_total (fun g' m _ hg' => ⟨{ g' with
      parents := addParent m ⟨"Group", e.1⟩ g'.parents
      groupLinks := pushEntry e.1 m g'.groupLinks }, ?_, hg'⟩) g hg
    simp only [memberStep, uid_reference hgroup]
    rfl
  have hempty : Edges.Simple ⟨[], [], [], []⟩ := by
    constructor
    · intro k vs hk
      cases hk
    · intro k vs hk
      cases hk
  obtain ⟨g₁, h₁, hg₁⟩ := foldlM_total hedges ⟨[], [], [], []⟩ hempty
  obtain ⟨g₂, h₂, hg₂⟩ := foldlM_total hmembers g₁ hg₁
  refine ⟨g₂, ?_, hg₂⟩
  rw [collectEdges, h₁]
  exact h₂

/-- Simple attributes are built. -/
theorem insertStrAttrs_reference {attrs : IndexMap String}
    (h : attrs.entries.all (fun e => isSimple e.2) = true) (as : List (String × Value)) :
    ∃ as', insertStrAttrs Engine.reference attrs as = .ok as' := by
  rw [List.all_eq_true] at h
  obtain ⟨as', has', -⟩ := foldlM_total (I := fun _ => True)
    (f := fun as (e : String × String) => do
      return insertEntry e.1 (← strAttr Engine.reference e.2) as)
    (fun as e he _ => ⟨_, by rw [strAttr_reference (h e he)]; rfl, trivial⟩) as trivial
  exact ⟨as', has'⟩

theorem insertOptAttr_reference {v : Option String} (h : v.all isSimple = true) (k : String)
    (as : List (String × Value)) : ∃ as', insertOptAttr Engine.reference k v as = .ok as' := by
  cases v with
  | none => exact ⟨as, rfl⟩
  | some v => exact ⟨_, by rw [insertOptAttr, strAttr_reference h]; rfl⟩

theorem allParents_reference (id : String) (groups : List String) (g : Edges) :
    ∃ us, allParents Engine.reference id groups g = .ok us := by
  have hgroup : Cedar.isIdentifier "Group" = true := by decide
  obtain ⟨us, hus, -⟩ := @foldlM_total _ _ _
    (fun us (group : String) => do
      return insertUid (← Entities.uid Engine.reference "Group" group) us) (fun _ => True) groups
    (fun us group _ _ => ⟨_, by rw [uid_reference hgroup]; rfl, trivial⟩)
    ((lookupEntry id g.parents).getD []) trivial
  exact ⟨us, hus⟩

theorem getD_simple {m : List (String × List String)} {k : String}
    (hm : ∀ k vs, lookupEntry k m = some vs → vs.all isSimple = true) :
    ((lookupEntry k m).getD []).all isSimple = true := by
  cases hl : lookupEntry k m with
  | none => rfl
  | some vs => exact hm k vs hl

theorem bind_ok_of {ε α β : Type} {r : Except ε α} {a : α} {f : α → Except ε β}
    (h : r = .ok a) : (r >>= f) = f a := by
  rw [h]
  rfl

/-- The entity of the principal is built. -/
theorem principalEntity_reference {req : AuthzRequest} (h : isSimpleRequest req = true)
    {g : Edges} (hg : g.Simple) : ∃ e, principalEntity Engine.reference req g = .ok e := by
  simp only [isSimpleRequest, Bool.and_eq_true] at h
  obtain ⟨⟨⟨⟨⟨⟨⟨⟨⟨-, -⟩, hroles⟩, hgroups⟩, hattrs⟩, -⟩, -⟩, -⟩, -⟩, hacting, hbehalf⟩ := h
  have huser : Cedar.isIdentifier "User" = true := by decide
  obtain ⟨as₁, h₁⟩ := insertStrAttrs_reference hattrs (insertEntry "groups"
    (.set (req.principal.groups.map .str)) (insertEntry "roles"
      (.set (req.principal.roles.map .str)) []))
  have hattrs : ∃ as, principalAttrs Engine.reference req g = .ok as := by
    unfold principalAttrs
    rw [bind_ok_of (setAttr_reference hroles), bind_ok_of (setAttr_reference hgroups),
      bind_ok_of h₁, bind_ok_of (setAttr_reference (getD_simple hg.2))]
    -- the attribute `manages` is there only for a manager
    cases hm : lookupEntry req.principal.id g.managerOf with
    | none =>
        obtain ⟨as₂, h₂⟩ := insertOptAttr_reference hbehalf "on_behalf_of"
          (insertEntry "direct_reports" (.set (((lookupEntry req.principal.id
            g.directReports).getD []).map .str)) as₁)
        obtain ⟨as₃, h₃⟩ := insertOptAttr_reference hacting "acting_as" as₂
        refine ⟨as₃, ?_⟩
        simp only [pure_bind]
        rw [bind_ok_of h₂, h₃]
    | some managed =>
        obtain ⟨as₂, h₂⟩ := insertOptAttr_reference hbehalf "on_behalf_of"
          (insertEntry "manages" (.set (managed.map .str)) (insertEntry "direct_reports"
            (.set (((lookupEntry req.principal.id g.directReports).getD []).map .str)) as₁))
        obtain ⟨as₃, h₃⟩ := insertOptAttr_reference hacting "acting_as" as₂
        refine ⟨as₃, ?_⟩
        simp only [pure_bind]
        rw [bind_ok_of (setAttr_reference (hg.1 _ _ hm)), bind_ok_of h₂, h₃]
  obtain ⟨as, has⟩ := hattrs
  obtain ⟨us, hus⟩ := allParents_reference req.principal.id req.principal.groups g
  refine ⟨⟨⟨"User", req.principal.id⟩, as, us⟩, ?_⟩
  rw [principalEntity, bind_ok_of has, bind_ok_of (uid_reference huser _), bind_ok_of hus]
  rfl

/-- The entity of the subject is built. -/
theorem subjectEntity_reference {req : AuthzRequest} (h : isSimpleRequest req = true)
    {subj : Subject} (hsubj : req.subject = some subj) (g : Edges) :
    ∃ e, subjectEntity Engine.reference subj g = .ok e := by
  simp only [isSimpleRequest, hsubj, Bool.and_eq_true] at h
  obtain ⟨⟨⟨⟨-, ⟨⟨-, hgroups⟩, hattrs⟩, htype⟩, -⟩, -⟩, -⟩ := h
  obtain ⟨as, has⟩ := insertStrAttrs_reference hattrs
    (insertEntry "groups" (.set (subj.groups.map .str)) [])
  obtain ⟨us, hus⟩ := allParents_reference subj.id subj.groups g
  refine ⟨⟨⟨subjectType subj.kind, subj.id⟩, as, us⟩, ?_⟩
  rw [subjectEntity, bind_ok_of (setAttr_reference hgroups), bind_ok_of has,
    bind_ok_of (uid_reference htype _), bind_ok_of hus]
  rfl

/-- The entity of the resource is built. -/
theorem resourceEntity_reference {req : AuthzRequest} (h : isSimpleRequest req = true) :
    ∃ e, resourceEntity Engine.reference req = .ok e := by
  simp only [isSimpleRequest, Bool.and_eq_true] at h
  obtain ⟨⟨⟨⟨⟨⟨⟨⟨⟨-, hkind⟩, -⟩, -⟩, -⟩, hattrs⟩, -⟩, -⟩, -⟩, -⟩ := h
  have hresource : Cedar.isIdentifier "Resource" = true := by decide
  obtain ⟨as, has⟩ := insertStrAttrs_reference hattrs
    (insertEntry "kind" (.str req.resource.kind) [])
  refine ⟨⟨⟨"Resource", req.resource.entityId⟩, as, []⟩, ?_⟩
  rw [resourceEntity, bind_ok_of (strAttr_reference hkind), bind_ok_of has,
    bind_ok_of (uid_reference hresource _)]
  rfl

theorem bareEntity_reference {tn : String} (h : Cedar.isIdentifier tn = true) (id : String) :
    bareEntity Engine.reference tn id = .ok ⟨⟨tn, id⟩, [], []⟩ := by
  rw [bareEntity, bind_ok_of (uid_reference h id)]
  rfl

/-- **Entity building succeeds** on a simple request, whatever the configured groups are. -/
theorem buildEntities_reference {req : AuthzRequest} (h : isSimpleRequest req = true)
    (groupMembers : IndexMap (List String)) :
    ∃ es, buildEntities Engine.reference ⟨req, groupMembers⟩ = .ok es := by
  have hgroup : Cedar.isIdentifier "Group" = true := by decide
  have haction : Cedar.isIdentifier "Action" = true := by decide
  have hrels : req.relationships.all (fun r => isSimple r.«to») = true := by
    simp only [isSimpleRequest, Bool.and_eq_true] at h
    exact h.1.2
  obtain ⟨g, hg, hsimple⟩ := @collectEdges_reference ⟨req, groupMembers⟩ hrels
  obtain ⟨pe, hpe⟩ := principalEntity_reference h hsimple
  obtain ⟨re, hre⟩ := resourceEntity_reference h
  -- what comes after the subject is the same with and without one
  have hrest : ∀ es : List Entity, ∃ es', (do
      let es := insertEntity (← resourceEntity Engine.reference req) es
      let es ← (allGroups ⟨req, groupMembers⟩ g).foldlM
        (fun es group => do
          return insertEntity (← bareEntity Engine.reference "Group" group) es) es
      return insertEntity (← bareEntity Engine.reference "Action"
        (Text.toAsciiUppercase req.action.name)) es) = .ok es' := by
    intro es
    obtain ⟨es₁, h₁, -⟩ := @foldlM_total _ _ _
      (fun es (group : String) => do
        return insertEntity (← bareEntity Engine.reference "Group" group) es)
      (fun _ => True) (allGroups ⟨req, groupMembers⟩ g)
      (fun es group _ _ => ⟨_, by rw [bareEntity_reference hgroup]; rfl, trivial⟩)
      (insertEntity re es) trivial
    refine ⟨insertEntity ⟨⟨"Action", Text.toAsciiUppercase req.action.name⟩, [], []⟩ es₁, ?_⟩
    rw [bind_ok_of hre, bind_ok_of h₁, bind_ok_of (bareEntity_reference haction _)]
    rfl
  cases hsubj : req.subject with
  | none =>
      obtain ⟨es, hes⟩ := hrest (insertEntity pe [])
      refine ⟨es, ?_⟩
      rw [buildEntities, bind_ok_of hg, bind_ok_of hpe]
      simp only [hsubj, pure_bind]
      exact hes
  | some subj =>
      obtain ⟨se, hse⟩ := subjectEntity_reference h hsubj g
      obtain ⟨es, hes⟩ := hrest (insertEntity se (insertEntity pe []))
      refine ⟨es, ?_⟩
      rw [buildEntities, bind_ok_of hg, bind_ok_of hpe]
      simp only [hsubj, pure_bind]
      rw [bind_ok_of hse]
      exact hes

/-! ## The context -/

/-- Upper-casing brings in no control character. -/
theorem isClean_toAsciiUppercase {s : String} (h : Json.isClean s = true) :
    Json.isClean (Text.toAsciiUppercase s) = true := by
  unfold Json.isClean at h ⊢
  rw [Text.toAsciiUppercase, String.toList_ofList, List.all_map]
  rw [List.all_eq_true] at h ⊢
  intro c hc
  rw [Function.comp, Bool.not_eq_true']
  by_contra hcontrol
  rw [Bool.not_eq_false] at hcontrol
  have hletter : c.toUpper.isAlpha = false := by
    simp only [Text.isControl, decide_eq_true_eq] at hcontrol
    simp only [Char.isAlpha, Char.isUpper, Char.isLower, ge_iff_le, UInt32.le_iff_toNat_le,
      Bool.or_eq_false_iff, decide_eq_false_iff_not, Bool.and_eq_false_iff]
    have hlow : c.toUpper.val.toNat < 32 := hcontrol
    have h65 : 'A'.val.toNat = 65 := rfl
    have h97 : 'a'.val.toNat = 97 := rfl
    omega
  have hsame := toUpper_eq_of_not_letter hletter rfl
  have hclean := h c hc
  rw [hsame, hcontrol] at hclean
  cases hclean

/-- **The context of a simple request is a JSON object.** -/
theorem parse_context_simple {req : AuthzRequest} (h : isSimpleRequest req = true) :
    ∃ ms, Json.parse (buildContextJson req) = some (.obj ms) := by
  simp only [isSimpleRequest, Bool.and_eq_true] at h
  obtain ⟨⟨⟨⟨⟨⟨⟨⟨⟨haction, hkind⟩, hroles⟩, hgroups⟩, -⟩, -⟩, hsubj⟩, hvalues⟩, -⟩, -, -⟩ := h
  have hhead : (plainHead req).all Json.memberClean = true := by
    rw [isSimple, Bool.and_eq_true] at haction hkind
    have ha := isClean_toAsciiUppercase haction.2
    have hk := isClean_toAsciiUppercase hkind.2
    have hname : Json.isClean "action_name" = true := by decide
    have hname' : Json.isClean "resource_kind" = true := by decide
    simp [plainHead, Json.memberClean, Json.Plain.isClean, ha, hk, hname, hname']
  have hsubject : Json.isClean ((req.subject.map (·.id)).getD "") = true ∧
      ((req.subject.map (·.groups)).getD []).all Json.isClean = true := by
    cases hs : req.subject with
    | none => exact ⟨rfl, rfl⟩
    | some subj =>
        simp only [hs, Bool.and_eq_true] at hsubj
        obtain ⟨⟨⟨hid, hgs⟩, -⟩, -⟩ := hsubj
        rw [isSimple, Bool.and_eq_true] at hid
        exact ⟨hid.2, all_isSimple_clean hgs⟩
  -- the spliced part: free-form entries, then the built-in attributes
  have hspliced : (splicedMembers req).all Json.memberClean = true := by
    have hctx : (req.context.values.entries.map fun e => (e.1, Json.Plain.str e.2)).all
        Json.memberClean = true := by
      rw [List.all_map]
      exact hvalues
    have hnames : ∀ k ∈ builtinNames, Json.isClean k = true := by decide
    simp only [splicedMembers, List.all_append, List.all_cons, List.all_nil, hctx,
      Json.memberClean, Json.Plain.isClean, hsubject.1, hsubject.2, all_isSimple_clean hroles,
      all_isSimple_clean hgroups, hnames _ (by decide : "subject_is_self" ∈ builtinNames),
      hnames _ (by decide : "subject_in_direct_reports" ∈ builtinNames),
      hnames _ (by decide : "subject_id" ∈ builtinNames),
      hnames _ (by decide : "subject_groups" ∈ builtinNames),
      hnames _ (by decide : "principal_roles" ∈ builtinNames),
      hnames _ (by decide : "principal_groups" ∈ builtinNames), Bool.and_self]
  have hmembers := headMembers_plain (isSimple_plain haction) (isSimple_plain hkind)
  rw [if_pos hhead] at hmembers
  rw [parse_buildContextJson, ← headMembers, hmembers, Option.bind_some, if_pos hspliced]
  exact ⟨_, rfl⟩

/-- **The reference engine decides** every valid simple request. -/
theorem evaluate_reference {req : AuthzRequest} (hvalid : req.validate = .ok ())
    (h : isSimpleRequest req = true) (fresh : Fresh) (cfg : EvaluatorConfig Engine.reference) :
    ∃ d, evaluate Engine.reference fresh req cfg = .ok d := by
  obtain ⟨es, hes⟩ := buildEntities_reference h cfg.groupMembers
  obtain ⟨ms, hms⟩ := parse_context_simple h
  have huid : ∀ {tn : String}, Cedar.isIdentifier tn = true → ∀ id,
      Evaluate.uid Engine.reference tn id = .ok ⟨tn, id⟩ := by
    intro tn htn id
    simp [Evaluate.uid, entityUid, Engine.reference, htn, mapErr]
  have huser : Cedar.isIdentifier "User" = true := by decide
  have haction : Cedar.isIdentifier "Action" = true := by decide
  have hresource : Cedar.isIdentifier "Resource" = true := by decide
  have hcontext : Engine.reference.contextFromJsonStr (buildContextJson req) =
      .ok (Cedar.Record.ofMembers ms) := by
    simp only [Engine.reference, hms]
  refine ⟨decisionOf Engine.reference fresh req cfg (Engine.reference.isAuthorized
    ⟨⟨"User", req.principal.id⟩, ⟨"Action", Text.toAsciiUppercase req.action.name⟩,
      ⟨"Resource", req.resource.entityId⟩, Cedar.Record.ofMembers ms⟩ cfg.policySet es), ?_⟩
  unfold evaluate
  simp only [hvalid, hes, huid huser, huid haction, huid hresource, hcontext]
  rfl

end Paac
