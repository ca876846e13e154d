import Paac.Core.Hierarchy
import Paac.Library.Cedar.Literals

set_option autoImplicit false

/-!
# The calls of the attribute builders

Entity building turns strings and lists of strings into attribute expressions, and the two builders
(`str_attr`, `set_attr`) panic when the text they splice does not parse. They escape quotes and
nothing else, so a backslash in a role, a group or an attribute starts an escape, and a bare
carriage return makes a text that is no literal.

`attrCalls` lists the calls of a run in order: those of the principal, of the subject if there is
one, and of the resource, which is only reached when the entity type of the subject is a type name.
The list is written from the source once more, beside the entities themselves; that building panics
in no other place ties the two together.

## Main results

- `noPanic_buildEntities`: building panics only in one of these calls.
- `AttrCall.faithful_iff`: one call gives the value of its source exactly when no source string has
  a backslash or a carriage return.
- `builders_faithful_iff`: under the same condition on all calls, and under no other, building never
  panics and every value is the one of its source.
- `builders_backslash`: a role that ends in a backslash makes building panic.
-/

namespace Paac

open Cedar (Engine Entity EntityUid Value)

/-! ## The calls -/

/-- A call of one of the two attribute builders. -/
inductive AttrCall where
  | str (v : String)
  | set (vals : List String)

/-- The strings that the call splices. -/
def AttrCall.sources : AttrCall → List String
  | .str v => [v]
  | .set vals => vals

/-- One call for each free attribute. -/
def freeCalls (attrs : IndexMap String) : List AttrCall := attrs.entries.map fun e => .str e.2

/-- The calls for the principal entity. `manages` is set for those who manage somebody. -/
def principalCalls (req : AuthzRequest) : List AttrCall :=
  let managed := pushed (edgeTargets .managerOf req.principal.id req.relationships)
  [.set req.principal.roles, .set req.principal.groups] ++ freeCalls req.principal.attrs ++
    [.set (edgeTargets .directReports req.principal.id req.relationships)] ++
    managed.toList.map .set ++
    req.onBehalfOf.toList.map .str ++ req.actingAs.toList.map .str

def subjectCalls (s : Subject) : List AttrCall := .set s.groups :: freeCalls s.attrs

def resourceCalls (req : AuthzRequest) : List AttrCall :=
  .str req.resource.kind :: freeCalls req.resource.attrs

section

variable (E : Engine)

/-- All calls of `build_entities`, in order. It stops before the resource when the entity type of
the subject is no type name. -/
def attrCalls (req : AuthzRequest) : List AttrCall :=
  principalCalls req ++
    match req.subject with
    | none => resourceCalls req
    | some s => subjectCalls s ++
        match E.entityTypeName (subjectType s.kind) with
        | .ok _ => resourceCalls req
        | .error _ => []

def AttrCall.result : AttrCall → Except (Halt AuthzError) Value
  | .str v => strAttr E v
  | .set vals => setAttr E vals

/-- The value built is the source string, or the set of the source strings. -/
def AttrCall.Faithful : AttrCall → Prop
  | .str v => strAttr E v = .ok (.str v)
  | .set vals => ∃ xs, setAttr E vals = .ok (.set xs) ∧ Cedar.IsSetOf xs vals

/-- Entity building never panics, and every value it builds is the one of its source. -/
structure BuildersFaithful (input : EntityBuildInput) : Prop where
  no_panic : ∀ msg, buildEntities E input ≠ .error (.panic msg)
  faithful : ∀ c ∈ attrCalls E input.request, c.Faithful E

end

/-! ## Panics -/

/-- The computation does not panic. -/
def NoPanic {ε α : Type} (r : Except (Halt ε) α) : Prop := ∀ msg, r ≠ .error (.panic msg)

theorem noPanic_ok {ε α : Type} (a : α) : NoPanic (.ok a : Except (Halt ε) α) := nofun

theorem NoPanic.bind {ε α β : Type} {r : Except (Halt ε) α} {f : α → Except (Halt ε) β}
    (hr : NoPanic r) (hf : ∀ a, r = .ok a → NoPanic (f a)) : NoPanic (r >>= f) := by
  cases r with
  | error e =>
      intro msg h
      exact hr msg (by rw [Except.error.inj h])
  | ok a => exact hf a rfl

/-- A loop panics only in one of its steps. -/
theorem NoPanic.foldlM {ε α σ : Type} {f : σ → α → Except (Halt ε) σ} {as : List α}
    (hf : ∀ s, ∀ a ∈ as, NoPanic (f s a)) : ∀ s, NoPanic (as.foldlM f s) := by
  induction as with
  | nil => exact fun s => noPanic_ok s
  | cons a as ih =>
      intro s
      rw [List.foldlM_cons]
      exact (hf s a List.mem_cons_self).bind fun t _ =>
        ih (fun s' a' ha' => hf s' a' (List.mem_cons_of_mem a ha')) t

/-- An error of the engine is passed on as an error. -/
theorem noPanic_mapErr {ε ε' α : Type} (f : ε → ε') (r : Except ε α) :
    NoPanic (mapErr (fun e => Halt.error (f e)) r) := by
  cases r with
  | ok a => exact noPanic_ok a
  | error e => exact nofun

section

variable {E : Engine}

theorem noPanic_uid (tn id : String) : NoPanic (Entities.uid E tn id) := noPanic_mapErr _ _

theorem noPanic_newEntity (u : EntityUid) (as : List (String × Value)) (ps : List EntityUid) :
    NoPanic (newEntity E u as ps) := noPanic_mapErr _ _

/-- Collecting the edges never panics. -/
theorem noPanic_collectEdges (input : EntityBuildInput) : NoPanic (collectEdges E input) := by
  apply NoPanic.bind
  · apply NoPanic.foldlM
    intro g rel _
    unfold edgeStep
    cases rel.kind with
    | groupMember => exact (noPanic_uid _ _).bind fun u _ => noPanic_ok _
    | managerOf => exact noPanic_ok _
    | directReports => exact noPanic_ok _
    | delegation => exact noPanic_ok _
  · intro g _
    apply NoPanic.foldlM
    intro g e _
    apply NoPanic.foldlM
    intro g m _
    exact (noPanic_uid _ _).bind fun u _ => noPanic_ok _

theorem noPanic_allParents (id : String) (groups : List String) (g : Edges) :
    NoPanic (allParents E id groups g) := by
  apply NoPanic.foldlM
  intro us group _
  exact (noPanic_uid _ _).bind fun u _ => noPanic_ok _

theorem noPanic_bareEntity (tn id : String) : NoPanic (bareEntity E tn id) :=
  (noPanic_uid tn id).bind fun u _ => noPanic_newEntity u [] []

theorem noPanic_insertStrAttrs {attrs : IndexMap String} {as : List (String × Value)}
    (h : ∀ c ∈ freeCalls attrs, NoPanic (c.result E)) : NoPanic (insertStrAttrs E attrs as) := by
  apply NoPanic.foldlM
  intro as e he
  have hcall : NoPanic (strAttr E e.2) := h (.str e.2) (List.mem_map_of_mem he)
  exact hcall.bind fun v _ => noPanic_ok _

/-- Inserting an optional attribute panics only in its call. -/
theorem noPanic_insertOptAttr {k : String} {v : Option String} {as : List (String × Value)}
    (h : ∀ c ∈ v.toList.map AttrCall.str, NoPanic (c.result E)) :
    NoPanic (insertOptAttr E k v as) := by
  cases v with
  | none => exact noPanic_ok as
  | some v =>
      have hcall : NoPanic (strAttr E v) := h (.str v) (by simp)
      exact hcall.bind fun x _ => noPanic_ok _

/-- The entity of the principal panics only in one of its calls. -/
theorem noPanic_principalEntity {input : EntityBuildInput} {g : Edges}
    (hg : collectEdges E input = .ok g)
    (h : ∀ c ∈ principalCalls input.request, NoPanic (c.result E)) :
    NoPanic (principalEntity E input.request g) := by
  obtain ⟨hmanager, hreports⟩ := collectEdges_targets hg input.request.principal.id
  unfold principalCalls at h
  simp only [List.forall_mem_append, List.forall_mem_cons] at h
  obtain ⟨⟨⟨⟨⟨⟨hroles, hgroups, -⟩, hfree⟩, hdirect, -⟩, hmanages⟩, hbehalf⟩, hacting⟩ := h
  have hattrs : NoPanic (principalAttrs E input.request g) := by
    apply hroles.bind
    intro vroles _
    apply hgroups.bind
    intro vgroups _
    apply (noPanic_insertStrAttrs hfree).bind
    intro as _
    -- the source takes the reports from the map and the call from the list; they agree
    have hset : NoPanic (setAttr E ((lookupEntry input.request.principal.id
        g.directReports).getD [])) := by
      have hsame : (lookupEntry input.request.principal.id g.directReports).getD [] =
          edgeTargets .directReports input.request.principal.id input.request.relationships := by
        rw [hreports, pushed]
        split
        · rename_i hempty
          exact (List.isEmpty_iff.1 hempty).symm
        · rfl
      rw [hsame]
      exact hdirect
    apply hset.bind
    intro vreports _
    have hlast : ∀ as, NoPanic (do
        let as ← insertOptAttr E "on_behalf_of" input.request.onBehalfOf as
        insertOptAttr E "acting_as" input.request.actingAs as) := fun as =>
      (noPanic_insertOptAttr hbehalf).bind fun as' _ => noPanic_insertOptAttr hacting
    rw [hmanager]
    cases hmanaged : pushed (edgeTargets .managerOf input.request.principal.id
        input.request.relationships) with
    | none => exact hlast _
    | some managed =>
        rw [hmanaged] at hmanages
        have hcall : NoPanic (setAttr E managed) := hmanages (.set managed) (by simp)
        exact hcall.bind fun v _ => hlast _
  apply hattrs.bind
  intro as _
  apply (noPanic_uid _ _).bind
  intro u _
  exact (noPanic_allParents _ _ _).bind fun ps _ => noPanic_newEntity u as ps

/-- The entity of the subject panics only in one of its calls. -/
theorem noPanic_subjectEntity {s : Subject} (g : Edges)
    (h : ∀ c ∈ subjectCalls s, NoPanic (c.result E)) : NoPanic (subjectEntity E s g) := by
  rw [subjectCalls, List.forall_mem_cons] at h
  obtain ⟨hgroups, hfree⟩ := h
  apply NoPanic.bind (r := setAttr E s.groups) hgroups
  intro v _
  apply (noPanic_insertStrAttrs hfree).bind
  intro as _
  apply (noPanic_uid _ _).bind
  intro u _
  exact (noPanic_allParents _ _ _).bind fun ps _ => noPanic_newEntity u as ps

theorem noPanic_resourceEntity {req : AuthzRequest}
    (h : ∀ c ∈ resourceCalls req, NoPanic (c.result E)) : NoPanic (resourceEntity E req) := by
  rw [resourceCalls, List.forall_mem_cons] at h
  obtain ⟨hkind, hfree⟩ := h
  apply NoPanic.bind (r := strAttr E req.resource.kind) hkind
  intro v _
  apply (noPanic_insertStrAttrs hfree).bind
  intro as _
  exact (noPanic_uid _ _).bind fun u _ => noPanic_newEntity u as []

/-- The subject entity has a type name. -/
theorem entityTypeName_of_subjectEntity {s : Subject} {g : Edges} {e : Entity}
    (h : subjectEntity E s g = .ok e) : ∃ tn, E.entityTypeName (subjectType s.kind) = .ok tn := by
  obtain ⟨v, -, h⟩ := bind_eq_ok.1 h
  obtain ⟨as, -, h⟩ := bind_eq_ok.1 h
  obtain ⟨u, hu, h⟩ := bind_eq_ok.1 h
  simp only [Entities.uid, mapErr_eq_ok, entityUid] at hu
  split at hu
  · rename_i tn htn
    exact ⟨tn, htn⟩
  · cases hu

/-- **A panic comes from a call of a builder.** -/
theorem noPanic_buildEntities {input : EntityBuildInput}
    (h : ∀ c ∈ attrCalls E input.request, NoPanic (c.result E)) :
    NoPanic (buildEntities E input) := by
  rw [attrCalls, List.forall_mem_append] at h
  obtain ⟨hprincipal, hbehind⟩ := h
  apply (noPanic_collectEdges input).bind
  intro g hg
  apply (noPanic_principalEntity hg hprincipal).bind
  intro p _
  -- resource, groups and action follow the subject, if there is one
  have hrest : ∀ es : List Entity, (∀ c ∈ resourceCalls input.request, NoPanic (c.result E)) →
      NoPanic (do
        let es := insertEntity (← resourceEntity E input.request) es
        let es ← (allGroups input g).foldlM
          (fun es group => do return insertEntity (← bareEntity E "Group" group) es) es
        return insertEntity (← bareEntity E "Action"
          (Text.toAsciiUppercase input.request.action.name)) es) := by
    intro es hresource
    apply (noPanic_resourceEntity hresource).bind
    intro r _
    apply NoPanic.bind
    · apply NoPanic.foldlM
      intro es group _
      exact (noPanic_bareEntity _ _).bind fun e _ => noPanic_ok _
    · intro es' _
      exact (noPanic_bareEntity _ _).bind fun e _ => noPanic_ok _
  cases hsubj : input.request.subject with
  | none =>
      rw [hsubj] at hbehind
      exact hrest _ hbehind
  | some s =>
      rw [hsubj, List.forall_mem_append] at hbehind
      apply (noPanic_subjectEntity g hbehind.1).bind
      intro e he
      obtain ⟨tn, htn⟩ := entityTypeName_of_subjectEntity he
      rw [htn] at hbehind
      exact hrest _ hbehind.2

/-! ## Faithful calls -/

/-- One call is faithful when its strings have no backslash and no carriage return. -/
theorem AttrCall.faithful_iff (hE : E.ReadsLiterals) (c : AttrCall) :
    c.Faithful E ↔ ∀ s ∈ c.sources, '\\' ∉ s.toList ∧ '\r' ∉ s.toList := by
  cases c with
  | str v =>
      -- a literal that does not parse makes the call an error, so it is not faithful either
      have hstr : strAttr E v = .ok (.str v) ↔
          E.restrictedExpression (Cedar.literal (Cedar.escaped v)) = .ok (.str v) := by
        rw [strAttr, quoteAttr_eq]
        split
        · rename_i e he
          rw [he, Except.ok.injEq, Except.ok.injEq]
        · rename_i e he
          rw [he]
          simp
      rw [AttrCall.Faithful, hstr, hE.str_iff, AttrCall.sources, List.forall_mem_singleton]
  | set vals =>
      have hset : ∀ xs, setAttr E vals = .ok (.set xs) ↔
          E.restrictedExpression (Cedar.literalList (vals.map Cedar.escaped)) = .ok (.set xs) := by
        intro xs
        rw [setAttr, setText_eq]
        split
        · rename_i e he
          rw [he, Except.ok.injEq, Except.ok.injEq]
        · rename_i e he
          rw [he]
          simp
      rw [AttrCall.Faithful, AttrCall.sources, ← hE.set_iff]
      simp only [hset]

theorem AttrCall.Faithful.noPanic {c : AttrCall} (h : c.Faithful E) : NoPanic (c.result E) := by
  cases c with
  | str v =>
      rw [AttrCall.result, show strAttr E v = .ok (.str v) from h]
      exact noPanic_ok _
  | set vals =>
      obtain ⟨xs, hxs, -⟩ := h
      rw [AttrCall.result, hxs]
      exact noPanic_ok _

end

/-- **Entity building and its strings.** Building never panics and every value it builds is the one
of its source exactly when no string that it builds from has a backslash or a carriage return. -/
theorem builders_faithful_iff (E : Engine) (input : EntityBuildInput) (hE : E.ReadsLiterals) :
    BuildersFaithful E input ↔
      ∀ c ∈ attrCalls E input.request, ∀ s ∈ c.sources, '\\' ∉ s.toList ∧ '\r' ∉ s.toList := by
  constructor
  · exact fun h c hc => (c.faithful_iff hE).1 (h.faithful c hc)
  · intro h
    have hfaithful : ∀ c ∈ attrCalls E input.request, c.Faithful E := fun c hc =>
      (c.faithful_iff hE).2 (h c hc)
    exact ⟨noPanic_buildEntities fun c hc => (hfaithful c hc).noPanic, hfaithful⟩

/-- A request whose principal has a role that ends in a backslash. -/
def backslashRequest : AuthzRequest :=
  { memberRequest with principal := ⟨"mia", ["staff\\"], [], .empty⟩ }

/-- A backslash at the end of a role panics. -/
theorem builders_backslash : backslashRequest.validate = .ok () ∧
    buildEntities Engine.reference ⟨backslashRequest, .empty⟩ = .error (.panic "set attr") ∧
    ¬BuildersFaithful Engine.reference ⟨backslashRequest, .empty⟩ := by
  have hpanic : buildEntities Engine.reference ⟨backslashRequest, .empty⟩ =
      .error (.panic "set attr") := by
    have hroles : setAttr Engine.reference ["staff\\"] = .error (.panic "set attr") := by
      have hlex : Cedar.lex ("[" ++ Text.join ", " (["staff\\"].map quoteAttr) ++ "]") = none := by
        decide +kernel
      simp only [setAttr, Engine.reference, hlex, Option.bind_none, ite_self]
    obtain ⟨g, hg, -⟩ := @collectEdges_reference ⟨backslashRequest, .empty⟩ (by decide)
    have hprincipal : principalEntity Engine.reference backslashRequest g =
        .error (.panic "set attr") := by
      have hlist : backslashRequest.principal.roles = ["staff\\"] := rfl
      rw [principalEntity, principalAttrs, hlist, hroles]
      rfl
    rw [buildEntities, bind_ok_of hg, hprincipal]
    rfl
  exact ⟨by decide +kernel, hpanic, fun h => h.no_panic "set attr" hpanic⟩

/-- The request of a member is built faithfully. -/
theorem builders_faithful_member : BuildersFaithful Engine.reference memberInput :=
  (builders_faithful_iff Engine.reference memberInput Engine.reference_readsLiterals).2
    (by decide +kernel)

end Paac
