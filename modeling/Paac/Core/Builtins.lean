import Paac.Core.Hierarchy

set_option autoImplicit false

/-!
# Free attributes and built-in attributes

The free attributes of a principal, a subject and a resource are inserted behind some of the
built-in ones and before the others. An insertion behind replaces, so which built-in attributes a
free one can forge depends on the order of the insertions in `entities.rs`: the model keeps that
order, and the module says what stands under each key at the end.

Two requests that differ in their free attributes alone have the same built-in attributes as long as
the free ones agree on the keys that nothing is written over (`AttrsAgree`): `roles` and `groups`,
which are written first; an optional attribute such as `manages`, where the request does not set it;
and the kind of the resource. Nothing can forge `direct_reports`, which is written last. A subject
with the entity id of the resource stands for the resource, and is treated apart.

## Main results

- `lookup_insertStrAttrs`, `lookup_insertOptAttr`: what stands under a key after each insertion.
- `principalAttrs_lookups`, `subjectLookups_of_ok`, `kind_of_ok`: so the built-in attributes of each
  entity.
- `principal_same_iff`, `subject_same_iff`, `resource_same_iff`: when they are the same, entity by
  entity.
- `builtins_same_iff`: when they are the same in the set.
- `builtins_forged`: a free attribute takes the place of a built-in one.
-/

namespace Paac

open Cedar (Engine Entity EntityUid Value)

/-! ## Two requests -/

/-- The request with other free attributes. -/
def AuthzRequest.withAttrs (req : AuthzRequest) (principal subject resource : IndexMap String) :
    AuthzRequest :=
  { req with
    principal := { req.principal with attrs := principal }
    subject := req.subject.map fun s => { s with attrs := subject }
    resource := { req.resource with attrs := resource } }

/-- An attribute of an entity of the set. -/
def attributeAt (u : EntityUid) (k : String) (es : List Entity) : Option Value :=
  (entityAt u es).bind fun e => lookupEntry k e.attrs

/-- The built-in attributes of the principal. -/
def principalBuiltins : List String :=
  ["roles", "groups", "direct_reports", "manages", "on_behalf_of", "acting_as"]

/-- The entities of the principal, the subject and the resource have the same built-in attributes in
both sets, present or absent. -/
structure SameBuiltins (req : AuthzRequest) (es es' : List Entity) : Prop where
  principal : ∀ k ∈ principalBuiltins, attributeAt ⟨"User", req.principal.id⟩ k es =
    attributeAt ⟨"User", req.principal.id⟩ k es'
  subject : ∀ s, req.subject = some s → attributeAt ⟨subjectType s.kind, s.id⟩ "groups" es =
    attributeAt ⟨subjectType s.kind, s.id⟩ "groups" es'
  resource : attributeAt ⟨"Resource", req.resource.entityId⟩ "kind" es =
    attributeAt ⟨"Resource", req.resource.entityId⟩ "kind" es'

section

variable (E : Engine)

/-- Both maps give one value under the key, or neither gives one. -/
def SameOverride (m m' : IndexMap String) (k : String) : Prop :=
  (m.get k).map (strAttr E) = (m'.get k).map (strAttr E)

/-- The principal manages nobody. -/
def ManagesNobody (req : AuthzRequest) : Prop :=
  ∀ r ∈ req.relationships, r.kind = .managerOf → r.«from» ≠ req.principal.id

/-- The subject has the entity id of the resource, and comes before it. -/
def SubjectIsResource (req : AuthzRequest) : Prop :=
  ∃ s, req.subject = some s ∧ subjectType s.kind = "Resource" ∧ s.id = req.resource.entityId

/-- The kind of the resource entity: a free attribute replaces it. -/
def kindText (req : AuthzRequest) (attrs : IndexMap String) : String :=
  (attrs.get "kind").getD req.resource.kind

/-- The free attributes of the request and the other ones agree on every built-in key that nothing is
written over. -/
structure AttrsAgree (req : AuthzRequest) (principal subject resource : IndexMap String) : Prop where
  roles : SameOverride E req.principal.attrs principal "roles"
  groups : SameOverride E req.principal.attrs principal "groups"
  manages : ManagesNobody req → SameOverride E req.principal.attrs principal "manages"
  onBehalfOf : req.onBehalfOf = none → SameOverride E req.principal.attrs principal "on_behalf_of"
  actingAs : req.actingAs = none → SameOverride E req.principal.attrs principal "acting_as"
  subjectGroups : ∀ s, req.subject = some s → SameOverride E s.attrs subject "groups"
  kind : ¬SubjectIsResource req →
    strAttr E (kindText req req.resource.attrs) = strAttr E (kindText req resource)
  subjectKind : ∀ s, req.subject = some s → SubjectIsResource req →
    SameOverride E s.attrs subject "kind"

end

/-! ## What the attribute builders leave -/

section

variable {E : Engine}

/-- The value a free attribute gives, or the one that is there. -/
def overridden (E : Engine) (m : IndexMap String) (k : String) (base : Option Value) :
    Option Value :=
  match m.get k with
  | some v => (strAttr E v).toOption
  | none => base

theorem overridden_of_none {m : IndexMap String} {k : String} (hk : m.get k = none)
    (base : Option Value) : overridden E m k base = base := by
  rw [overridden, hk]

theorem overridden_of_some {m : IndexMap String} {k v : String} {x : Value}
    (hk : m.get k = some v) (hx : strAttr E v = .ok x) (base : Option Value) :
    overridden E m k base = some x := by
  simp only [overridden, hk, hx, Except.toOption]

/-- What stands under a key after the free attributes were inserted. -/
theorem lookup_insertStrAttrs {attrs : IndexMap String} {as as' : List (String × Value)}
    (h : insertStrAttrs E attrs as = .ok as') (k : String) :
    lookupEntry k as' = overridden E attrs k (lookupEntry k as) ∧
      ∀ v, attrs.get k = some v → ∃ x, strAttr E v = .ok x := by
  -- what the loop has written after the entries `done`
  have hfold := foldlM_invariant
    (P := fun (done : List (String × String)) out =>
      lookupEntry k out = (match lookupEntry k done.reverse with
        | some v => (strAttr E v).toOption
        | none => lookupEntry k as) ∧
      ∀ v, lookupEntry k done.reverse = some v → ∃ x, strAttr E v = .ok x)
    (by
      rintro done out ⟨k', v'⟩ out' ⟨hout, hok⟩ hstep
      obtain ⟨x, hx, hstep⟩ := bind_eq_ok.1 hstep
      obtain rfl := Except.ok.inj hstep
      rw [List.reverse_append, List.reverse_singleton, List.singleton_append, lookupEntry,
        lookupEntry_insertEntry]
      by_cases hk : k' = k
      · rw [if_pos hk, if_pos hk]
        refine ⟨?_, ?_⟩
        · show some x = (strAttr E v').toOption
          rw [hx]
          rfl
        · rintro v ⟨⟩
          exact ⟨x, hx⟩
      · rw [if_neg hk, if_neg hk]
        exact ⟨hout, hok⟩)
    ⟨rfl, nofun⟩ h
  rw [lookupEntry_reverse attrs.nodup] at hfold
  exact hfold

/-- What stands under a key after an optional attribute. -/
theorem lookup_insertOptAttr {k : String} {v : Option String} {as as' : List (String × Value)}
    (h : insertOptAttr E k v as = .ok as') (k' : String) :
    lookupEntry k' as' = if k = k' ∧ v.isSome = true then (v.bind fun v => (strAttr E v).toOption)
      else lookupEntry k' as := by
  cases v with
  | none =>
      rw [← Except.ok.inj h]
      simp
  | some v =>
      obtain ⟨x, hx, h⟩ := bind_eq_ok.1 h
      rw [← Except.ok.inj h, lookupEntry_insertEntry]
      by_cases hk : k = k'
      · rw [if_pos hk, if_pos ⟨hk, rfl⟩, Option.bind_some, hx]
        rfl
      · rw [if_neg hk, if_neg fun hand => hk hand.1]

/-- The values of the two attribute builders are strings and sets. -/
structure Typed (E : Engine) (as : List (String × Value)) : Prop where
  str : ∀ {k s : String} {v : Value}, lookupEntry k as = some v → strAttr E s = .ok v →
    ∃ t, v = .str t
  set : ∀ {k : String} {ss : List String} {v : Value}, lookupEntry k as = some v →
    setAttr E ss = .ok v → ∃ vs, v = .set vs

/-- The attributes of an entity that was built are strings and sets. -/
theorem typed_of_newEntity (hlit : E.TypesLiterals) {u : EntityUid} {as : List (String × Value)}
    {ps : List EntityUid} {e : Entity} (h : newEntity E u as ps = .ok e) : Typed E as := by
  simp only [newEntity, mapErr_eq_ok] at h
  constructor
  · intro k s v hk hs
    unfold strAttr at hs
    split at hs
    · rename_i x hx
      obtain rfl := Except.ok.inj hs
      rw [quoteAttr, String.append_assoc] at hx
      exact hlit.str h (mem_of_lookupEntry hk) hx
    · cases hs
  · intro k ss v hk hs
    unfold setAttr at hs
    split at hs
    · rename_i x hx
      obtain rfl := Except.ok.inj hs
      rw [String.append_assoc] at hx
      exact hlit.set h (mem_of_lookupEntry hk) hx
    · cases hs

/-- Every free attribute has a value. -/
def AttrsRead (E : Engine) (m : IndexMap String) : Prop :=
  ∀ k v, m.get k = some v → ∃ x, strAttr E v = .ok x

/-- A string does not stand where a set or nothing stands without it. -/
theorem overridden_ne_base {m : IndexMap String} {k : String} {base : Option Value}
    {as as' : List (String × Value)} (hm : AttrsRead E m) (hs : Typed E as) (hs' : Typed E as')
    (h : lookupEntry k as = overridden E m k base) (h' : lookupEntry k as' = base)
    (hbase : ∀ v, base = some v → ∃ ss, setAttr E ss = .ok v) {v : String}
    (hv : m.get k = some v) : lookupEntry k as ≠ lookupEntry k as' := by
  obtain ⟨x, hx⟩ := hm k v hv
  have hsome : lookupEntry k as = some x := h.trans (overridden_of_some hv hx base)
  intro heq
  rw [hsome] at heq
  obtain ⟨ss, hss⟩ := hbase x (h'.symm.trans heq.symm)
  obtain ⟨t, rfl⟩ := hs.str hsome hx
  obtain ⟨vs, hvs⟩ := hs'.set heq.symm hss
  cases hvs

/-- Where a set or nothing is there without them, free attributes make a difference unless they
agree. -/
theorem lookup_eq_iff {m m' : IndexMap String} {k : String} {base : Option Value}
    {as as' : List (String × Value)} (hm : AttrsRead E m) (hm' : AttrsRead E m') (hs : Typed E as)
    (hs' : Typed E as') (h : lookupEntry k as = overridden E m k base)
    (h' : lookupEntry k as' = overridden E m' k base)
    (hbase : ∀ v, base = some v → ∃ ss, setAttr E ss = .ok v) :
    lookupEntry k as = lookupEntry k as' ↔ SameOverride E m m' k := by
  -- an override never reads as the value it stands over
  cases hk : m.get k with
  | none =>
      cases hk' : m'.get k with
      | none =>
          rw [h, h', overridden_of_none hk, overridden_of_none hk', SameOverride, hk, hk']
          simp
      | some v' =>
          have hne := overridden_ne_base hm' hs' hs h' (h.trans (overridden_of_none hk _)) hbase hk'
          simp [SameOverride, hk, hk', Ne.symm hne]
  | some v =>
      obtain ⟨x, hx⟩ := hm k v hk
      cases hk' : m'.get k with
      | none =>
          have hne := overridden_ne_base hm hs hs' h (h'.trans (overridden_of_none hk' _)) hbase hk
          simp [SameOverride, hk, hk', hne]
      | some v' =>
          obtain ⟨x', hx'⟩ := hm' k v' hk'
          rw [h, h', overridden_of_some hk hx, overridden_of_some hk' hx', SameOverride, hk, hk']
          simp [hx, hx']

/-- The attributes of the principal: `direct_reports` is written over the free ones, the others are
replaced by them or stand where there is nothing else. -/
structure PrincipalLookups (E : Engine) (req : AuthzRequest) (g : Edges)
    (as : List (String × Value)) : Prop where
  roles : ∃ v, setAttr E req.principal.roles = .ok v ∧
    lookupEntry "roles" as = overridden E req.principal.attrs "roles" (some v)
  groups : ∃ v, setAttr E req.principal.groups = .ok v ∧
    lookupEntry "groups" as = overridden E req.principal.attrs "groups" (some v)
  directReports : lookupEntry "direct_reports" as =
    (setAttr E ((lookupEntry req.principal.id g.directReports).getD [])).toOption
  manages : lookupEntry "manages" as = (lookupEntry req.principal.id g.managerOf).elim
    (overridden E req.principal.attrs "manages" none) fun managed => (setAttr E managed).toOption
  onBehalfOf : lookupEntry "on_behalf_of" as = req.onBehalfOf.elim
    (overridden E req.principal.attrs "on_behalf_of" none) fun v => (strAttr E v).toOption
  actingAs : lookupEntry "acting_as" as = req.actingAs.elim
    (overridden E req.principal.attrs "acting_as" none) fun v => (strAttr E v).toOption
  read : AttrsRead E req.principal.attrs

/-- **Every attribute of the principal**, by the order of the insertions. -/
theorem principalAttrs_lookups {req : AuthzRequest} {g : Edges} {as : List (String × Value)}
    (h : principalAttrs E req g = .ok as) : PrincipalLookups E req g as := by
  rw [principalAttrs] at h
  obtain ⟨vroles, hroles, h⟩ := bind_eq_ok.1 h
  obtain ⟨vgroups, hgroups, h⟩ := bind_eq_ok.1 h
  obtain ⟨as₁, h₁, h⟩ := bind_eq_ok.1 h
  obtain ⟨vreports, hreports, h⟩ := bind_eq_ok.1 h
  have hfree := lookup_insertStrAttrs h₁
  -- what is there behind the free attributes and the reports
  have hbase : ∀ k, lookupEntry k (insertEntry "direct_reports" vreports as₁) =
      if "direct_reports" = k then some vreports else overridden E req.principal.attrs k
        (lookupEntry k (insertEntry "groups" vgroups (insertEntry "roles" vroles []))) := by
    intro k
    rw [lookupEntry_insertEntry, (hfree k).1]
  have hlast : ∃ as₂, (do
      let as ← insertOptAttr E "on_behalf_of" req.onBehalfOf as₂
      insertOptAttr E "acting_as" req.actingAs as) = .ok as ∧
      ∀ k, lookupEntry k as₂ = (lookupEntry req.principal.id g.managerOf).elim
        (lookupEntry k (insertEntry "direct_reports" vreports as₁)) fun managed =>
          if "manages" = k then (setAttr E managed).toOption
          else lookupEntry k (insertEntry "direct_reports" vreports as₁) := by
    cases hm : lookupEntry req.principal.id g.managerOf with
    | none =>
        simp only [hm, pure_bind] at h
        exact ⟨_, h, fun k => rfl⟩
    | some managed =>
        simp only [hm, pure_bind] at h
        obtain ⟨v, hv, h⟩ := bind_eq_ok.1 h
        refine ⟨_, h, fun k => ?_⟩
        rw [lookupEntry_insertEntry, Option.elim_some, hv]
        rfl
  obtain ⟨as₂, h, hmanages⟩ := hlast
  obtain ⟨as₃, h₃, h⟩ := bind_eq_ok.1 h
  have hbehalf := lookup_insertOptAttr h₃
  have hacting := lookup_insertOptAttr h
  have hpassed : ∀ k, "acting_as" ≠ k → "on_behalf_of" ≠ k →
      lookupEntry k as = lookupEntry k as₂ := by
    intro k hk hk'
    rw [hacting, if_neg fun hand => hk hand.1, hbehalf, if_neg fun hand => hk' hand.1]
  have hothers : ∀ k, "manages" ≠ k →
      lookupEntry k as₂ = lookupEntry k (insertEntry "direct_reports" vreports as₁) := by
    intro k hk
    rw [hmanages]
    cases lookupEntry req.principal.id g.managerOf with
    | none => rfl
    | some managed => exact if_neg hk
  have hearlier : ∀ k, "acting_as" ≠ k → "on_behalf_of" ≠ k → "manages" ≠ k →
      lookupEntry k as = lookupEntry k (insertEntry "direct_reports" vreports as₁) := by
    intro k hk hk' hk''
    rw [hpassed k hk hk', hothers k hk'']
  have hfirst : ∀ k, "direct_reports" ≠ k → "roles" ≠ k → "groups" ≠ k →
      lookupEntry k (insertEntry "direct_reports" vreports as₁) =
        overridden E req.principal.attrs k none := by
    intro k hk hk' hk''
    rw [hbase, if_neg hk, lookupEntry_insertEntry, if_neg hk'', lookupEntry_insertEntry, if_neg hk']
    rfl
  constructor
  · refine ⟨vroles, hroles, ?_⟩
    rw [hearlier _ (by decide) (by decide) (by decide), hbase, if_neg (by decide),
      lookupEntry_insertEntry, if_neg (by decide), lookupEntry_insertEntry_self]
  · refine ⟨vgroups, hgroups, ?_⟩
    rw [hearlier _ (by decide) (by decide) (by decide), hbase, if_neg (by decide),
      lookupEntry_insertEntry_self]
  · rw [hearlier _ (by decide) (by decide) (by decide), lookupEntry_insertEntry_self, hreports]
    rfl
  · rw [hpassed _ (by decide) (by decide), hmanages]
    cases lookupEntry req.principal.id g.managerOf with
    | none => exact hfirst _ (by decide) (by decide) (by decide)
    | some managed => rw [Option.elim_some, if_pos rfl, Option.elim_some]
  · rw [hacting, if_neg fun hand => absurd hand.1 (by decide), hbehalf]
    cases hb : req.onBehalfOf with
    | none =>
        rw [if_neg fun hand => absurd hand.2 (by decide), hothers _ (by decide)]
        exact hfirst _ (by decide) (by decide) (by decide)
    | some v => exact if_pos ⟨rfl, rfl⟩
  · rw [hacting]
    cases ha : req.actingAs with
    | none =>
        rw [if_neg fun hand => absurd hand.2 (by decide), hbehalf,
          if_neg fun hand => absurd hand.1 (by decide), hothers _ (by decide)]
        exact hfirst _ (by decide) (by decide) (by decide)
    | some v => exact if_pos ⟨rfl, rfl⟩
  · exact fun k v hk => (hfree k).2 v hk

/-! ## What is built -/

theorem managerOf_collectEdges {input : EntityBuildInput} {g : Edges}
    (h : collectEdges E input = .ok g) :
    lookupEntry input.request.principal.id g.managerOf = none ↔ ManagesNobody input.request := by
  rw [(collectEdges_targets h _).1, pushed]
  simp [edgeTargets, ManagesNobody]

/-- The attributes of the subject entity. -/
structure SubjectLookups (E : Engine) (s : Subject) (as : List (String × Value)) : Prop where
  groups : ∃ v, setAttr E s.groups = .ok v ∧
    lookupEntry "groups" as = overridden E s.attrs "groups" (some v)
  kind : lookupEntry "kind" as = overridden E s.attrs "kind" none
  read : AttrsRead E s.attrs

/-- The entities of the principal, the subject and the resource in the set; a subject with the id of
the resource stands in its place. -/
structure BuiltAttrs (E : Engine) (input : EntityBuildInput) (es : List Entity) : Prop where
  principal : ∃ g as, collectEdges E input = .ok g ∧ PrincipalLookups E input.request g as ∧
    (E.TypesLiterals → Typed E as) ∧
    ∀ k, attributeAt ⟨"User", input.request.principal.id⟩ k es = lookupEntry k as
  subject : ∀ s, input.request.subject = some s → ∃ as, SubjectLookups E s as ∧
    (E.TypesLiterals → Typed E as) ∧
    ∀ k, attributeAt ⟨subjectType s.kind, s.id⟩ k es = lookupEntry k as
  resource : ¬SubjectIsResource input.request → ∃ x,
    strAttr E (kindText input.request input.request.resource.attrs) = .ok x ∧
    attributeAt ⟨"Resource", input.request.resource.entityId⟩ "kind" es = some x

/-- Every attribute of the subject. -/
theorem subjectLookups_of_ok {s : Subject} {v : Value} {as : List (String × Value)}
    (hv : setAttr E s.groups = .ok v)
    (h : insertStrAttrs E s.attrs (insertEntry "groups" v []) = .ok as) :
    SubjectLookups E s as := by
  have hfree := lookup_insertStrAttrs h
  refine ⟨⟨v, hv, ?_⟩, ?_, fun k w hk => (hfree k).2 w hk⟩
  · rw [(hfree _).1, lookupEntry_insertEntry_self]
  · rw [(hfree _).1, lookupEntry_insertEntry, if_neg (by decide)]
    rfl

/-- The kind of the resource, its free attribute in front. -/
theorem kind_of_ok {req : AuthzRequest} {v : Value} {as : List (String × Value)}
    (hv : strAttr E req.resource.kind = .ok v)
    (h : insertStrAttrs E req.resource.attrs (insertEntry "kind" v []) = .ok as) :
    ∃ x, strAttr E (kindText req req.resource.attrs) = .ok x ∧ lookupEntry "kind" as = some x := by
  have hfree := lookup_insertStrAttrs h "kind"
  rw [lookupEntry_insertEntry_self] at hfree
  rw [kindText]
  cases hk : req.resource.attrs.get "kind" with
  | none => exact ⟨v, hv, hfree.1.trans (overridden_of_none hk _)⟩
  | some w =>
      obtain ⟨x, hx⟩ := hfree.2 w hk
      exact ⟨x, hx, hfree.1.trans (overridden_of_some hk hx _)⟩

theorem attributeAt_insertEntities {u : EntityUid} {cs : List Entity} {e : Entity}
    (h : entityAt u cs = some e) (k : String) :
    attributeAt u k (insertEntities cs []) = lookupEntry k e.attrs := by
  rw [attributeAt, entityAt_insertEntities, List.nil_append, h, Option.bind_some]

/-- The built-in attributes of a set that was built. -/
theorem buildEntities_attrs (hE : E.Lawful) (hnew : E.KeepsEntityParts) {input : EntityBuildInput}
    {es : List Entity} (h : buildEntities E input = .ok es) : BuiltAttrs E input es := by
  obtain ⟨g, c, hg, hp, hs, hr, -, rfl⟩ := buildEntities_ok hE hnew h
  obtain ⟨as, ps, has, -, hpn⟩ := principalEntity_ok hE hp
  obtain ⟨v, ras, hv, hras, hrn⟩ := resourceEntity_ok hE hr
  have hpe := newEntity_ok hnew hpn
  have hre := newEntity_ok hnew hrn
  -- the principal comes first among the candidates, and only it is a user
  have hskip : ∀ {tn id : String}, tn ≠ "User" → entityAt ⟨tn, id⟩ c.list =
      entityAt ⟨tn, id⟩ (c.list.drop 1) := by
    intro tn id htn
    rw [entityAt, Candidates.list, List.find?_cons_of_neg]
    · rfl
    · rw [hpe]
      simp only [decide_eq_true_eq, Cedar.EntityUid.mk.injEq, not_and]
      exact fun htype => absurd htype.symm htn
  have hsubject : ∀ s, input.request.subject = some s → ∃ e, c.subject = some e ∧
      e.uid = ⟨subjectType s.kind, s.id⟩ ∧ SubjectLookups E s e.attrs ∧
      (E.TypesLiterals → Typed E e.attrs) := by
    intro s hsome
    rw [hsome] at hs
    generalize c.subject = cs at hs
    cases hs with
    | some hse =>
        obtain ⟨w, sas, sps, hw, hsas, -, hsn⟩ := subjectEntity_ok hE hse
        obtain rfl := newEntity_ok hnew hsn
        exact ⟨_, rfl, rfl, subjectLookups_of_ok hw hsas, fun hlit => typed_of_newEntity hlit hsn⟩
  constructor
  · refine ⟨g, as, hg, principalAttrs_lookups has, fun hlit => typed_of_newEntity hlit hpn, ?_⟩
    intro k
    rw [attributeAt_insertEntities (e := c.principal)]
    · rw [hpe]
    · rw [entityAt, Candidates.list, List.find?_cons_of_pos]
      rw [hpe]
      exact decide_eq_true rfl
  · intro s hsome
    obtain ⟨e, hce, huid, hlookups, htyped⟩ := hsubject s hsome
    refine ⟨e.attrs, hlookups, htyped, fun k => attributeAt_insertEntities ?_ k⟩
    rw [hskip (subjectType_ne_user s.kind), Candidates.list, List.drop_one, List.tail_cons, hce,
      entityAt, Option.toList_some, List.singleton_append, List.find?_cons_of_pos]
    exact decide_eq_true huid
  · intro hother
    obtain ⟨x, hx, hkind⟩ := kind_of_ok hv hras
    refine ⟨x, hx, ?_⟩
    rw [attributeAt_insertEntities (e := c.resource)]
    · rw [hre]
      exact hkind
    · rw [hskip (by decide), Candidates.list, List.drop_one, List.tail_cons, entityAt,
        List.find?_append]
      -- the subject is found first, but it has another id
      have hnone : c.subject.toList.find? (fun e => decide (e.uid =
          ⟨"Resource", input.request.resource.entityId⟩)) = none := by
        rw [List.find?_eq_none]
        intro e he hsame
        cases hsome : input.request.subject with
        | none =>
            rw [hsome] at hs
            generalize c.subject = cs at hs he
            cases hs
            cases he
        | some s =>
            obtain ⟨e', hce, huid, -⟩ := hsubject s hsome
            rw [hce, Option.toList_some, List.mem_singleton] at he
            subst he
            rw [huid] at hsame
            obtain ⟨htype, hid⟩ := Cedar.EntityUid.mk.inj (of_decide_eq_true hsame)
            exact hother ⟨s, hsome, htype, hid⟩
      rw [hnone, Option.none_or, List.find?_cons_of_pos]
      rw [hre]
      exact decide_eq_true rfl

/-! ## The two sets -/

/-- One attribute in both sets, where a set or nothing is there without the free attributes. -/
theorem attributeAt_eq_iff {m m' : IndexMap String} {k : String} {base : Option Value}
    {as as' : List (String × Value)} {u : EntityUid} {es es' : List Entity}
    (hm : AttrsRead E m) (hm' : AttrsRead E m') (hs : Typed E as) (hs' : Typed E as')
    (hat : ∀ k, attributeAt u k es = lookupEntry k as)
    (hat' : ∀ k, attributeAt u k es' = lookupEntry k as')
    (h : lookupEntry k as = overridden E m k base)
    (h' : lookupEntry k as' = overridden E m' k base)
    (hbase : ∀ v, base = some v → ∃ ss, setAttr E ss = .ok v) :
    attributeAt u k es = attributeAt u k es' ↔ SameOverride E m m' k := by
  rw [hat, hat']
  exact lookup_eq_iff hm hm' hs hs' h h' hbase

theorem subjectIsResource_withAttrs {req : AuthzRequest} {p s r : IndexMap String} :
    SubjectIsResource (req.withAttrs p s r) ↔ SubjectIsResource req := by
  unfold SubjectIsResource AuthzRequest.withAttrs
  cases req.subject with
  | none => simp
  | some subj => simp [Resource.entityId]

/-- The principal's built-in attributes are the same in both sets when the maps agree on those that
nothing is written over. -/
theorem principal_same_iff {req : AuthzRequest} {groupMembers : IndexMap (List String)}
    {p s r : IndexMap String} {es es' : List Entity} (hlit : E.TypesLiterals)
    (h : BuiltAttrs E ⟨req, groupMembers⟩ es)
    (h' : BuiltAttrs E ⟨req.withAttrs p s r, groupMembers⟩ es') :
    (∀ k ∈ principalBuiltins, attributeAt ⟨"User", req.principal.id⟩ k es =
      attributeAt ⟨"User", req.principal.id⟩ k es') ↔
    SameOverride E req.principal.attrs p "roles" ∧ SameOverride E req.principal.attrs p "groups" ∧
      (ManagesNobody req → SameOverride E req.principal.attrs p "manages") ∧
      (req.onBehalfOf = none → SameOverride E req.principal.attrs p "on_behalf_of") ∧
      (req.actingAs = none → SameOverride E req.principal.attrs p "acting_as") := by
  obtain ⟨g, as, hg, hlook, htyped, hat⟩ := h.principal
  obtain ⟨g', as', hg', hlook', htyped', hat'⟩ := h'.principal
  obtain rfl : g = g' := Except.ok.inj (hg.symm.trans hg')
  have hsame : ∀ {k : String} {base : Option Value},
      lookupEntry k as = overridden E req.principal.attrs k base →
      lookupEntry k as' = overridden E p k base →
      (∀ v, base = some v → ∃ ss, setAttr E ss = .ok v) →
      (attributeAt ⟨"User", req.principal.id⟩ k es = attributeAt ⟨"User", req.principal.id⟩ k es' ↔
        SameOverride E req.principal.attrs p k) :=
    attributeAt_eq_iff hlook.read hlook'.read (htyped hlit) (htyped' hlit) hat hat'
  -- the two sets of the request, which are replaced
  have hset : ∀ {k : String} {ss : List String},
      (∃ v, setAttr E ss = .ok v ∧
        lookupEntry k as = overridden E req.principal.attrs k (some v)) →
      (∃ v, setAttr E ss = .ok v ∧ lookupEntry k as' = overridden E p k (some v)) →
      (attributeAt ⟨"User", req.principal.id⟩ k es = attributeAt ⟨"User", req.principal.id⟩ k es' ↔
        SameOverride E req.principal.attrs p k) := by
    rintro k ss ⟨v, hv, hk⟩ ⟨v', hv', hk'⟩
    obtain rfl : v = v' := Except.ok.inj (hv.symm.trans hv')
    exact hsame hk hk' fun w hw => ⟨ss, hv.trans (by rw [Option.some.inj hw])⟩
  -- the three optional attributes, which replace when they are there
  have hoptional : ∀ {α : Type} {k : String} {o : Option α} {f : α → Option Value},
      lookupEntry k as = o.elim (overridden E req.principal.attrs k none) f →
      lookupEntry k as' = o.elim (overridden E p k none) f →
      (attributeAt ⟨"User", req.principal.id⟩ k es = attributeAt ⟨"User", req.principal.id⟩ k es' ↔
        (o = none → SameOverride E req.principal.attrs p k)) := by
    intro α k o f hk hk'
    cases o with
    | none =>
        rw [forall_prop_of_true rfl]
        exact hsame hk hk' nofun
    | some v =>
        rw [hat]
        exact iff_of_true (hk.trans (hk'.symm.trans (hat' _).symm)) nofun
  have hreports : attributeAt ⟨"User", req.principal.id⟩ "direct_reports" es =
      attributeAt ⟨"User", req.principal.id⟩ "direct_reports" es' := by
    rw [hat]
    exact hlook.directReports.trans (hlook'.directReports.symm.trans (hat' _).symm)
  have hmanages := hoptional hlook.manages hlook'.manages
  rw [managerOf_collectEdges hg] at hmanages
  have hbehalf := hoptional hlook.onBehalfOf hlook'.onBehalfOf
  have hacting := hoptional hlook.actingAs hlook'.actingAs
  simp only [principalBuiltins, List.forall_mem_cons, List.not_mem_nil, false_implies,
    implies_true, and_true, hset hlook.roles hlook'.roles, hset hlook.groups hlook'.groups, hreports,
    hmanages, hbehalf, hacting, true_and]

/-- When the built-in attributes of the subject are the same. -/
theorem subject_same_iff {req : AuthzRequest} {groupMembers : IndexMap (List String)}
    {p s r : IndexMap String} {es es' : List Entity} (hlit : E.TypesLiterals)
    (h : BuiltAttrs E ⟨req, groupMembers⟩ es)
    (h' : BuiltAttrs E ⟨req.withAttrs p s r, groupMembers⟩ es') {subj : Subject}
    (hsubj : req.subject = some subj) :
    (attributeAt ⟨subjectType subj.kind, subj.id⟩ "groups" es =
      attributeAt ⟨subjectType subj.kind, subj.id⟩ "groups" es' ↔
        SameOverride E subj.attrs s "groups") ∧
    (attributeAt ⟨subjectType subj.kind, subj.id⟩ "kind" es =
      attributeAt ⟨subjectType subj.kind, subj.id⟩ "kind" es' ↔
        SameOverride E subj.attrs s "kind") := by
  obtain ⟨as, hlook, htyped, hat⟩ := h.subject subj hsubj
  obtain ⟨as', hlook', htyped', hat'⟩ := h'.subject { subj with attrs := s } (by
    rw [AuthzRequest.withAttrs, hsubj]
    rfl)
  obtain ⟨v, hv, hgroups⟩ := hlook.groups
  obtain ⟨v', hv', hgroups'⟩ := hlook'.groups
  obtain rfl : v = v' := Except.ok.inj (hv.symm.trans hv')
  constructor
  · exact attributeAt_eq_iff hlook.read hlook'.read (htyped hlit) (htyped' hlit) hat hat' hgroups
      hgroups' fun w hw => ⟨_, hv.trans (by rw [Option.some.inj hw])⟩
  · exact attributeAt_eq_iff hlook.read hlook'.read (htyped hlit) (htyped' hlit) hat hat' hlook.kind
      hlook'.kind nofun

/-- When the built-in attributes of the resource are the same. -/
theorem resource_same_iff {req : AuthzRequest} {groupMembers : IndexMap (List String)}
    {p s r : IndexMap String} {es es' : List Entity} (h : BuiltAttrs E ⟨req, groupMembers⟩ es)
    (h' : BuiltAttrs E ⟨req.withAttrs p s r, groupMembers⟩ es') (hother : ¬SubjectIsResource req) :
    attributeAt ⟨"Resource", req.resource.entityId⟩ "kind" es =
      attributeAt ⟨"Resource", req.resource.entityId⟩ "kind" es' ↔
    strAttr E (kindText req req.resource.attrs) = strAttr E (kindText req r) := by
  obtain ⟨x, hx, hat⟩ := h.resource hother
  obtain ⟨x', hx', hat'⟩ := h'.resource (subjectIsResource_withAttrs.not.2 hother)
  have hleft : attributeAt ⟨"Resource", req.resource.entityId⟩ "kind" es = some x := hat
  have hright : attributeAt ⟨"Resource", req.resource.entityId⟩ "kind" es' = some x' := hat'
  have htext : strAttr E (kindText req r) = .ok x' := hx'
  rw [hleft, hright, htext, hx, Option.some.injEq, Except.ok.injEq]

/-- **Free attributes and built-in ones.** Two requests that differ in their free attributes alone
have the same built-in attributes exactly when the free ones agree on the keys `roles` and `groups`,
on those of the optional attributes that are not set, and on what replaces the resource kind. -/
theorem builtins_same_iff (E : Engine) (req : AuthzRequest) (groupMembers : IndexMap (List String))
    (p s r : IndexMap String) (es es' : List Entity) (hE : E.Lawful) (hnew : E.KeepsEntityParts)
    (hlit : E.TypesLiterals) (h : buildEntities E ⟨req, groupMembers⟩ = .ok es)
    (h' : buildEntities E ⟨req.withAttrs p s r, groupMembers⟩ = .ok es') :
    SameBuiltins req es es' ↔ AttrsAgree E req p s r := by
  have hbuilt := buildEntities_attrs hE hnew h
  have hbuilt' := buildEntities_attrs hE hnew h'
  have hprincipal := principal_same_iff hlit hbuilt hbuilt'
  constructor
  · intro hsame
    obtain ⟨hroles, hgroups, hmanages, hbehalf, hacting⟩ := hprincipal.1 hsame.principal
    refine ⟨hroles, hgroups, hmanages, hbehalf, hacting, ?_, ?_, ?_⟩
    · intro subj hsubj
      exact (subject_same_iff hlit hbuilt hbuilt' hsubj).1.1 (hsame.subject subj hsubj)
    · exact fun hother => (resource_same_iff hbuilt hbuilt' hother).1 hsame.resource
    · rintro subj hsubj ⟨subj', hsubj', htype, hid⟩
      -- here the kind of the resource is read off the subject
      obtain rfl := Option.some.inj (hsubj.symm.trans hsubj')
      have hkind := hsame.resource
      rw [← htype, ← hid] at hkind
      exact (subject_same_iff hlit hbuilt hbuilt' hsubj).2.1 hkind
  · intro hagree
    refine ⟨hprincipal.2 ⟨hagree.roles, hagree.groups, hagree.manages, hagree.onBehalfOf,
      hagree.actingAs⟩, ?_, ?_⟩
    · intro subj hsubj
      exact (subject_same_iff hlit hbuilt hbuilt' hsubj).1.2 (hagree.subjectGroups subj hsubj)
    · by_cases hsame : SubjectIsResource req
      · -- the subject stands in the place of the resource
        obtain ⟨subj, hsubj, htype, hid⟩ := id hsame
        rw [← htype, ← hid]
        exact (subject_same_iff hlit hbuilt hbuilt' hsubj).2.2 (hagree.subjectKind subj hsubj hsame)
      · exact (resource_same_iff hbuilt hbuilt' hsame).2 (hagree.kind hsame)

/-- The member request with a free attribute that names a built-in one. -/
def forgedRoles : IndexMap String := IndexMap.empty.insert "roles" "admin"

/-- A free attribute under the key `roles` is the roles of the principal: two requests of the same
fixed fields have different roles. -/
theorem builtins_forged : ∃ es es',
    buildEntities Engine.reference memberInput = .ok es ∧
      buildEntities Engine.reference
        ⟨memberRequest.withAttrs forgedRoles .empty .empty, memberInput.groupMembers⟩ = .ok es' ∧
      attributeAt ⟨"User", "mia"⟩ "roles" es = some (.set []) ∧
      attributeAt ⟨"User", "mia"⟩ "roles" es' = some (.str "admin") ∧
      ¬SameBuiltins memberRequest es es' := by
  obtain ⟨es, hes⟩ := @buildEntities_reference memberRequest (by decide +kernel)
    memberInput.groupMembers
  obtain ⟨es', hes'⟩ := @buildEntities_reference (memberRequest.withAttrs forgedRoles .empty .empty)
    (by decide +kernel) memberInput.groupMembers
  have hbuilt := buildEntities_attrs Engine.reference_lawful Engine.reference_keepsEntityParts hes
  have hbuilt' := buildEntities_attrs Engine.reference_lawful Engine.reference_keepsEntityParts hes'
  obtain ⟨g, as, -, hlook, -, hat⟩ := hbuilt.principal
  obtain ⟨g', as', -, hlook', -, hatForged⟩ := hbuilt'.principal
  -- without the attribute the principal has its own empty set of roles
  have hroles : attributeAt ⟨"User", "mia"⟩ "roles" es = some (.set []) := by
    obtain ⟨v, hv, hroles⟩ := hlook.roles
    obtain rfl : Value.set [] = v := Except.ok.inj ((setAttr_reference rfl).symm.trans hv)
    exact (hat "roles").trans (hroles.trans (overridden_of_none rfl _))
  -- the free attribute of that name replaces the set
  have hforged : attributeAt ⟨"User", "mia"⟩ "roles" es' = some (.str "admin") := by
    obtain ⟨v, -, hroles⟩ := hlook'.roles
    have hadmin : strAttr Engine.reference "admin" = .ok (.str "admin") :=
      strAttr_reference (by decide)
    exact (hatForged "roles").trans (hroles.trans (overridden_of_some rfl hadmin _))
  refine ⟨es, es', hes, hes', hroles, hforged, fun hsame => ?_⟩
  have heq : attributeAt ⟨"User", "mia"⟩ "roles" es = attributeAt ⟨"User", "mia"⟩ "roles" es' :=
    hsame.principal "roles" (by decide)
  rw [hroles, hforged] at heq
  cases heq

/-- Free attributes of other names. -/
def plainAttrs : IndexMap String := IndexMap.empty.insert "team" "blue"

/-- Plain free attributes leave the built-in ones alone. -/
theorem builtins_same_iff_plain : ∃ es es',
    buildEntities Engine.reference memberInput = .ok es ∧
      buildEntities Engine.reference
        ⟨memberRequest.withAttrs plainAttrs plainAttrs plainAttrs, memberInput.groupMembers⟩ =
          .ok es' ∧
      SameBuiltins memberRequest es es' := by
  obtain ⟨es, hes⟩ := @buildEntities_reference memberRequest (by decide +kernel)
    memberInput.groupMembers
  obtain ⟨es', hes'⟩ := @buildEntities_reference
    (memberRequest.withAttrs plainAttrs plainAttrs plainAttrs) (by decide +kernel)
    memberInput.groupMembers
  refine ⟨es, es', hes, hes', ?_⟩
  rw [builtins_same_iff Engine.reference memberRequest memberInput.groupMembers plainAttrs plainAttrs
    plainAttrs es es' Engine.reference_lawful Engine.reference_keepsEntityParts
    Engine.reference_typesLiterals hes hes']
  constructor
  · exact rfl
  · exact rfl
  · exact fun _ => rfl
  · exact fun _ => rfl
  · exact fun _ => rfl
  · rintro s ⟨⟩
    exact rfl
  · exact fun _ => rfl
  · rintro s ⟨⟩ -
    exact rfl

end

end Paac
