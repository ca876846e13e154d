import Paac.Core.EntitySet
import Paac.Core.Reference
import Paac.Library.Run

set_option autoImplicit false

/-!
# The groups of an entity

Memberships come from the groups of a request, from its relationship edges and from the configured
groups. The loops over them keep two collections in step, the parents of each member and the groups
with a member, so the parents of an entity are its groups and every one of them is an entity of the
set.

`Edges.Collects` is the loop invariant: after the memberships seen so far, the parents of every id
are the groups of its memberships, and the linked groups are those with some membership. Both loops
keep it by the same lemma on one membership, whichever way it came.

## Main results

- `Edges.Collects.add`: one membership more, in both collections.
- `edgeStep_collects`, `memberStep_collects`, `collectEdges_collects`: each loop step keeps them in
  step, and so do the loops.
- `collectEdges_targets`: the lists of direct reports and managers are the edges of their kinds.
- `mem_allParents`, `mem_allGroups`: the parents of an entity and the groups of the set.
- `group_hierarchy_exact`: the parents of principal and subject are exactly their groups, and each
  of them is an entity of the set.
-/

namespace Paac

open Cedar (Engine Entity EntityUid)

def groupUid (group : String) : EntityUid := ⟨"Group", group⟩

/-- Where an entity is a member: in a group of its own list, in one that an edge leads to, or in a
configured one that lists it. -/
def EntityBuildInput.MemberOf (input : EntityBuildInput) (id : String) (groups : List String)
    (group : String) : Prop :=
  group ∈ groups ∨ ⟨.groupMember, id, group⟩ ∈ input.request.relationships ∨
    ∃ members, input.groupMembers.get group = some members ∧ id ∈ members

/-! ## What the loops collect -/

/-- Member and group of a membership edge. -/
def Relationship.membership? (r : Relationship) : Option (String × String) :=
  match r.kind with
  | .groupMember => some (r.«from», r.«to»)
  | _ => none

/-- Member and group of the configured memberships of one group. -/
def configuredMemberships (e : String × List String) : List (String × String) :=
  e.2.map fun m => (m, e.1)

def EntityBuildInput.memberships (input : EntityBuildInput) : List (String × String) :=
  input.request.relationships.filterMap Relationship.membership? ++
    input.groupMembers.entries.flatMap configuredMemberships

/-- The parents and the linked groups are those of the memberships seen so far. -/
structure Edges.Collects (pairs : List (String × String)) (g : Edges) : Prop where
  parents : ∀ id u, u ∈ (lookupEntry id g.parents).getD [] ↔
    ∃ group, u = groupUid group ∧ (id, group) ∈ pairs
  links : ∀ group, group ∈ g.groupLinks.map Prod.fst ↔ ∃ id, (id, group) ∈ pairs

theorem mem_insertUid {u v : EntityUid} {us : List EntityUid} :
    v ∈ insertUid u us ↔ v ∈ us ∨ v = u := by
  unfold insertUid
  split
  · rename_i hu
    constructor
    · exact Or.inl
    · rintro (hv | rfl)
      · exact hv
      · exact hu
  · simp

/-- The parents of an entity after one was added. -/
theorem mem_addParent {id m : String} {u v : EntityUid} {ps : List (String × List EntityUid)} :
    v ∈ (lookupEntry id (addParent m u ps)).getD [] ↔
      v ∈ (lookupEntry id ps).getD [] ∨ (m = id ∧ v = u) := by
  rw [addParent, lookupEntry_insertEntry]
  split
  · rename_i hm
    rw [Option.getD_some, mem_insertUid, hm]
    simp
  · rename_i hm
    simp [hm]

/-- The keys after an entry was pushed. -/
theorem mem_keys_pushEntry {k k' v : String} {m : List (String × List String)} :
    k' ∈ (pushEntry k v m).map Prod.fst ↔ k' ∈ m.map Prod.fst ∨ k' = k := by
  rw [pushEntry, map_fst_insertEntry]
  split
  · rename_i hk
    constructor
    · exact Or.inl
    · rintro (h | rfl)
      · exact h
      · exact hk
  · rw [List.mem_append, List.mem_singleton]

/-- **One membership**, whichever loop sees it. -/
theorem Edges.Collects.add {pairs : List (String × String)} {g : Edges} (h : g.Collects pairs)
    (m group : String) :
    Edges.Collects (pairs ++ [(m, group)])
      { g with
        groupLinks := pushEntry group m g.groupLinks
        parents := addParent m (groupUid group) g.parents } := by
  constructor
  · intro id u
    rw [mem_addParent, h.parents]
    constructor
    · rintro (⟨group', rfl, hpair⟩ | ⟨rfl, rfl⟩)
      · exact ⟨group', rfl, List.mem_append_left _ hpair⟩
      · exact ⟨group, rfl, by simp⟩
    · rintro ⟨group', rfl, hpair⟩
      rcases List.mem_append.1 hpair with hpair | hpair
      · exact Or.inl ⟨group', rfl, hpair⟩
      · obtain ⟨rfl, rfl⟩ := Prod.mk.inj (List.mem_singleton.1 hpair)
        exact Or.inr ⟨rfl, rfl⟩
  · intro group'
    rw [mem_keys_pushEntry, h.links]
    constructor
    · rintro (⟨id, hpair⟩ | rfl)
      · exact ⟨id, List.mem_append_left _ hpair⟩
      · exact ⟨m, by simp⟩
    · rintro ⟨id, hpair⟩
      rcases List.mem_append.1 hpair with hpair | hpair
      · exact Or.inl ⟨id, hpair⟩
      · exact Or.inr (Prod.mk.inj (List.mem_singleton.1 hpair)).2

section

variable {E : Engine}

/-- One step of the loop over the edges keeps the collections in step. -/
theorem edgeStep_collects (hE : E.Lawful) {pairs : List (String × String)} {g g' : Edges}
    {rel : Relationship} (h : g.Collects pairs) (hstep : edgeStep E g rel = .ok g') :
    g'.Collects (pairs ++ rel.membership?.toList) := by
  unfold edgeStep at hstep
  unfold Relationship.membership?
  -- only a membership adds a pair
  cases hkind : rel.kind with
  | groupMember =>
      rw [hkind] at hstep
      obtain ⟨u, hu, hstep⟩ := bind_eq_ok.1 hstep
      obtain rfl := Entities.uid_ok hE hu
      obtain rfl := Except.ok.inj hstep
      exact h.add rel.«from» rel.«to»
  | managerOf =>
      rw [hkind] at hstep
      obtain rfl := Except.ok.inj hstep
      rw [Option.toList_none, List.append_nil]
      exact ⟨h.parents, h.links⟩
  | directReports =>
      rw [hkind] at hstep
      obtain rfl := Except.ok.inj hstep
      rw [Option.toList_none, List.append_nil]
      exact ⟨h.parents, h.links⟩
  | delegation =>
      rw [hkind] at hstep
      obtain rfl := Except.ok.inj hstep
      rw [Option.toList_none, List.append_nil]
      exact h

/-- One step of the loop over the configured groups keeps the collections in step. -/
theorem memberStep_collects (hE : E.Lawful) {pairs : List (String × String)} {g g' : Edges}
    {group m : String} (h : g.Collects pairs) (hstep : memberStep E group g m = .ok g') :
    g'.Collects (pairs ++ [(m, group)]) := by
  obtain ⟨u, hu, hstep⟩ := bind_eq_ok.1 hstep
  obtain rfl := Entities.uid_ok hE hu
  obtain rfl := Except.ok.inj hstep
  exact h.add m group

/-- **The loops collect exactly the memberships of the input.** -/
theorem collectEdges_collects (hE : E.Lawful) {input : EntityBuildInput} {g : Edges}
    (h : collectEdges E input = .ok g) : g.Collects input.memberships := by
  obtain ⟨g₁, hedges, hmembers⟩ := bind_eq_ok.1 h
  have hstart : Edges.Collects [] ⟨[], [], [], []⟩ :=
    ⟨fun id u => by simp [lookupEntry], fun group => by simp⟩
  -- the relationship edges
  have h₁ := foldlM_invariant
    (P := fun done g => Edges.Collects (done.filterMap Relationship.membership?) g)
    (by
      intro done s rel t hs hstep
      rw [List.filterMap_append]
      have hadded := edgeStep_collects hE hs hstep
      cases hpair : rel.membership? with
      | none => simpa [hpair] using hadded
      | some pair => simpa [hpair] using hadded)
    hstart hedges
  -- the configured groups, and the members of each
  have h₂ := foldlM_invariant
    (P := fun done g => Edges.Collects (input.request.relationships.filterMap
      Relationship.membership? ++ done.flatMap configuredMemberships) g)
    (by
      intro done s e t hs hstep
      have hinner := foldlM_invariant
        (P := fun ms g => Edges.Collects (input.request.relationships.filterMap
          Relationship.membership? ++ done.flatMap configuredMemberships ++
            ms.map fun m => (m, e.1)) g)
        (by
          intro ms s m t hs hstep
          have hadded := memberStep_collects hE hs hstep
          simpa using hadded)
        (by simpa using hs) hstep
      simpa [configuredMemberships] using hinner)
    (by simpa using h₁) hmembers
  simpa [EntityBuildInput.memberships] using h₂

/-- Where the edges of a kind lead to from an id. -/
def edgeTargets (kind : RelationshipKind) (id : String) (rels : List Relationship) : List String :=
  (rels.filter fun r => r.kind = kind && r.«from» = id).map (·.«to»)

/-- What a map has under a key that values are pushed under. -/
def pushed (vs : List String) : Option (List String) := if vs.isEmpty then none else some vs

/-- The targets of the edges of a kind, one edge more. -/
theorem edgeTargets_concat (kind : RelationshipKind) (id : String) (rels : List Relationship)
    (r : Relationship) : edgeTargets kind id (rels ++ [r]) =
      edgeTargets kind id rels ++ if r.kind = kind ∧ r.«from» = id then [r.«to»] else [] := by
  unfold edgeTargets
  by_cases h : r.kind = kind ∧ r.«from» = id
  · simp [List.filter_append, h]
  · rw [if_neg h, List.filter_append]
    simp [h]

/-- A list that is found after an entry was pushed. -/
theorem lookupEntry_pushEntry {k k' v : String} {m : List (String × List String)}
    {vs : List String} (h : lookupEntry k' m = pushed vs) :
    lookupEntry k' (pushEntry k v m) = pushed (vs ++ if k = k' then [v] else []) := by
  rw [pushEntry, lookupEntry_insertEntry]
  by_cases hk : k = k'
  · subst hk
    rw [if_pos rfl, if_pos rfl, h]
    cases vs with
    | nil => rfl
    | cons w vs => rfl
  · rw [if_neg hk, if_neg hk, h, List.append_nil]

/-- **The loops collect the edges of managers and reports.** -/
theorem collectEdges_targets {input : EntityBuildInput} {g : Edges}
    (h : collectEdges E input = .ok g) (id : String) :
    lookupEntry id g.managerOf = pushed (edgeTargets .managerOf id input.request.relationships) ∧
      lookupEntry id g.directReports =
        pushed (edgeTargets .directReports id input.request.relationships) := by
  obtain ⟨g₁, hedges, hmembers⟩ := bind_eq_ok.1 h
  have h₁ := foldlM_invariant
    (P := fun done g => lookupEntry id g.managerOf = pushed (edgeTargets .managerOf id done) ∧
      lookupEntry id g.directReports = pushed (edgeTargets .directReports id done))
    (by
      rintro done s ⟨kind, source, target⟩ t ⟨hmanages, hreports⟩ hstep
      rw [edgeTargets_concat, edgeTargets_concat]
      unfold edgeStep at hstep
      cases kind with
      | managerOf =>
          obtain rfl := Except.ok.inj hstep
          refine ⟨?_, by simpa using hreports⟩
          simpa using lookupEntry_pushEntry (k := source) (v := target) hmanages
      | directReports =>
          obtain rfl := Except.ok.inj hstep
          refine ⟨by simpa using hmanages, ?_⟩
          simpa using lookupEntry_pushEntry (k := source) (v := target) hreports
      | groupMember =>
          obtain ⟨u, -, hstep⟩ := bind_eq_ok.1 hstep
          obtain rfl := Except.ok.inj hstep
          exact ⟨by simpa using hmanages, by simpa using hreports⟩
      | delegation =>
          obtain rfl := Except.ok.inj hstep
          exact ⟨by simpa using hmanages, by simpa using hreports⟩)
    ⟨rfl, rfl⟩ hedges
  -- the configured groups say nothing about them
  have h₂ := foldlM_invariant
    (P := fun _ g => g.managerOf = g₁.managerOf ∧ g.directReports = g₁.directReports)
    (by
      intro _ s e t hs hstep
      exact foldlM_invariant
        (P := fun _ g => g.managerOf = g₁.managerOf ∧ g.directReports = g₁.directReports)
        (by
          intro _ s m t hs hstep
          obtain ⟨u, -, hstep⟩ := bind_eq_ok.1 hstep
          obtain rfl := Except.ok.inj hstep
          exact hs)
        hs hstep)
    ⟨rfl, rfl⟩ hmembers
  rw [h₂.1, h₂.2]
  exact h₁

/-- The parents of an entity are its own groups and those of its memberships. -/
theorem mem_allParents (hE : E.Lawful) {pairs : List (String × String)} {g : Edges}
    (hg : g.Collects pairs) {id : String} {groups : List String} {ps : List EntityUid}
    (h : allParents E id groups g = .ok ps) (u : EntityUid) :
    u ∈ ps ↔ ∃ group, u = groupUid group ∧ (group ∈ groups ∨ (id, group) ∈ pairs) := by
  have hfold := foldlM_invariant
    (P := fun done us => ∀ u, u ∈ us ↔
      ∃ group, u = groupUid group ∧ (group ∈ done ∨ (id, group) ∈ pairs))
    -- the loop adds the own groups to the parents from the relationships
    (by
      intro done us group us' hus hstep u
      obtain ⟨v, hv, hstep⟩ := bind_eq_ok.1 hstep
      obtain rfl := Entities.uid_ok hE hv
      obtain rfl := Except.ok.inj hstep
      rw [mem_insertUid, hus]
      constructor
      · rintro (⟨group', rfl, hgroup⟩ | rfl)
        · refine ⟨group', rfl, ?_⟩
          rcases hgroup with hgroup | hgroup
          · exact Or.inl (List.mem_append_left _ hgroup)
          · exact Or.inr hgroup
        · exact ⟨group, rfl, Or.inl (by simp)⟩
      · rintro ⟨group', rfl, hgroup | hgroup⟩
        · rcases List.mem_append.1 hgroup with hgroup | hgroup
          · exact Or.inl ⟨group', rfl, Or.inl hgroup⟩
          · exact Or.inr (by rw [List.mem_singleton.1 hgroup]; rfl)
        · exact Or.inl ⟨group', rfl, Or.inr hgroup⟩)
    (fun u => by rw [hg.parents]; simp) h
  exact hfold u

/-! ## The hierarchy -/

/-- A membership comes from an edge or from a configured group. -/
theorem mem_memberships {input : EntityBuildInput} {id group : String} :
    (id, group) ∈ input.memberships ↔ ⟨.groupMember, id, group⟩ ∈ input.request.relationships ∨
      ∃ members, input.groupMembers.get group = some members ∧ id ∈ members := by
  have hedges : (id, group) ∈ input.request.relationships.filterMap Relationship.membership? ↔
      ⟨.groupMember, id, group⟩ ∈ input.request.relationships := by
    rw [List.mem_filterMap]
    constructor
    · rintro ⟨⟨kind, source, target⟩, hrel, hpair⟩
      cases kind with
      | groupMember =>
          obtain ⟨rfl, rfl⟩ := Prod.mk.inj (Option.some.inj hpair)
          exact hrel
      | _ => cases hpair
    · exact fun hrel => ⟨_, hrel, rfl⟩
  have hconfigured : (id, group) ∈ input.groupMembers.entries.flatMap configuredMemberships ↔
      ∃ members, input.groupMembers.get group = some members ∧ id ∈ members := by
    simp only [List.mem_flatMap, configuredMemberships, List.mem_map, Prod.mk.injEq]
    constructor
    · rintro ⟨⟨group', members⟩, hentry, m, hm, rfl, rfl⟩
      exact ⟨members, lookupEntry_of_mem input.groupMembers.nodup hentry, hm⟩
    · rintro ⟨members, hget, hid⟩
      exact ⟨(group, members), mem_of_lookupEntry hget, id, hid, rfl, rfl⟩
  rw [EntityBuildInput.memberships, List.mem_append, hedges, hconfigured]

/-- The parents of the entity are the groups that its id is a member of. -/
def ParentsExact (input : EntityBuildInput) (id : String) (groups : List String) (e : Entity) :
    Prop :=
  ∀ u, u ∈ e.parents ↔ ∃ group, u = groupUid group ∧ input.MemberOf id groups group

/-- The set has one entity of the id, and it is `e`. -/
def TheEntity (es : List Entity) (u : EntityUid) (e : Entity) : Prop :=
  ∀ e', (e' ∈ es ∧ e'.uid = u) ↔ e' = e

/-- The entity of a uid that is in the list is the one in the set. -/
theorem theEntity_of_entityAt {cs : List Entity} {u : EntityUid} {e : Entity}
    (h : entityAt u cs = some e) : TheEntity (insertEntities cs []) u e := by
  intro e'
  rw [mem_insertEntities_iff]
  constructor
  · rintro ⟨he', rfl⟩
    exact Option.some.inj (he'.symm.trans h)
  · rintro rfl
    obtain ⟨-, rfl⟩ := entityAt_eq_some h
    exact ⟨h, rfl⟩

/-- The parents of an entity are its groups. -/
theorem parentsExact_of_allParents (hE : E.Lawful) {input : EntityBuildInput} {g : Edges}
    (hg : collectEdges E input = .ok g) {id : String} {groups : List String} {e : Entity}
    (h : allParents E id groups g = .ok e.parents) : ParentsExact input id groups e := by
  intro u
  rw [mem_allParents hE (collectEdges_collects hE hg) h]
  simp only [mem_memberships, EntityBuildInput.MemberOf]

/-- Every group of a membership is among the groups of the set. -/
theorem mem_allGroups (hE : E.Lawful) {input : EntityBuildInput} {g : Edges}
    (hg : collectEdges E input = .ok g) {id group : String} {groups : List String}
    (hgroups : groups = input.request.principal.groups ∨
      ∃ s, input.request.subject = some s ∧ groups = s.groups)
    (h : input.MemberOf id groups group) : group ∈ allGroups input g := by
  have hcollects := collectEdges_collects hE hg
  rw [allGroups, List.mem_eraseDups]
  simp only [List.mem_append]
  rcases h with hgroup | hmember
  · left
    left
    rcases hgroups with rfl | ⟨s, hs, rfl⟩
    · exact Or.inl hgroup
    · right
      rw [hs]
      exact hgroup
  · exact Or.inl (Or.inr ((hcollects.links group).2 ⟨id, mem_memberships.2 hmember⟩))

/-- **The group hierarchy is exact and closed.** The parents of the principal and of the subject are
the groups they are members of, and every parent is an entity of the set. -/
theorem group_hierarchy_exact (E : Engine) (input : EntityBuildInput) (es : List Entity)
    (hE : E.Lawful) (hnew : E.KeepsEntityParts) (h : buildEntities E input = .ok es) :
    (∃ e, TheEntity es ⟨"User", input.request.principal.id⟩ e ∧
      ParentsExact input input.request.principal.id input.request.principal.groups e) ∧
    (∀ s, input.request.subject = some s → ∃ e, TheEntity es ⟨subjectType s.kind, s.id⟩ e ∧
      ParentsExact input s.id s.groups e) ∧
    ∀ e ∈ es, ∀ u ∈ e.parents, ∃ e' ∈ es, e'.uid = u := by
  obtain ⟨g, c, hg, hp, hs, hr, hgroups, rfl⟩ := buildEntities_ok hE hnew h
  obtain ⟨as, ps, -, hps, hpe⟩ := principalEntity_ok hE hp
  obtain ⟨v, ras, -, -, hre⟩ := resourceEntity_ok hE hr
  replace hpe := newEntity_ok hnew hpe
  replace hre := newEntity_ok hnew hre
  have hprincipal : ParentsExact input input.request.principal.id input.request.principal.groups
      c.principal := by
    apply parentsExact_of_allParents hE hg
    rw [hpe]
    exact hps
  have hsubject : ∀ s, input.request.subject = some s → ∃ e, c.subject = some e ∧
      e.uid = ⟨subjectType s.kind, s.id⟩ ∧ ParentsExact input s.id s.groups e := by
    intro s hsome
    rw [hsome] at hs
    generalize hcs : c.subject = cs at hs
    cases hs with
    | some hse =>
        obtain ⟨v, sas, sps, -, -, hsps, hse⟩ := subjectEntity_ok hE hse
        obtain rfl := newEntity_ok hnew hse
        exact ⟨_, rfl, rfl, parentsExact_of_allParents hE hg hsps⟩
  refine ⟨⟨c.principal, theEntity_of_entityAt ?_, hprincipal⟩, ?_, ?_⟩
  · rw [entityAt, Candidates.list, List.find?_cons_of_pos]
    rw [hpe]
    exact decide_eq_true rfl
  · intro s hsome
    obtain ⟨e, hce, huid, hexact⟩ := hsubject s hsome
    refine ⟨e, theEntity_of_entityAt ?_, hexact⟩
    -- the principal is a user, and the subject is not
    rw [entityAt, Candidates.list, hce, Option.toList_some, List.find?_cons_of_neg,
      List.singleton_append, List.find?_cons_of_pos]
    · exact decide_eq_true huid
    · rw [hpe]
      simp only [decide_eq_true_eq, Cedar.EntityUid.mk.injEq, not_and]
      exact fun htype => absurd htype.symm (subjectType_ne_user s.kind)
  · intro e he u hu
    -- only the principal and the subject have parents
    have hmember : ∃ group, u = groupUid group ∧ group ∈ allGroups input g := by
      have hcandidate := (entityAt_eq_some (mem_insertEntities_iff.1 he)).1
      simp only [Candidates.list, List.mem_cons, List.mem_append, Option.mem_toList,
        List.mem_map, List.not_mem_nil, or_false] at hcandidate
      rcases hcandidate with rfl | hsubj | rfl | ⟨group, -, rfl⟩ | rfl
      · obtain ⟨group, rfl, hgroup⟩ := (hprincipal u).1 hu
        exact ⟨group, rfl, mem_allGroups hE hg (Or.inl rfl) hgroup⟩
      · cases hsome : input.request.subject with
        | none =>
            rw [hsome] at hs
            generalize c.subject = cs at hs hsubj
            cases hs
            cases hsubj
        | some s =>
            obtain ⟨e', hce, -, hexact⟩ := hsubject s hsome
            obtain rfl := Option.some.inj (hce.symm.trans hsubj)
            obtain ⟨group, rfl, hgroup⟩ := (hexact u).1 hu
            exact ⟨group, rfl, mem_allGroups hE hg (Or.inr ⟨s, hsome, rfl⟩) hgroup⟩
      · rw [hre] at hu
        cases hu
      · cases hu
      · cases hu
    obtain ⟨group, rfl, hgroup⟩ := hmember
    have hin : (⟨groupUid group, [], []⟩ : Entity) ∈ c.list := by
      rw [← hgroups] at hgroup
      simp only [Candidates.list, List.mem_cons, List.mem_append, List.mem_map]
      exact Or.inr (Or.inr (Or.inr (Or.inl ⟨group, hgroup, rfl⟩)))
    obtain ⟨e', he'⟩ := exists_entityAt hin rfl
    obtain ⟨-, huid⟩ := entityAt_eq_some he'
    exact ⟨e', mem_insertEntities_iff.2 (by rw [huid]; exact he'), huid⟩

/-- A member of one group by each of the three ways, and a subject that is configured as a member. -/
def memberRequest : AuthzRequest where
  principal := ⟨"mia", [], ["staff"], .empty⟩
  action := ⟨"READ"⟩
  resource := ⟨"doc", none, .empty⟩
  subject := some ⟨"sam", "Employee", [], .empty⟩
  context := ⟨.empty⟩
  relationships := [⟨.groupMember, "mia", "editors"⟩]
  actingAs := none
  onBehalfOf := none

def memberInput : EntityBuildInput :=
  ⟨memberRequest, IndexMap.empty.insert "owners" ["mia", "sam"]⟩

theorem Cedar.Engine.reference_keepsEntityParts : Engine.reference.KeepsEntityParts :=
  fun h => (Except.ok.inj h).symm

/-- A member with groups from three sources has all of them as parents. -/
theorem group_hierarchy_exact_member : ∃ es,
    buildEntities Engine.reference memberInput = .ok es ∧
      (∃ e, TheEntity es ⟨"User", "mia"⟩ e ∧ ParentsExact memberInput "mia" ["staff"] e) ∧
      (∃ e, TheEntity es ⟨"Employee", "sam"⟩ e ∧ ParentsExact memberInput "sam" [] e) ∧
      ∀ e ∈ es, ∀ u ∈ e.parents, ∃ e' ∈ es, e'.uid = u := by
  obtain ⟨es, hes⟩ := @buildEntities_reference memberRequest (by decide +kernel)
    memberInput.groupMembers
  obtain ⟨hprincipal, hsubject, hclosed⟩ := group_hierarchy_exact Engine.reference memberInput es
    Engine.reference_lawful Engine.reference_keepsEntityParts hes
  refine ⟨es, hes, hprincipal, ?_, hclosed⟩
  have hsam := hsubject ⟨"sam", "Employee", [], .empty⟩ rfl
  have htype : subjectType "Employee" = "Employee" := by decide
  rw [htype] at hsam
  exact hsam

end

end Paac
