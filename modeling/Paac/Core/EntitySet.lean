import Paac.Core.Evaluate

set_option autoImplicit false

/-!
# The set of built entities

Entities of one id are one element of the set, and the first one inserted stays. So the set is given
by the list of entities in the order they are inserted: the principal, the subject, the resource,
the groups and the action (`Candidates`). A question about the set, such as the attributes of the
resource, becomes a question about the first candidate of an id.

## Main results

- `entityAt_insertEntities`, `mem_insertEntities_iff`: the set has the first entity of each uid.
- `nodup_insertEntities`: and one entity for each.
- `principalEntity_ok`, `subjectEntity_ok`, `resourceEntity_ok`: what the entities are made of, for
  an engine that keeps the parts it is given (`Engine.KeepsEntityParts`).
- `buildEntities_ok`: a build that succeeds returns the set of the candidates.
-/

namespace Paac

open Cedar (Engine Entity EntityUid Value)

/-- `Entity::new` puts the id, the attributes and the parents it is given into the entity. -/
def Cedar.Engine.KeepsEntityParts (E : Engine) : Prop :=
  ∀ {u : EntityUid} {as : List (String × Value)} {ps : List EntityUid} {e : Entity},
    E.entityNew u as ps = .ok e → e = ⟨u, as, ps⟩

/-! ## Insertion into the set -/

/-- The entities of a list, inserted in order. -/
def insertEntities (cs : List Entity) (es : List Entity) : List Entity :=
  cs.foldl (fun es e => insertEntity e es) es

/-- The entity of an id. -/
def entityAt (u : EntityUid) (es : List Entity) : Option Entity := es.find? fun e => e.uid = u

theorem entityAt_append (u : EntityUid) (es es' : List Entity) :
    entityAt u (es ++ es') = (entityAt u es).or (entityAt u es') := List.find?_append

theorem entityAt_eq_none {u : EntityUid} {es : List Entity} :
    entityAt u es = none ↔ ∀ e ∈ es, e.uid ≠ u := by
  simp [entityAt]

theorem entityAt_eq_some {u : EntityUid} {es : List Entity} {e : Entity}
    (h : entityAt u es = some e) : e ∈ es ∧ e.uid = u :=
  ⟨List.mem_of_find?_eq_some h, by simpa using List.find?_some h⟩

theorem exists_entityAt {u : EntityUid} {es : List Entity} {e : Entity} (he : e ∈ es)
    (hu : e.uid = u) : ∃ e', entityAt u es = some e' := by
  cases h : entityAt u es with
  | none => exact absurd hu (entityAt_eq_none.1 h e he)
  | some e' => exact ⟨e', rfl⟩

/-- What is found after an insertion: the entity that was there first. -/
theorem entityAt_insertEntity (u : EntityUid) (e : Entity) (es : List Entity) :
    entityAt u (insertEntity e es) = (entityAt u es).or (entityAt u [e]) := by
  unfold insertEntity
  split
  · rename_i hany
    obtain ⟨e', he', hsame⟩ := List.any_eq_true.1 hany
    by_cases hu : e.uid = u
    · obtain ⟨e'', he''⟩ := exists_entityAt he' ((of_decide_eq_true hsame).trans hu)
      rw [he'', Option.some_or]
    · have hnone : entityAt u [e] = none := entityAt_eq_none.2 (by simpa using hu)
      rw [hnone, Option.or_none]
  · exact entityAt_append u es [e]

/-- Of the entities of one id the first one stays. -/
theorem entityAt_insertEntities (u : EntityUid) (cs : List Entity) :
    ∀ es : List Entity, entityAt u (insertEntities cs es) = entityAt u (es ++ cs) := by
  induction cs with
  | nil => intro es; rw [List.append_nil]; rfl
  | cons c cs ih =>
      intro es
      have hcons : es ++ c :: cs = (es ++ [c]) ++ cs := by simp
      rw [show insertEntities (c :: cs) es = insertEntities cs (insertEntity c es) from rfl, ih,
        entityAt_append, entityAt_insertEntity, hcons, entityAt_append, entityAt_append]

/-- An insertion keeps the uids distinct. -/
theorem nodup_insertEntity_uid {e : Entity} {es : List Entity} (h : (es.map Entity.uid).Nodup) :
    ((insertEntity e es).map Entity.uid).Nodup := by
  unfold insertEntity
  split
  · exact h
  · rename_i hnew
    rw [List.map_append, List.nodup_append]
    refine ⟨h, List.nodup_singleton _, ?_⟩
    rintro u hu v hv rfl
    obtain ⟨e', he', rfl⟩ := List.mem_map.1 hu
    apply hnew
    rw [List.any_eq_true]
    exact ⟨e', he', decide_eq_true (List.mem_singleton.1 hv)⟩

theorem nodup_insertEntities (cs : List Entity) : ∀ {es : List Entity},
    (es.map Entity.uid).Nodup → ((insertEntities cs es).map Entity.uid).Nodup := by
  induction cs with
  | nil => exact id
  | cons c cs ih => exact fun h => ih (nodup_insertEntity_uid h)

/-- The set has the first entity of every id and no other one. -/
theorem mem_insertEntities_iff {cs : List Entity} {e : Entity} :
    e ∈ insertEntities cs [] ↔ entityAt e.uid cs = some e := by
  have hat : ∀ u, entityAt u (insertEntities cs []) = entityAt u cs := by
    intro u
    rw [entityAt_insertEntities, List.nil_append]
  constructor
  · intro he
    obtain ⟨e', he'⟩ := exists_entityAt he rfl
    obtain ⟨hmem, huid⟩ := entityAt_eq_some he'
    have hnodup : ((insertEntities cs []).map Entity.uid).Nodup :=
      nodup_insertEntities cs List.nodup_nil
    rw [← hat, he', List.inj_on_of_nodup_map hnodup hmem he huid]
  · intro he
    rw [← hat] at he
    exact (entityAt_eq_some he).1

/-! ## The entities of a request -/

section

variable {E : Engine}

theorem Entities.uid_ok (hE : E.Lawful) {tn id : String} {u : EntityUid}
    (h : Entities.uid E tn id = .ok u) : u = ⟨tn, id⟩ := by
  simp only [Entities.uid, mapErr_eq_ok, entityUid] at h
  split at h
  · rename_i t ht
    rw [← Except.ok.inj h, hE.type_name ht]
  · cases h

theorem newEntity_ok (hnew : E.KeepsEntityParts) {u : EntityUid} {as : List (String × Value)}
    {ps : List EntityUid} {e : Entity} (h : newEntity E u as ps = .ok e) : e = ⟨u, as, ps⟩ := by
  simp only [newEntity, mapErr_eq_ok] at h
  exact hnew h

theorem bareEntity_ok (hE : E.Lawful) (hnew : E.KeepsEntityParts) {tn id : String} {e : Entity}
    (h : bareEntity E tn id = .ok e) : e = ⟨⟨tn, id⟩, [], []⟩ := by
  obtain ⟨u, hu, h⟩ := bind_eq_ok.1 h
  obtain rfl := Entities.uid_ok hE hu
  exact newEntity_ok hnew h

/-- What the entity of the principal is made of. -/
theorem principalEntity_ok (hE : E.Lawful) {req : AuthzRequest} {g : Edges} {e : Entity}
    (h : principalEntity E req g = .ok e) :
    ∃ as ps, principalAttrs E req g = .ok as ∧
      allParents E req.principal.id req.principal.groups g = .ok ps ∧
      newEntity E ⟨"User", req.principal.id⟩ as ps = .ok e := by
  obtain ⟨as, has, h⟩ := bind_eq_ok.1 h
  obtain ⟨u, hu, h⟩ := bind_eq_ok.1 h
  obtain ⟨ps, hps, h⟩ := bind_eq_ok.1 h
  obtain rfl := Entities.uid_ok hE hu
  exact ⟨as, ps, has, hps, h⟩

/-- What the entity of the subject is made of. -/
theorem subjectEntity_ok (hE : E.Lawful) {subj : Subject} {g : Edges} {e : Entity}
    (h : subjectEntity E subj g = .ok e) :
    ∃ v as ps, setAttr E subj.groups = .ok v ∧
      insertStrAttrs E subj.attrs (insertEntry "groups" v []) = .ok as ∧
      allParents E subj.id subj.groups g = .ok ps ∧
      newEntity E ⟨subjectType subj.kind, subj.id⟩ as ps = .ok e := by
  obtain ⟨v, hv, h⟩ := bind_eq_ok.1 h
  obtain ⟨as, has, h⟩ := bind_eq_ok.1 h
  obtain ⟨u, hu, h⟩ := bind_eq_ok.1 h
  obtain ⟨ps, hps, h⟩ := bind_eq_ok.1 h
  obtain rfl := Entities.uid_ok hE hu
  exact ⟨v, as, ps, hv, has, hps, h⟩

/-- What the entity of the resource is made of. -/
theorem resourceEntity_ok (hE : E.Lawful) {req : AuthzRequest} {e : Entity}
    (h : resourceEntity E req = .ok e) :
    ∃ v as, strAttr E req.resource.kind = .ok v ∧
      insertStrAttrs E req.resource.attrs (insertEntry "kind" v []) = .ok as ∧
      newEntity E ⟨"Resource", req.resource.entityId⟩ as [] = .ok e := by
  obtain ⟨v, hv, h⟩ := bind_eq_ok.1 h
  obtain ⟨as, has, h⟩ := bind_eq_ok.1 h
  obtain ⟨u, hu, h⟩ := bind_eq_ok.1 h
  obtain rfl := Entities.uid_ok hE hu
  exact ⟨v, as, hv, has, h⟩

/-- No subject entity is a user. -/
theorem subjectType_ne_user (kind : String) : subjectType kind ≠ "User" := by
  have hno : ∀ k : String,
      (if Text.eqIgnoreAsciiCase k "user" then "Employee" else k) ≠ "User" := by
    intro k
    split
    · decide
    · rename_i huser
      rintro rfl
      exact huser (by decide)
  unfold subjectType
  exact hno _

/-- The candidates for the entity set, in the order they are inserted. -/
structure Candidates where
  principal : Entity
  subject : Option Entity
  resource : Entity
  groups : List String
  action : String

/-- The entities of the groups have neither attributes nor parents. -/
def Candidates.list (c : Candidates) : List Entity :=
  c.principal :: (c.subject.toList ++
    (c.resource :: (c.groups.map (fun group => ⟨⟨"Group", group⟩, [], []⟩) ++
      [⟨⟨"Action", c.action⟩, [], []⟩])))

/-- The loop over the groups inserts a bare entity for each. -/
theorem foldlM_groups (hE : E.Lawful) (hnew : E.KeepsEntityParts) {groups : List String}
    {es es' : List Entity}
    (h : groups.foldlM (fun es group => do
      return insertEntity (← bareEntity E "Group" group) es) es = .ok es') :
    es' = insertEntities (groups.map fun group => ⟨⟨"Group", group⟩, [], []⟩) es := by
  induction groups generalizing es with
  | nil => exact (Except.ok.inj h).symm
  | cons group groups ih =>
      rw [List.foldlM_cons] at h
      obtain ⟨m, hm, h⟩ := bind_eq_ok.1 h
      obtain ⟨e, he, hm⟩ := bind_eq_ok.1 hm
      obtain rfl := bareEntity_ok hE hnew he
      obtain rfl := Except.ok.inj hm
      exact ih h

/-- **What entity building returns**: the set of the candidates. -/
theorem buildEntities_ok (hE : E.Lawful) (hnew : E.KeepsEntityParts) {input : EntityBuildInput}
    {es : List Entity} (h : buildEntities E input = .ok es) :
    ∃ (g : Edges) (c : Candidates), collectEdges E input = .ok g ∧
      principalEntity E input.request g = .ok c.principal ∧
      Option.Rel (fun s e => subjectEntity E s g = .ok e) input.request.subject c.subject ∧
      resourceEntity E input.request = .ok c.resource ∧
      c.groups = allGroups input g ∧
      es = insertEntities c.list [] := by
  rw [buildEntities] at h
  obtain ⟨g, hg, h⟩ := bind_eq_ok.1 h
  obtain ⟨p, hp, h⟩ := bind_eq_ok.1 h
  -- what is left once principal and subject are in
  have hrest : ∀ (se : Option Entity) (rest : List Entity),
      rest = insertEntities (p :: se.toList) [] →
      (do
        let es := insertEntity (← resourceEntity E input.request) rest
        let es ← (allGroups input g).foldlM
          (fun es group => do return insertEntity (← bareEntity E "Group" group) es) es
        return insertEntity (← bareEntity E "Action"
          (Text.toAsciiUppercase input.request.action.name)) es) = .ok es →
      ∃ r, resourceEntity E input.request = .ok r ∧
        es = insertEntities (Candidates.list ⟨p, se, r, allGroups input g,
          Text.toAsciiUppercase input.request.action.name⟩) [] := by
    rintro se rest rfl h
    obtain ⟨r, hr, h⟩ := bind_eq_ok.1 h
    obtain ⟨m, hm, h⟩ := bind_eq_ok.1 h
    obtain ⟨a, ha, h⟩ := bind_eq_ok.1 h
    obtain rfl := bareEntity_ok hE hnew ha
    obtain rfl := foldlM_groups hE hnew hm
    refine ⟨r, hr, ?_⟩
    rw [← Except.ok.inj h, Candidates.list, ← List.cons_append]
    simp only [insertEntities, List.foldl_append, List.foldl_cons, List.foldl_nil]
  cases hsubj : input.request.subject with
  | none =>
      simp only [hsubj, pure_bind] at h
      obtain ⟨r, hr, hes⟩ := hrest none _ rfl h
      exact ⟨g, ⟨p, none, r, _, _⟩, hg, hp, .none, hr, rfl, hes⟩
  | some s =>
      simp only [hsubj, pure_bind] at h
      obtain ⟨se, hse, h⟩ := bind_eq_ok.1 h
      obtain ⟨r, hr, hes⟩ := hrest (some se) _ rfl h
      exact ⟨g, ⟨p, some se, r, _, _⟩, hg, hp, .some hse, hr, rfl, hes⟩

end

end Paac
