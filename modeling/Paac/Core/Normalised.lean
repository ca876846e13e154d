import Paac.Core.Builder
import Paac.Core.Evaluate
import Paac.Library.Run
import Paac.Library.Words

set_option autoImplicit false

/-!
# The identifiers of a built request

Each builder method that takes an identifier keeps it trimmed, but `principal_obj` checks the id and
keeps the principal as it came. So the principal of a request is trimmed by the last call that set
it, unless that call was `principal_obj` with a padded id; since subject and principal are compared
without trimming, a padded principal is not the subject of its own request.

A chain of builder calls is a list (`BuilderCall`), and a call that fails ends it. The invariant
(`TrimmedParts`) is about the calls so far: all parts but the principal are trimmed, and the
principal is the one of the last call that set it.

## Main results

- `trimmedParts_step`, `trimmedParts_run`: the builder keeps its parts trimmed, one call and then
  any sequence of them.
- `subjectIsSelf_trimmed`: subject and principal are compared untrimmed.
- `built_normalised_iff`: a built request has normalised identifiers exactly when its principal was
  not given padded to `principal_obj` last.
- `built_keeps_padding`: a padded principal stays padded.
-/

namespace Paac

/-! ## Chains of builder calls -/

/-- A call of a builder method. -/
inductive BuilderCall where
  | principal (id : String) (roles : List String)
  | principalObj (p : Principal)
  | agentPrincipal (agentId : String) (roles : List String) (onBehalfOf : String)
  | action (name : String)
  | resourceKind (kind : String)
  | resource (kind : String) (id : Option String) (attrs : IndexMap String)
  | subject (id : String) (groups : List String)
  | contextKv (k v : String)
  | relationship (rel : Relationship)
  | delegationHop (principalId : String)

namespace BuilderCall

def apply (b : AuthzRequestBuilder) : BuilderCall → Except AuthzError AuthzRequestBuilder
  | .principal id roles => b.withPrincipal id roles
  | .principalObj p => b.principalObj p
  | .agentPrincipal agentId roles onBehalfOf => b.agentPrincipal agentId roles onBehalfOf
  | .action name => b.withAction name
  | .resourceKind kind => b.resourceKind kind
  | .resource kind id attrs => b.withResource kind id attrs
  | .subject id groups => b.withSubject id groups
  | .contextKv k v => .ok (b.contextKv k v)
  | .relationship rel => .ok (b.relationship rel)
  | .delegationHop principalId => b.delegationHop principalId

/-- A call that fails ends the chain. -/
def step (b : AuthzRequestBuilder) (c : BuilderCall) : Option AuthzRequestBuilder :=
  (apply b c).toOption

/-- The principal that a call leaves in the builder, when it sets one. -/
def principalOf : BuilderCall → Option Principal
  | .principal id roles => some (Principal.withRoles (Text.trim id) roles)
  | .principalObj p => some p
  | .agentPrincipal agentId roles _ => some (Principal.withRoles (Text.trim agentId) roles)
  | _ => none

def setsPrincipal (c : BuilderCall) : Bool := c.principalOf.isSome

end BuilderCall

/-- The last call that sets the principal. -/
def lastPrincipalCall (calls : List BuilderCall) : Option BuilderCall :=
  (calls.filter BuilderCall.setsPrincipal).getLast?

/-! ## Normalised identifiers -/

/-- Not empty, and without whitespace at its ends. -/
def IsTrimmed (s : String) : Prop := s ≠ "" ∧ Text.trim s = s

/-- The identifiers of a request are normalised, and it is about its own principal whenever the two
ids name the same one up to padding. -/
structure AuthzRequest.Normalised (req : AuthzRequest) : Prop where
  principal : IsTrimmed req.principal.id
  action : IsTrimmed req.action.name
  resourceKind : IsTrimmed req.resource.kind
  resourceId : ∀ i ∈ req.resource.id, IsTrimmed i
  subject : ∀ s ∈ req.subject, IsTrimmed s.id
  actingAs : ∀ a ∈ req.actingAs, IsTrimmed a
  onBehalfOf : ∀ h ∈ req.onBehalfOf, IsTrimmed h
  subjectIsSelf : subjectIsSelf req = true ↔
    ∃ s ∈ req.subject, Text.trim s.id = Text.trim req.principal.id

theorem newId_trimmed {label value t : String} (h : newId label value = .ok t) :
    t = Text.trim value ∧ IsTrimmed t := by
  obtain ⟨rfl, hne⟩ := newId_eq_ok h
  refine ⟨rfl, ?_, Text.trim_trim value⟩
  rintro hempty
  rw [hempty] at hne
  cases hne

/-! ## What every call preserves -/

theorem lastPrincipalCall_concat (calls : List BuilderCall) (c : BuilderCall) :
    lastPrincipalCall (calls ++ [c]) =
      if c.setsPrincipal then some c else lastPrincipalCall calls := by
  unfold lastPrincipalCall
  rw [List.filter_append]
  cases hc : c.setsPrincipal with
  | true => simp [List.filter_cons_of_pos hc]
  | false => simp [hc]

/-- All identifiers but the principal's are normalised, and the principal is the one of the last call
that sets it. -/
structure AuthzRequestBuilder.TrimmedParts (b : AuthzRequestBuilder) (calls : List BuilderCall) :
    Prop where
  principal : b.principal = (lastPrincipalCall calls).bind BuilderCall.principalOf
  action : ∀ a ∈ b.action, IsTrimmed a.name
  resourceKind : ∀ r ∈ b.resource, IsTrimmed r.kind
  resourceId : ∀ r ∈ b.resource, ∀ i ∈ r.id, IsTrimmed i
  subject : ∀ s ∈ b.subject, IsTrimmed s.id
  actingAs : ∀ a ∈ b.actingAs, IsTrimmed a
  onBehalfOf : ∀ h ∈ b.onBehalfOf, IsTrimmed h

theorem trimmedParts_new : AuthzRequestBuilder.new.TrimmedParts [] :=
  ⟨rfl, nofun, nofun, nofun, nofun, nofun, nofun⟩

/-- A resource that is kept is trimmed. -/
theorem withResource_trimmed {b b' : AuthzRequestBuilder} {kind : String} {id : Option String}
    {attrs : IndexMap String} (h : b.withResource kind id attrs = .ok b') :
    ∃ r, b' = { b with resource := some r } ∧ IsTrimmed r.kind ∧ ∀ i ∈ r.id, IsTrimmed i := by
  rw [AuthzRequestBuilder.withResource] at h
  obtain ⟨k, hk, h⟩ := bind_eq_ok.1 h
  cases id with
  | none =>
      obtain ⟨id', hid, h⟩ := bind_eq_ok.1 h
      obtain rfl := Except.ok.inj hid
      exact ⟨⟨k, none, attrs⟩, (Except.ok.inj h).symm, (newId_trimmed hk).2,
        fun i hi => absurd hi (Option.not_mem_none i)⟩
  | some i =>
      obtain ⟨id', hid, h⟩ := bind_eq_ok.1 h
      refine ⟨⟨k, id', attrs⟩, (Except.ok.inj h).symm, (newId_trimmed hk).2, ?_⟩
      cases hnew : ResourceId.new i with
      | error e =>
          rw [hnew] at hid
          cases hid
      | ok t =>
          rw [hnew] at hid
          obtain rfl := Except.ok.inj hid
          rintro _ ⟨⟩
          exact (newId_trimmed hnew).2

/-- **One call of the builder keeps its parts trimmed**, the principal by the last call that set it.
-/
theorem trimmedParts_step {b b' : AuthzRequestBuilder} {calls : List BuilderCall} {c : BuilderCall}
    (h : b.TrimmedParts calls) (hstep : BuilderCall.apply b c = .ok b') :
    b'.TrimmedParts (calls ++ [c]) := by
  -- a call that sets no principal leaves the last one in place
  have hkept : c.principalOf = none → b'.principal = b.principal →
      b'.principal = (lastPrincipalCall (calls ++ [c])).bind BuilderCall.principalOf := by
    intro hnone hsame
    rw [lastPrincipalCall_concat, BuilderCall.setsPrincipal, hnone, hsame]
    exact h.principal
  have hset : ∀ p, c.principalOf = some p → b'.principal = some p →
      b'.principal = (lastPrincipalCall (calls ++ [c])).bind BuilderCall.principalOf := by
    intro p hsome hsame
    rw [lastPrincipalCall_concat, BuilderCall.setsPrincipal, hsome, hsame]
    exact hsome.symm
  cases c with
  | principal id roles =>
      obtain ⟨t, ht, hstep⟩ := bind_eq_ok.1 hstep
      obtain rfl := Except.ok.inj hstep
      obtain ⟨rfl, -⟩ := newId_trimmed ht
      exact { h with principal := hset _ rfl rfl }
  | principalObj p =>
      obtain ⟨_, -, hstep⟩ := bind_eq_ok.1 hstep
      obtain rfl := Except.ok.inj hstep
      exact { h with principal := hset _ rfl rfl }
  | agentPrincipal agentId roles onBehalfOf =>
      obtain ⟨agent, hagent, hstep⟩ := bind_eq_ok.1 hstep
      obtain ⟨human, hhuman, hstep⟩ := bind_eq_ok.1 hstep
      obtain rfl := Except.ok.inj hstep
      obtain ⟨rfl, hagent⟩ := newId_trimmed hagent
      refine { h with principal := hset _ rfl rfl, actingAs := ?_, onBehalfOf := ?_ }
      · rintro _ ⟨⟩
        exact hagent
      · rintro _ ⟨⟩
        exact (newId_trimmed hhuman).2
  | action name =>
      obtain ⟨a, ha, hstep⟩ := bind_eq_ok.1 hstep
      obtain rfl := Except.ok.inj hstep
      refine { h with principal := hkept rfl rfl, action := ?_ }
      rintro _ ⟨⟩
      exact (newId_trimmed ha).2
  | resourceKind kind =>
      obtain ⟨k, hk, hstep⟩ := bind_eq_ok.1 hstep
      obtain rfl := Except.ok.inj hstep
      refine { h with principal := hkept rfl rfl, resourceKind := ?_, resourceId := ?_ }
      · rintro _ ⟨⟩
        exact (newId_trimmed hk).2
      · rintro _ ⟨⟩
        exact nofun
  | resource kind id attrs =>
      obtain ⟨r, rfl, hkind, hid⟩ := withResource_trimmed hstep
      refine { h with principal := hkept rfl rfl, resourceKind := ?_, resourceId := ?_ }
      · rintro _ ⟨⟩
        exact hkind
      · rintro _ ⟨⟩
        exact hid
  | subject id groups =>
      obtain ⟨t, ht, hstep⟩ := bind_eq_ok.1 hstep
      obtain rfl := Except.ok.inj hstep
      refine { h with principal := hkept rfl rfl, subject := ?_ }
      rintro _ ⟨⟩
      exact (newId_trimmed ht).2
  | contextKv k v =>
      obtain rfl := Except.ok.inj hstep
      exact { h with principal := hkept rfl rfl }
  | relationship rel =>
      obtain rfl := Except.ok.inj hstep
      exact { h with principal := hkept rfl rfl }
  | delegationHop principalId =>
      obtain ⟨_, -, hstep⟩ := bind_eq_ok.1 hstep
      obtain rfl := Except.ok.inj hstep
      exact { h with principal := hkept rfl rfl }

/-- The parts of a builder after any chain of calls. -/
theorem trimmedParts_run {calls : List BuilderCall} {b : AuthzRequestBuilder}
    (h : runFrom BuilderCall.step .new calls = some b) : b.TrimmedParts calls := by
  apply runFrom_invariant (P := fun calls b => b.TrimmedParts calls) trimmedParts_new _ h
  intro calls m c t _ hm hstep
  apply trimmedParts_step hm
  cases happly : BuilderCall.apply m c with
  | error e =>
      rw [BuilderCall.step, happly] at hstep
      cases hstep
  | ok b' =>
      rw [BuilderCall.step, happly] at hstep
      rw [Option.some.inj hstep]

/-! ## The built request -/

/-- A valid request is about a principal whose id is not blank. -/
theorem trim_principal_ne_empty {req : AuthzRequest} (h : req.validate = .ok ()) :
    Text.trim req.principal.id ≠ "" := by
  rintro hempty
  rw [AuthzRequest.validate, hempty] at h
  cases h

/-- With trimmed ids the comparison is the one up to padding. -/
theorem subjectIsSelf_trimmed {req : AuthzRequest} (hprincipal : IsTrimmed req.principal.id)
    (hsubject : ∀ s ∈ req.subject, IsTrimmed s.id) :
    subjectIsSelf req = true ↔ ∃ s ∈ req.subject, Text.trim s.id = Text.trim req.principal.id := by
  unfold subjectIsSelf
  cases hs : req.subject with
  | none => simp
  | some s =>
      rw [hs] at hsubject
      simp [hprincipal.2, (hsubject s rfl).2]

/-- **A built request has normalised identifiers** exactly when the last call that set its principal
was not `principal_obj` with a padded id. -/
theorem built_normalised_iff (calls : List BuilderCall) (b : AuthzRequestBuilder)
    (req : AuthzRequest) (hrun : runFrom BuilderCall.step .new calls = some b)
    (hbuild : b.build = .ok req) :
    req.Normalised ↔
      ∀ p, lastPrincipalCall calls = some (.principalObj p) → Text.trim p.id = p.id := by
  have hparts := trimmedParts_run hrun
  obtain ⟨hprincipal, haction, hresource, hsubject, hacting, hbehalf, hvalid⟩ := build_eq_ok hbuild
  have hlast := hparts.principal
  rw [hprincipal] at hlast
  constructor
  · intro h p hp
    rw [hp] at hlast
    obtain rfl := Option.some.inj hlast
    exact h.principal.2
  · intro h
    -- every other call that sets the principal trims its id
    have htrim : Text.trim req.principal.id = req.principal.id := by
      cases hcall : lastPrincipalCall calls with
      | none =>
          rw [hcall] at hlast
          cases hlast
      | some c =>
          rw [hcall] at hlast
          cases c with
          | principal id roles =>
              rw [Option.some.inj hlast]
              exact Text.trim_trim id
          | principalObj p =>
              rw [Option.some.inj hlast]
              exact h p hcall
          | agentPrincipal agentId roles onBehalfOf =>
              rw [Option.some.inj hlast]
              exact Text.trim_trim agentId
          | _ => cases hlast
    have hid : IsTrimmed req.principal.id :=
      ⟨fun hempty => trim_principal_ne_empty hvalid (by rw [htrim, hempty]), htrim⟩
    have hsubjects : ∀ s ∈ req.subject, IsTrimmed s.id := hsubject ▸ hparts.subject
    exact
      { principal := hid
        action := hparts.action _ haction
        resourceKind := hparts.resourceKind _ hresource
        resourceId := hparts.resourceId _ hresource
        subject := hsubjects
        actingAs := hacting ▸ hparts.actingAs
        onBehalfOf := hbehalf ▸ hparts.onBehalfOf
        subjectIsSelf := subjectIsSelf_trimmed hid hsubjects }

/-! ### Two chains -/

namespace Normalised

/-- A principal asks about itself. -/
def calls (id : String) : List BuilderCall :=
  [.principalObj (Principal.withRoles id ["EMPLOYEE"]), .action " READ", .resourceKind "PROFILE ",
    .subject " bob " []]

/-- What the chain leaves in the builder. -/
def builder (id : String) : AuthzRequestBuilder :=
  { AuthzRequestBuilder.new with
    principal := some (Principal.withRoles id ["EMPLOYEE"])
    action := some ⟨"READ"⟩
    resource := some (Resource.ofKind "PROFILE")
    subject := some ⟨"bob", "Employee", [], .empty⟩ }

def request (id : String) : AuthzRequest :=
  ⟨Principal.withRoles id ["EMPLOYEE"], ⟨"READ"⟩, .ofKind "PROFILE",
    some ⟨"bob", "Employee", [], .empty⟩, ⟨.empty⟩, [], none, none⟩

theorem built : ∀ id ∈ ["bob", " bob"],
    runFrom BuilderCall.step .new (calls id) = some (builder id) ∧
      (builder id).build = .ok (request id) := by
  intro id hid
  simp only [List.mem_cons, List.not_mem_nil, or_false] at hid
  rcases hid with rfl | rfl
  · exact ⟨rfl, rfl⟩
  · exact ⟨rfl, rfl⟩

end Normalised

open Normalised in
/-- A request for a trimmed principal is normalised. -/
theorem built_normalised_bob : (request "bob").Normalised := by
  obtain ⟨hrun, hbuild⟩ := built "bob" (by decide)
  apply (built_normalised_iff (calls "bob") (builder "bob") _ hrun hbuild).2
  rintro p ⟨⟩
  decide

open Normalised in
/-- A padded principal is stored as it came, and is not recognised as the subject. -/
theorem built_keeps_padding :
    runFrom BuilderCall.step .new (calls " bob") = some (builder " bob") ∧
      (builder " bob").build = .ok (request " bob") ∧
      (request " bob").principal.id = " bob" ∧
      subjectIsSelf (request " bob") = false ∧
      ¬(request " bob").Normalised := by
  obtain ⟨hrun, hbuild⟩ := built " bob" (by decide)
  refine ⟨hrun, hbuild, rfl, by decide, ?_⟩
  intro h
  have htrim : Text.trim " bob" = " bob" := h.principal.2
  revert htrim
  decide

end Paac
