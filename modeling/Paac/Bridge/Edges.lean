import Paac.Bridge.Bind
import Paac.Core.Evaluate

set_option autoImplicit false

/-!
# The edges of a bound request

A bound request is determined by the principal, the extraction and the bound resource. Its
relationship edges lead from the principal to the direct reports that the extraction lists, and two
of the phrases of `extract_structured` list one, whoever asks. So an edge that decides about
authority can come from the words of a prompt.

## Main results

- `bindExtraction_eq`: the request that binding makes, part by part (`boundRequest`). Later modules
  reason about that record and not about the builder.
- `extractStructured_directReports`: an extraction lists no direct report, or the one employee.
- `same_edges_iff`: two bound requests of one principal have the same edges exactly when their
  extractions list the same direct reports.
- `travel_asserts_direct_report`: a prompt that mentions a colleague makes her a direct report of
  whoever asks.
-/

namespace Paac

/-- The request that binding an extraction gives. -/
def boundRequest (principal : Principal) (extraction : NlExtraction)
    (catalog : Option ResourceCatalog) : AuthzRequest :=
  let bound := boundResource extraction catalog
  { principal
    action := ⟨Text.trim extraction.action⟩
    resource := ⟨Text.trim bound.1, bound.2.1.map Text.trim, bound.2.2⟩
    subject := extraction.subjectId.map fun s =>
      ⟨Text.trim s, "Employee", extraction.subjectGroups, .empty⟩
    context := ⟨((IndexMap.empty.insert "nl_utterance" extraction.utterance).insert
      "extraction_confidence" extraction.confidence).insert "proposal_only" "true"⟩
    relationships := extraction.directReports.map fun dr => ⟨.directReports, principal.id, dr⟩
    actingAs := some "agent:nl-bridge"
    onBehalfOf := some principal.id }

/-- The loop over the direct reports appends an edge for each. -/
theorem foldl_relationship (principalId : String) (drs : List String) (b : AuthzRequestBuilder) :
    drs.foldl (fun b dr => b.relationship ⟨.directReports, principalId, dr⟩) b =
      { b with relationships := b.relationships ++
          drs.map fun dr => ⟨.directReports, principalId, dr⟩ } := by
  induction drs generalizing b with
  | nil => rw [List.foldl_nil, List.map_nil, List.append_nil]
  | cons dr drs ih =>
      rw [List.foldl_cons, ih, AuthzRequestBuilder.relationship, List.map_cons, List.append_assoc,
        List.singleton_append]

/-- The subject that is bound is the one extracted. -/
theorem bindSubject_ok {extraction : NlExtraction} {b b' : AuthzRequestBuilder}
    (hb : b.subject = none) (h : bindSubject extraction b = .ok b') :
    b' = { b with subject := extraction.subjectId.map fun s =>
      ⟨Text.trim s, "Employee", extraction.subjectGroups, .empty⟩ } := by
  unfold bindSubject at h
  split at h
  · rename_i subj hsubj
    obtain ⟨id, hid, h⟩ := bind_eq_ok.1 h
    obtain ⟨rfl, -⟩ := newId_eq_ok hid
    rw [← Except.ok.inj h, hsubj]
    rfl
  · rename_i hsubj
    rw [← Except.ok.inj h, hsubj, Option.map_none, ← hb]

/-- The builder of a bound request before the subject and the facts. -/
def boundBuilder (principal : Principal) (action : Action) (resource : Resource) :
    AuthzRequestBuilder :=
  ⟨some principal, some action, some resource, none, ⟨.empty⟩, [], none, none, []⟩

/-- **A bound request is determined by its parts.** -/
theorem bindExtraction_eq {principal : Principal} {extraction : NlExtraction}
    {catalog : Option ResourceCatalog} {req : AuthzRequest}
    (h : bindExtraction principal extraction catalog = .ok req) :
    req = boundRequest principal extraction catalog := by
  rw [bindExtraction, mapErr_eq_ok, buildProposal] at h
  rw [boundRequest]
  generalize boundResource extraction catalog = bound at h ⊢
  obtain ⟨b₁, h₁, h⟩ := bind_eq_ok.1 h
  obtain ⟨b₂, h₂, h⟩ := bind_eq_ok.1 h
  obtain ⟨b₃, h₃, h⟩ := bind_eq_ok.1 h
  obtain ⟨b₄, h₄, h⟩ := bind_eq_ok.1 h
  obtain ⟨req', h₅, h⟩ := bind_eq_ok.1 h
  -- each step of the builder succeeded, so it put in its trimmed argument
  have hb₃ : b₃ = boundBuilder principal ⟨Text.trim extraction.action⟩
      ⟨Text.trim bound.1, bound.2.1.map Text.trim, bound.2.2⟩ := by
    obtain ⟨_, -, h₁⟩ := bind_eq_ok.1 h₁
    obtain ⟨action, haction, h₂⟩ := bind_eq_ok.1 h₂
    obtain ⟨rfl, -⟩ := newId_eq_ok haction
    rw [withResource_ok h₃, ← Except.ok.inj h₂, ← Except.ok.inj h₁]
    rfl
  have hb₄ := bindSubject_ok (by rw [hb₃]; rfl) h₄
  rw [hb₃] at hb₄
  rw [bindFacts, foldl_relationship, hb₄, AuthzRequestBuilder.build] at h₅
  obtain ⟨p, hprincipal, h₅⟩ := bind_eq_ok.1 h₅
  obtain ⟨a, haction, h₅⟩ := bind_eq_ok.1 h₅
  obtain ⟨r, hresource, h₅⟩ := bind_eq_ok.1 h₅
  obtain ⟨_, -, h₅⟩ := bind_eq_ok.1 h₅
  have hp : principal = p := Except.ok.inj hprincipal
  have ha : ⟨Text.trim extraction.action⟩ = a := Except.ok.inj haction
  have hr : ⟨Text.trim bound.1, bound.2.1.map Text.trim, bound.2.2⟩ = r := Except.ok.inj hresource
  rw [← Except.ok.inj h, ← Except.ok.inj h₅, ← hp, ← ha, ← hr]
  rfl

/-- The direct reports an utterance is said to name. -/
theorem extractStructured_directReports {captures : String → String → Option String}
    {utterance : String} {extraction : NlExtraction}
    (h : extractStructured captures utterance = .ok extraction) :
    extraction.directReports = [] ∨ extraction.directReports = ["employee:alice"] := by
  unfold extractStructured at h
  dsimp only at h
  split at h
  · exact Or.inr (by rw [← Except.ok.inj h])
  split at h
  · exact Or.inl (by rw [← Except.ok.inj h])
  split at h
  · exact Or.inl (by rw [← Except.ok.inj h])
  split at h
  · exact Or.inl (by rw [← Except.ok.inj h])
  split at h
  · exact Or.inl (by rw [← Except.ok.inj h])
  split at h
  · exact Or.inr (by rw [← Except.ok.inj h])
  · cases h

/-- **When two prompts assert the same edges.** Two bound requests of one principal have the same
relationship edges exactly when their extractions list the same direct reports. -/
theorem same_edges_iff {principal : Principal} {catalog : Option ResourceCatalog}
    {e₁ e₂ : NlExtraction} {req₁ req₂ : AuthzRequest}
    (h₁ : bindExtraction principal e₁ catalog = .ok req₁)
    (h₂ : bindExtraction principal e₂ catalog = .ok req₂) :
    req₁.relationships = req₂.relationships ↔ e₁.directReports = e₂.directReports := by
  rw [bindExtraction_eq h₁, bindExtraction_eq h₂]
  refine (List.map_injective_iff.2 fun dr dr' hdr => ?_).eq_iff
  exact congrArg Relationship.«to» hdr

/-- What a prompt about travel says about the organisation, and what one about the own profile
says. -/
def travelExtraction : NlExtraction :=
  ⟨"alice travel", "READ", "TRAVEL_EXPENSE", some "db.hr.travel_expenses", some "employee:alice",
    ["ENGINEERING"], ["employee:alice"], "0.9"⟩

def profileExtraction : NlExtraction :=
  ⟨"my profile", "READ", "EMPLOYEE_PROFILE", some "employee.self_profile", none, [], [], "0.75"⟩

theorem bind_travel : bindExtraction (Principal.withRoles "bob" []) travelExtraction none =
    .ok (boundRequest (Principal.withRoles "bob" []) travelExtraction none) := by
  decide +kernel

theorem bind_profile : bindExtraction (Principal.withRoles "bob" []) profileExtraction none =
    .ok (boundRequest (Principal.withRoles "bob" []) profileExtraction none) := by
  decide +kernel

/-- Two extractions that list the same direct report have the same edges. -/
theorem same_edges_travel_profile :
    (boundRequest (Principal.withRoles "bob" []) travelExtraction none).relationships =
      (boundRequest (Principal.withRoles "bob" []) profileExtraction none).relationships ↔
    ["employee:alice"] = ([] : List String) :=
  same_edges_iff bind_travel bind_profile

/-- Two prompts of the same principal give different edges, and the one that mentions a colleague
makes her a direct report of whoever asks. -/
theorem travel_asserts_direct_report :
    extractStructured (fun _ _ => none) "alice travel" = .ok travelExtraction ∧
    extractStructured (fun _ _ => none) "my profile" = .ok profileExtraction ∧
    ∃ req₁ req₂, bindExtraction (Principal.withRoles "bob" []) travelExtraction none = .ok req₁ ∧
      bindExtraction (Principal.withRoles "bob" []) profileExtraction none = .ok req₂ ∧
      req₁.relationships ≠ req₂.relationships ∧ subjectInDirectReports req₁ = true :=
  ⟨by decide +kernel, by decide +kernel, _, _, bind_travel, bind_profile, by decide +kernel,
    by decide +kernel⟩

end Paac
