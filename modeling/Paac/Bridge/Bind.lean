import Paac.Bridge.Extract
import Paac.Catalog.Resources
import Paac.Core.Builder

set_option autoImplicit false

/-!
# Binding a proposal to a request

An extraction is bound to the catalog and to a principal. The result is a proposal for the
evaluator; it grants nothing by itself.

Binding finds the resource by the id of the extraction, or else by its kind: the first entry of that
kind, or with the kind in its name. The subject, the texts of the extraction and the edges to its
direct reports are then added by the request builder, in the order of the source, and the builder
trims what it keeps.

## Main results

- `bindSubject_keeps`, `bindFacts_keeps`: which parts of the builder a step leaves alone.
- `bindExtraction_parts`: principal, action and resource of a bound request.
-/

namespace Paac

/-- The entry bound to an extraction without a resource id: the first one of its kind, or with the
kind in its name. -/
def ResourceCatalog.findByKind (c : ResourceCatalog) (kind : String) : Option CatalogResource :=
  c.resources.find? fun r => Text.eqIgnoreAsciiCase r.kind kind ||
    Text.contains (Text.toAsciiLowercase kind) (Text.toAsciiLowercase r.name)

/-- Kind, id and attributes of the resource that an extraction is about. -/
def boundResource (extraction : NlExtraction) (catalog : Option ResourceCatalog) :
    String × Option String × IndexMap String :=
  let unbound := (extraction.resourceKind, extraction.resourceId, IndexMap.empty)
  match catalog with
  | none => unbound
  | some cat =>
    match extraction.resourceId with
    -- the id stays as it was extracted
    | some id =>
      match cat.findResource id with
      | some res => (res.kind, some id, res.insertLabels .empty)
      | none => unbound
    | none =>
      -- without one the first entry found for the kind gives its id
      match cat.findByKind extraction.resourceKind with
      | some res => (res.kind, some res.id, res.insertLabels .empty)
      | none => unbound

/-- The subject of the extraction, if it has one. -/
def bindSubject (extraction : NlExtraction) (b : AuthzRequestBuilder) :
    Except AuthzError AuthzRequestBuilder :=
  match extraction.subjectId with
  | some subj => b.withSubject subj extraction.subjectGroups
  | none => .ok b

/-- The texts of the extraction and its direct reports. -/
def bindFacts (principalId : String) (extraction : NlExtraction) (b : AuthzRequestBuilder) :
    AuthzRequestBuilder :=
  extraction.directReports.foldl (fun b dr => b.relationship ⟨.directReports, principalId, dr⟩)
    (((b.contextKv "nl_utterance" extraction.utterance).contextKv "extraction_confidence"
      extraction.confidence).contextKv "proposal_only" "true")

/-- `bind_extraction` up to the error type. -/
def buildProposal (principal : Principal) (extraction : NlExtraction)
    (catalog : Option ResourceCatalog) : Except AuthzError AuthzRequest := do
  let (resourceKind, resourceId, attrs) := boundResource extraction catalog
  let b ← AuthzRequestBuilder.new.principalObj principal
  let b ← b.withAction extraction.action
  let b ← b.withResource resourceKind resourceId attrs
  let b ← bindSubject extraction b
  let req ← (bindFacts principal.id extraction b).build
  return { req with actingAs := some "agent:nl-bridge", onBehalfOf := some principal.id }

/-- `bind_extraction`. -/
def bindExtraction (principal : Principal) (extraction : NlExtraction)
    (catalog : Option ResourceCatalog) : Except BridgeError AuthzRequest :=
  mapErr .authz (buildProposal principal extraction catalog)

/-- `CatalogAwareBridge::build_request`. -/
def catalogAwareBuildRequest (captures : String → String → Option String)
    (defaultPrincipal : Principal) (catalog : Option ResourceCatalog) (utterance : String) :
    Except BridgeError AuthzRequest := do
  let extraction ← extractStructured captures utterance
  bindExtraction defaultPrincipal extraction catalog

/-! ## What a bound request says -/

/-- Binding the subject leaves principal and resource. -/
theorem bindSubject_keeps {extraction : NlExtraction} {b b' : AuthzRequestBuilder}
    (h : bindSubject extraction b = .ok b') :
    b'.principal = b.principal ∧ b'.resource = b.resource := by
  unfold bindSubject at h
  split at h
  · obtain ⟨id, -, h⟩ := bind_eq_ok.1 h
    rw [← Except.ok.inj h]
    exact ⟨rfl, rfl⟩
  · rw [Except.ok.inj h]
    exact ⟨rfl, rfl⟩

/-- Binding the facts leaves principal and resource. -/
theorem bindFacts_keeps (principalId : String) (extraction : NlExtraction)
    (b : AuthzRequestBuilder) :
    (bindFacts principalId extraction b).principal = b.principal ∧
      (bindFacts principalId extraction b).resource = b.resource := by
  unfold bindFacts
  generalize hb : ((b.contextKv "nl_utterance" extraction.utterance).contextKv
    "extraction_confidence" extraction.confidence).contextKv "proposal_only" "true" = b₀
  have hb₀ : b₀.principal = b.principal ∧ b₀.resource = b.resource := by
    rw [← hb]
    exact ⟨rfl, rfl⟩
  rw [← hb₀.1, ← hb₀.2]
  clear hb hb₀
  induction extraction.directReports generalizing b₀ with
  | nil => exact ⟨rfl, rfl⟩
  | cons dr drs ih => exact ih (b₀.relationship ⟨.directReports, principalId, dr⟩)

/-- A bound request is about the principal as given and the bound resource, kind and id trimmed. -/
theorem bindExtraction_parts {principal : Principal} {extraction : NlExtraction}
    {catalog : Option ResourceCatalog} {req : AuthzRequest}
    (h : bindExtraction principal extraction catalog = .ok req) :
    req.principal = principal ∧
      req.resource = ⟨Text.trim (boundResource extraction catalog).1,
        (boundResource extraction catalog).2.1.map Text.trim,
        (boundResource extraction catalog).2.2⟩ := by
  rw [bindExtraction, mapErr_eq_ok, buildProposal] at h
  obtain ⟨b₁, hprincipal, h⟩ := bind_eq_ok.1 h
  obtain ⟨b₂, haction, h⟩ := bind_eq_ok.1 h
  obtain ⟨b₃, hresource, h⟩ := bind_eq_ok.1 h
  obtain ⟨b₄, hsubject, h⟩ := bind_eq_ok.1 h
  obtain ⟨req', hbuild, h⟩ := bind_eq_ok.1 h
  -- the principal is set first, and no later step sets it again
  have hgiven : b₁.principal = some principal := by
    obtain ⟨_, -, hprincipal⟩ := bind_eq_ok.1 hprincipal
    rw [← Except.ok.inj hprincipal]
  have hkept : b₂.principal = b₁.principal := by
    obtain ⟨_, -, haction⟩ := bind_eq_ok.1 haction
    rw [← Except.ok.inj haction]
  obtain ⟨hasker, -, hbound, -⟩ := build_eq_ok hbuild
  rw [(bindFacts_keeps _ _ _).1, (bindSubject_keeps hsubject).1, withResource_ok hresource, hkept,
    hgiven] at hasker
  rw [(bindFacts_keeps _ _ _).2, (bindSubject_keeps hsubject).2, withResource_ok hresource] at hbound
  rw [← Except.ok.inj h]
  exact ⟨(Option.some.inj hasker).symm, (Option.some.inj hbound).symm⟩

end Paac
