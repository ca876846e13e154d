import Paac.Bridge.Bind

set_option autoImplicit false

/-!
# One resource behind three entry points

A tool call, a retrieval and a proposal can name the same catalogued resource. A tool call carries
the kind of its mapping; the other two carry the kind of the entry. A policy that names one of the
two kinds therefore speaks of the resource at some of its entry points only.

## Main results

- `kind_of_entry_points`: when no entry before the resource has its id as a kind, a call of a mapped
  tool that names the resource has its id and its attributes, but the kind of the mapping; a
  retrieval and a proposal have its own kind.
- `kinds_differ`: in a catalog with an SQL tool the two kinds differ.
-/

namespace Paac

/-- **The kinds of the entry points**, when no entry before the resource has its id as a kind. A
call of a mapped tool that names the resource has its id and its attributes, but the kind of the
mapping. A retrieval of the resource has the kind of its entry, and a proposal that names it has
that kind trimmed. -/
theorem kind_of_entry_points {c : ResourceCatalog} (hvalid : validateCatalog c = .ok ())
    {before after : List CatalogResource} {r : CatalogResource}
    (hr : c.resources = before ++ r :: after) (hkind : ∀ r' ∈ before, r'.kind ≠ r.id)
    (principal : Principal) :
    (∀ (toolName : String) (m : ToolMapping) (args : Json), c.findTool toolName = some m →
      ResourceCatalog.argResourceId m args = some r.id →
        (c.authzForTool principal toolName args).resource =
          ⟨m.resourceKind, some r.id, r.insertAttrs m.defaultAttrs⟩) ∧
    (∀ documentId, (c.authzForRetrieve principal r.id documentId).resource.kind = r.kind) ∧
    ∀ (extraction : NlExtraction) (req : AuthzRequest), extraction.resourceId = some r.id →
      bindExtraction principal extraction (some c) = .ok req →
        req.resource.kind = Text.trim r.kind := by
  -- all three entry points look the id up in the same list
  have hfound := findResource_id hvalid hr hkind
  refine ⟨?_, ?_, ?_⟩
  · intro toolName m args htool hid
    simp only [ResourceCatalog.authzForTool, htool, hid, Option.bind_some, hfound]
    rfl
  · intro documentId
    simp only [ResourceCatalog.authzForRetrieve, hfound]
  · intro extraction req hid hbind
    rw [(bindExtraction_parts hbind).2]
    simp only [boundResource, hid, hfound]

/-- Two tables of the human resources department and the tool that queries tables. -/
def hrCatalog : ResourceCatalog :=
  { version := "1.0"
    resources :=
      [⟨"db.hr.employees", "DB_TABLE", "employees", some "HR", some "PII", .empty⟩,
        ⟨"db.hr.travel_expenses", "TRAVEL_EXPENSE", "travel_expenses", some "HR",
          some "CONFIDENTIAL", .empty⟩]
    tools := [⟨"sql_query", "TOOL_INVOKE", "DB_TABLE", some "table", .empty, .empty⟩] }

/-- The entry of the travel expenses. -/
def travelExpenses : CatalogResource :=
  ⟨"db.hr.travel_expenses", "TRAVEL_EXPENSE", "travel_expenses", some "HR", some "CONFIDENTIAL",
    .empty⟩

/-- The travel expenses behind the three entry points of that catalog. -/
theorem kind_of_travel_expenses :
    (∀ (toolName : String) (m : ToolMapping) (args : Json), hrCatalog.findTool toolName = some m →
      ResourceCatalog.argResourceId m args = some travelExpenses.id →
        (hrCatalog.authzForTool (Principal.withRoles "bob" []) toolName args).resource =
          ⟨m.resourceKind, some travelExpenses.id, travelExpenses.insertAttrs m.defaultAttrs⟩) ∧
    (∀ documentId, (hrCatalog.authzForRetrieve (Principal.withRoles "bob" []) travelExpenses.id
      documentId).resource.kind = "TRAVEL_EXPENSE") ∧
    ∀ (extraction : NlExtraction) (req : AuthzRequest),
      extraction.resourceId = some travelExpenses.id →
      bindExtraction (Principal.withRoles "bob" []) extraction (some hrCatalog) = .ok req →
        req.resource.kind = Text.trim "TRAVEL_EXPENSE" :=
  @kind_of_entry_points hrCatalog (by decide)
    [⟨"db.hr.employees", "DB_TABLE", "employees", some "HR", some "PII", .empty⟩] []
    travelExpenses rfl (by decide) _

/-- The kinds do differ: a query of the travel expenses is about a table; a retrieval of an entry
behind one whose kind is its id gets the other kind; and a proposal trims the kind. -/
theorem kinds_differ :
    (validateCatalog hrCatalog = .ok () ∧
      (hrCatalog.authzForTool (Principal.withRoles "bob" []) "sql_query"
        (.obj [("table", .str "db.hr.travel_expenses")])).resource.kind ≠ "TRAVEL_EXPENSE") ∧
    (validateCatalog ⟨"1.0", [⟨"a", "b", "", none, none, .empty⟩, ⟨"b", "DOC", "", none, none,
        .empty⟩], []⟩ = .ok () ∧
      (ResourceCatalog.authzForRetrieve ⟨"1.0", [⟨"a", "b", "", none, none, .empty⟩,
        ⟨"b", "DOC", "", none, none, .empty⟩], []⟩ (Principal.withRoles "bob" []) "b"
        none).resource.kind ≠ "DOC") ∧
    validateCatalog ⟨"1.0", [⟨"a", " DOC", "", none, none, .empty⟩], []⟩ = .ok () ∧
      ((bindExtraction (Principal.withRoles "bob" []) ⟨"u", "READ", "DOC", some "a", none, [], [],
        "0.9"⟩ (some ⟨"1.0", [⟨"a", " DOC", "", none, none, .empty⟩], []⟩)).toOption.map
          (·.resource.kind)) = some "DOC" := by
  decide +kernel

end Paac
