import Paac.Catalog.Resources
import Paac.Library.FirstMatch

set_option autoImplicit false

/-!
# Which entry a lookup finds

Validation makes resource ids distinct, but a resource is also found under its kind, and the lookup
takes the first entry that has the text as its id or as its kind. Tool names may repeat, and the
first mapping of a name is taken.

## Main results

- `findResource_own_iff`: every resource of a validated catalog is found under its id exactly when
  no entry whose kind is that id comes before it.
- `lookup_finds_entry_iff`: the same with the tools, no two different ones of which may share a
  name.
- `lookup_finds_other`: an id that is the kind of an earlier entry finds that entry.
-/

namespace Paac

/-- Every listed resource is found under its id, and every listed mapping under its tool name. -/
def ResourceCatalog.FindsEntries (c : ResourceCatalog) : Prop :=
  (∀ r ∈ c.resources, c.findResource r.id = some r) ∧ ∀ t ∈ c.tools, c.findTool t.toolName = some t

/-- No resource has the id of a later one as its kind. -/
def ResourceCatalog.KindsApart (c : ResourceCatalog) : Prop :=
  c.resources.Pairwise fun r' r => r'.kind ≠ r.id

/-- No two different mappings have one tool name. -/
def ResourceCatalog.ToolsApart (c : ResourceCatalog) : Prop :=
  ∀ t ∈ c.tools, ∀ t' ∈ c.tools, t.toolName = t'.toolName → t = t'

/-- Every entry is found under its id exactly when no kind before it is that id. -/
theorem findResource_own_iff {c : ResourceCatalog} (hvalid : validateCatalog c = .ok ()) :
    (∀ r ∈ c.resources, c.findResource r.id = some r) ↔ c.KindsApart := by
  have hids : (c.resources.map CatalogResource.id).Nodup := nodup_of_validateCatalog hvalid
  have hown := @find?_own_iff _ (fun r r' : CatalogResource => r'.id = r.id || r'.kind = r.id)
    (fun r => by simp) _ hids.of_map
  refine hown.trans ?_
  -- an earlier resource has another id, so only its kind can answer
  have hdistinct : c.resources.Pairwise fun r' r => r'.id ≠ r.id := List.pairwise_map.1 hids
  unfold ResourceCatalog.KindsApart
  constructor
  · intro h
    apply h.imp
    intro r' r hanswer hkind
    simp [hkind] at hanswer
  · intro h
    apply (h.and hdistinct).imp
    rintro r' r ⟨hkind, hid⟩
    simp [hkind, hid]

/-- **The lookups of a validated catalog find the entry named** exactly when kinds do not repeat later
ids and tool names do not repeat. -/
theorem lookup_finds_entry_iff (c : ResourceCatalog) (hvalid : validateCatalog c = .ok ()) :
    c.FindsEntries ↔ c.KindsApart ∧ c.ToolsApart :=
  and_congr (findResource_own_iff hvalid) find?_key_iff

/-! ### Two catalogs -/

namespace Lookup

def resource (id kind : String) : CatalogResource := ⟨id, kind, "", none, none, .empty⟩

def mapping (action : String) : ToolMapping := ⟨"export", action, "REPORT", none, .empty, .empty⟩

/-- The first resource is of a kind that is the id of the second. -/
def catalog : ResourceCatalog :=
  ⟨"1", [resource "handbook" "payroll", resource "payroll" "SALARY"], []⟩

def listed : ResourceCatalog :=
  ⟨"1", [resource "payroll" "SALARY", resource "handbook" "GUIDE"], [mapping "READ"]⟩

end Lookup

open Lookup in
/-- A catalog with kinds and ids apart finds its entries. -/
theorem lookup_finds_entry_listed :
    listed.findResource "payroll" = some (resource "payroll" "SALARY") ∧
      listed.findTool "export" = some (mapping "READ") := by
  obtain ⟨hresources, htools⟩ := (lookup_finds_entry_iff listed (by decide)).2
    ⟨by unfold ResourceCatalog.KindsApart; decide, by unfold ResourceCatalog.ToolsApart; decide⟩
  exact ⟨hresources (resource "payroll" "SALARY") (by decide), htools (mapping "READ") (by decide)⟩

open Lookup in
/-- The payroll's id finds the handbook. -/
theorem lookup_finds_other :
    validateCatalog catalog = .ok () ∧
      resource "payroll" "SALARY" ∈ catalog.resources ∧
      catalog.findResource "payroll" = some (resource "handbook" "payroll") ∧
      ¬catalog.FindsEntries := by
  refine ⟨by decide, by decide, by decide, ?_⟩
  rintro ⟨hresources, -⟩
  have hfound := hresources (resource "payroll" "SALARY") (by decide)
  revert hfound
  decide

end Paac
