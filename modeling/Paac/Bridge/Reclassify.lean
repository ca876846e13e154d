import Paac.Bridge.Padding
import Paac.Library.FirstMatch

set_option autoImplicit false

/-!
# The kind of a bound request

An extraction without a resource id is bound to the first catalog entry of its kind or with the kind
in its name. The bound request is of the extracted kind as long as no entry that only carries the
kind in its name comes first. Kinds are compared without regard to case and to white space at their
ends, as the kinds of policies are.

## Main results

- `eqIgnoreAsciiCase_trim`: trimming does not change how kinds compare.
- `findByKind_isOfKind_iff`: the lookup by kind finds entries of the kind only exactly when one of
  them comes before every other entry that has the kind in its name (`KindBeforeName`).
- `bindExtraction_keeps_kind_iff`: so binding keeps the kind of an extraction without a resource id
  exactly under that condition on the catalog.
- `bindExtraction_reclassifies`: an unclassified prompt becomes one about vendors.
-/

namespace Paac

/-! ## Case and padding -/

namespace Text

theorem isWhitespace_of_isAlpha {c : Char} (h : c.isAlpha = true) : isWhitespace c = false := by
  have hletter : (65 ≤ c.toNat ∧ c.toNat ≤ 90) ∨ (97 ≤ c.toNat ∧ c.toNat ≤ 122) := by
    simpa [Char.isAlpha, Char.isUpper, Char.isLower, UInt32.le_iff_toNat_le] using h
  simp only [isWhitespace, Bool.or_eq_false_iff, Bool.and_eq_false_iff, decide_eq_false_iff_not,
    beq_eq_false_iff_ne]
  omega

theorem isWhitespace_toLower (c : Char) : isWhitespace c.toLower = isWhitespace c := by
  by_cases hupper : c.isUpper = true
  · -- a letter is whitespace in neither case
    have halpha : c.isAlpha = true := by rw [Char.isAlpha, hupper, Bool.true_or]
    rw [isWhitespace_of_isAlpha halpha, isWhitespace_of_isAlpha]
    rw [Char.isAlpha_toLower_eq_isAlpha, halpha]
  · rw [Char.toLower_eq_of_not_isUpper hupper]

theorem toAsciiLowercase_trim (s : String) :
    toAsciiLowercase (trim s) = trim (toAsciiLowercase s) := by
  have hcomp : isWhitespace ∘ Char.toLower = isWhitespace := funext isWhitespace_toLower
  rw [toAsciiLowercase, toAsciiLowercase, trim, trim, ← String.toList_inj]
  simp only [String.toList_ofList, List.rdropWhile, List.dropWhile_map, hcomp, ← List.map_reverse]

/-- Padding makes no difference to texts that agree up to case. -/
theorem eqIgnoreAsciiCase_trim {s t : String} (h : eqIgnoreAsciiCase s t = true) :
    eqIgnoreAsciiCase (trim s) (trim t) = true := by
  rw [eqIgnoreAsciiCase, beq_iff_eq] at h ⊢
  rw [toAsciiLowercase_trim, toAsciiLowercase_trim, h]

theorem eqIgnoreAsciiCase_self (s : String) : eqIgnoreAsciiCase s s = true := by
  rw [eqIgnoreAsciiCase, beq_self_eq_true]

end Text

/-! ## What the fallback search answers -/

/-- The test of `findByKind`. -/
def CatalogResource.answersKind (kind : String) (r : CatalogResource) : Bool :=
  Text.eqIgnoreAsciiCase r.kind kind ||
    Text.contains (Text.toAsciiLowercase kind) (Text.toAsciiLowercase r.name)

/-- The entry is of the given kind, up to case and padding. -/
def CatalogResource.IsOfKind (kind : String) (r : CatalogResource) : Prop :=
  Text.eqIgnoreAsciiCase (Text.trim r.kind) (Text.trim kind) = true

/-- An entry of another kind that has the kind in its name comes after one that is found and is of
the kind. -/
def ResourceCatalog.KindBeforeName (c : ResourceCatalog) (kind : String) : Prop :=
  ∀ before r after, c.resources = before ++ r :: after →
    Text.contains (Text.toAsciiLowercase kind) (Text.toAsciiLowercase r.name) = true →
    ¬r.IsOfKind kind → ∃ r' ∈ before, r'.answersKind kind = true ∧ r'.IsOfKind kind

/-- A lookup by kind finds an entry of the kind exactly when none that only names it comes first. -/
theorem findByKind_isOfKind_iff {c : ResourceCatalog} {kind : String} :
    (∀ r, c.findByKind kind = some r → r.IsOfKind kind) ↔ c.KindBeforeName kind := by
  have hfirst := @find?_good_iff _ (CatalogResource.answersKind kind) (CatalogResource.IsOfKind kind)
    c.resources
  apply hfirst.trans
  constructor
  · intro h before r after hl hname hother
    apply h before r after hl _ hother
    rw [CatalogResource.answersKind, hname, Bool.or_true]
  · intro h before r after hl hanswer hother
    -- an entry of another kind answers by its name only
    have hname : Text.contains (Text.toAsciiLowercase kind) (Text.toAsciiLowercase r.name) = true := by
      rw [CatalogResource.answersKind, Bool.or_eq_true] at hanswer
      rcases hanswer with hkind | hname
      · exact absurd (Text.eqIgnoreAsciiCase_trim hkind) hother
      · exact hname
    exact h before r after hl hname hother

/-! ## The kind of a bound request -/

/-- **Binding keeps the kind** of an extraction without a resource id exactly when no catalog entry
of another kind is found by its name first. -/
theorem bindExtraction_keeps_kind_iff (principal : Principal) (extraction : NlExtraction)
    (catalog : Option ResourceCatalog) (req : AuthzRequest) (hid : extraction.resourceId = none)
    (hreq : bindExtraction principal extraction catalog = .ok req) :
    Text.eqIgnoreAsciiCase req.resource.kind (Text.trim extraction.resourceKind) = true ↔
      ∀ c, catalog = some c → c.KindBeforeName extraction.resourceKind := by
  rw [(bindExtraction_parts hreq).2]
  cases catalog with
  | none =>
      simp [boundResource, Text.eqIgnoreAsciiCase_self]
  | some c =>
      have hfound := @findByKind_isOfKind_iff c extraction.resourceKind
      -- without a resource of the kind, the kind stays as it was extracted
      cases hfind : c.findByKind extraction.resourceKind with
      | none =>
          have hkept : c.KindBeforeName extraction.resourceKind := by
            apply hfound.1
            intro r hr
            rw [hfind] at hr
            cases hr
          simp [boundResource, hid, hfind, Text.eqIgnoreAsciiCase_self, hkept]
      | some r =>
          have hkind : r.IsOfKind extraction.resourceKind ↔
              c.KindBeforeName extraction.resourceKind := by
            rw [← hfound, hfind]
            simp
          simpa [boundResource, hid, hfind, CatalogResource.IsOfKind] using hkind

/-! ### Two catalogs -/

namespace Reclassify

/-- The proposal for a prompt that nothing classifies. -/
def unclassified : NlExtraction :=
  ⟨"tell me a joke", "READ", "UNKNOWN", none, none, [], [], "0.1"⟩

def vendors : CatalogResource := ⟨"db.vendors", "VENDOR", "Unknown vendors", none, none, .empty⟩

def salaries : CatalogResource := ⟨"db.salary", "SALARY", "Salaries", none, none, .empty⟩

def principal : Principal := Principal.withRoles "user:hr-head" ["HR_HEAD"]

/-- Both catalogs bind the proposal. -/
theorem bindExtraction_unclassified : ∀ r ∈ [vendors, salaries],
    bindExtraction principal unclassified (some ⟨"1", [r], []⟩) =
      .ok (boundRequest principal unclassified (some ⟨"1", [r], []⟩)) := by
  intro r hr
  have hchecks : ∀ r ∈ [vendors, salaries],
      (Text.trim (boundResource unclassified (some ⟨"1", [r], []⟩)).1).isEmpty = false ∧
        (boundResource unclassified (some ⟨"1", [r], []⟩)).2.1.all
          (fun i => !(Text.trim i).isEmpty) = true := by
    decide
  obtain ⟨hkind, hid⟩ := hchecks r hr
  apply bindExtraction_boundRequest
  · decide
  · decide
  · exact hkind
  · intro i hi
    rw [hi] at hid
    simpa using hid
  · intro i hi
    cases hi

end Reclassify

open Reclassify in
/-- An unclassified prompt keeps its kind where no entry names it. -/
theorem bindExtraction_keeps_kind_unclassified :
    Text.eqIgnoreAsciiCase
      (boundRequest principal unclassified (some ⟨"1", [salaries], []⟩)).resource.kind
      (Text.trim "UNKNOWN") = true := by
  apply (bindExtraction_keeps_kind_iff principal unclassified (some ⟨"1", [salaries], []⟩) _ rfl
    (bindExtraction_unclassified salaries (by decide))).2
  rintro c ⟨⟩
  apply findByKind_isOfKind_iff.1
  intro r hr
  have hnone : ResourceCatalog.findByKind ⟨"1", [salaries], []⟩ "UNKNOWN" = none := by decide
  rw [show unclassified.resourceKind = "UNKNOWN" from rfl, hnone] at hr
  cases hr

open Reclassify in
/-- The name of the vendor table turns an unclassified prompt into a request about vendors. -/
theorem bindExtraction_reclassifies :
    unclassified.resourceId = none ∧
      bindExtraction principal unclassified (some ⟨"1", [vendors], []⟩) =
        .ok (boundRequest principal unclassified (some ⟨"1", [vendors], []⟩)) ∧
      (boundRequest principal unclassified (some ⟨"1", [vendors], []⟩)).resource.kind = "VENDOR" ∧
      Text.eqIgnoreAsciiCase
        (boundRequest principal unclassified (some ⟨"1", [vendors], []⟩)).resource.kind
        (Text.trim unclassified.resourceKind) = false :=
  ⟨rfl, bindExtraction_unclassified vendors (by decide), by decide, by decide⟩

end Paac
