import Paac.Policy.Attributes
import Paac.Policy.Kept

set_option autoImplicit false

/-!
# What a `when` line restricts

A `when` line is read as a list of roles, and no role in the list means any role. So a line
restricts as long as it names a role: `role in []` names none, and `role ==` with nothing behind it
names the empty one. The roles are spliced into the generated text as they are, and a quote or a
backslash in a name changes what the text says; the text of plain names is read as the compiled
policy.

`DslPolicy.Restricts` is about both: the record lists roles, none of them empty, and what the
generated text says is satisfied only where the principal holds one of them. The condition is about
the lines as they are written (`Section.NamesRoles`), and about the names.

## Main results

- `parseList_ne_nil_iff`, `empty_not_mem_parseList`: which lists leave a role, and that none leaves
  an empty one.
- `readRoles_shows`: whether a line leaves a role, and whether it leaves an empty one, can be seen
  on the line.
- `whenRoles_show`: the same for all `when` lines of a section and the roles of its record.
- `satisfied_holds_role`: a compiled policy with roles is satisfied only where the principal holds
  one of them, whatever the free-form context says.
- `when_restricts`: a section whose record restricts names roles, and one that names roles restricts
  when its names are plain.
- `when_lifts_restriction`: an empty list lifts the restriction.
-/

namespace Paac

open Cedar (Record)

/-! ## Role lines as they are written -/

/-- A comparison with nothing behind it. -/
def BlankOperand (rest : String) : Prop := Text.trim rest = "role =="

/-- What stands between the brackets of a list. -/
def listBody (s : String) : String :=
  Text.trimEndMatchesChar ']' (Text.trimStartMatchesChar '[' (Text.trim s))

/-- The line compares with a role, or there is more than commas and blanks in its list. -/
def NamesRole (rest : String) : Prop :=
  (∃ r, Text.trim rest = "role ==" ++ r) ∨
    ∃ r, Text.trim rest = "role in " ++ r ∧
      ∃ c ∈ (listBody r).toList, c ≠ ',' ∧ Text.isWhitespace c = false

/-- Some `when` line names a role, and none ends behind its comparison. -/
def Section.NamesRoles (s : Section) : Prop :=
  (∃ rest ∈ s.whenTexts, NamesRole rest) ∧ ∀ rest ∈ s.whenTexts, ¬BlankOperand rest

/-! ## What is read on a role line -/

/-- A list has an item exactly when there is more than commas and blanks between its brackets. -/
theorem parseList_ne_nil_iff {s : String} :
    parseList s ≠ [] ↔ ∃ c ∈ (listBody s).toList, c ≠ ',' ∧ Text.isWhitespace c = false := by
  have hitems : parseList s ≠ [] ↔ ∃ piece ∈ Text.splitChars ',' (listBody s).toList,
      ∃ c ∈ piece, Text.isWhitespace c = false := by
    rw [parseList, Ne, List.filter_eq_nil_iff, Text.split, List.map_map]
    simp only [List.mem_map, Function.comp, forall_exists_index, and_imp,
      forall_apply_eq_imp_iff₂, Bool.not_eq_true', not_forall, Bool.not_eq_false, exists_prop]
    apply exists_congr
    intro piece
    apply and_congr_right
    intro _
    rw [String.isEmpty_iff, Text.trim_eq_empty_iff, String.toList_ofList]
    simp
  rw [hitems]
  constructor
  · rintro ⟨piece, hpiece, c, hc, hvisible⟩
    obtain ⟨hmem, hne⟩ := Text.exists_mem_splitChars.1 ⟨piece, hpiece, hc⟩
    exact ⟨c, hmem, hne, hvisible⟩
  · rintro ⟨c, hmem, hne, hvisible⟩
    obtain ⟨piece, hpiece, hc⟩ := Text.exists_mem_splitChars.2 ⟨hmem, hne⟩
    exact ⟨piece, hpiece, c, hc, hvisible⟩

theorem empty_not_mem_parseList (s : String) : "" ∉ parseList s := by
  intro h
  have hne := (List.mem_filter.1 h).2
  cases hne

/-- The roles that are read on a line, and whether one of them is empty, as the line shows. -/
theorem readRoles_shows {rest : String} {rs : List String} (h : readRoles rest = some rs) :
    (rs ≠ [] ↔ NamesRole rest) ∧ ("" ∈ rs ↔ BlankOperand rest) := by
  unfold readRoles at h
  cases h₁ : Text.stripPrefix "role ==" (Text.trim rest) with
  | some r =>
      rw [h₁] at h
      obtain rfl := Option.some.inj h
      have hline := Text.stripPrefix_eq_some h₁
      constructor
      · exact iff_of_true (List.cons_ne_nil _ _) (Or.inl ⟨r, hline⟩)
      · rw [List.mem_singleton, BlankOperand]
        constructor
        · intro hempty
          rw [hline, Text.eq_empty_of_trim_append hline hempty.symm]
          rfl
        · intro hblank
          have hr : r = "" := by
            have htext : "role ==" ++ r = "role ==" ++ "" := hline.symm.trans hblank
            exact (String.append_right_inj _).1 htext
          rw [hr]
          rfl
  | none =>
      rw [h₁] at h
      obtain ⟨r, h₂, rfl⟩ := Option.map_eq_some_iff.1 h
      have hline := Text.stripPrefix_eq_some h₂
      -- the line is no comparison
      have hno : ∀ r', Text.trim rest ≠ "role ==" ++ r' := by
        intro r' hr'
        rw [hr', Text.stripPrefix_append] at h₁
        cases h₁
      constructor
      · rw [parseList_ne_nil_iff]
        constructor
        · exact fun hc => Or.inr ⟨r, hline, hc⟩
        · rintro (⟨r', hr'⟩ | ⟨r', hr', hc⟩)
          · exact absurd hr' (hno r')
          · obtain rfl : r = r' := (String.append_right_inj _).1 (hline.symm.trans hr')
            exact hc
      · exact iff_of_false (empty_not_mem_parseList r) fun hblank => hno "" hblank

theorem exists_mem_iff_of_forall₂ {α β : Type} {R : α → β → Prop} {P : α → Prop} {Q : β → Prop}
    (h : ∀ a b, R a b → (P a ↔ Q b)) {as : List α} {bs : List β} (hall : List.Forall₂ R as bs) :
    (∃ a ∈ as, P a) ↔ ∃ b ∈ bs, Q b := by
  induction hall with
  | nil => simp
  | cons hab _ ih => simp [h _ _ hab, ih]

/-- **The roles of a record**, as the `when` lines of its section show: there is one when a line
names a role, and an empty one when a line ends behind its comparison. -/
theorem whenRoles_show {s : Section} {b : Block} {p : DslPolicy} (h : s.Yields b) (hp : p.Lists b) :
    (p.whenRoles ≠ [] ↔ ∃ rest ∈ s.whenTexts, NamesRole rest) ∧
      ("" ∈ p.whenRoles ↔ ∃ rest ∈ s.whenTexts, BlankOperand rest) := by
  have hlines : List.Forall₂ (fun rest rs => readRoles rest = some rs) s.whenTexts
      (roleLists b.clauses) := by
    refine List.rel_filterMap (fun st c hst => ?_) h.clauses
    -- only a `when` line becomes a list of roles
    cases st with
    | header rest =>
        obtain ⟨name, -, rfl⟩ := Option.map_eq_some_iff.1 hst
        exact .none
    | roles rest =>
        obtain ⟨rs, hrs, rfl⟩ := Option.map_eq_some_iff.1 hst
        exact .some hrs
    | rule e rest =>
        obtain ⟨action, resource, words, -, rfl⟩ := readRule_eq_some hst
        exact .none
    | subject rest =>
        obtain ⟨l, -, rfl⟩ := Option.map_eq_some_iff.1 hst
        exact .none
    | exempt rest =>
        obtain ⟨rs, -, rfl⟩ := Option.map_eq_some_iff.1 hst
        exact .none
  have hnamed : (∃ rest ∈ s.whenTexts, NamesRole rest) ↔ ∃ rs ∈ roleLists b.clauses, rs ≠ [] :=
    exists_mem_iff_of_forall₂ (P := NamesRole) (Q := (· ≠ []))
      (fun _ _ hrs => (readRoles_shows hrs).1.symm) hlines
  have hblank : (∃ rest ∈ s.whenTexts, BlankOperand rest) ↔ ∃ rs ∈ roleLists b.clauses, "" ∈ rs :=
    exists_mem_iff_of_forall₂ (P := BlankOperand) (Q := ("" ∈ ·))
      (fun _ _ hrs => (readRoles_shows hrs).2.symm) hlines
  rw [hp.whenRoles, hnamed, hblank, List.mem_flatten, Ne, List.flatten_eq_nil_iff]
  constructor
  · push Not
    rfl
  · rfl

/-! ## Compiled `when` lines -/

/-- The record lists roles, none of them empty, and what the generated text says is satisfied only
where the principal holds a listed role. -/
structure DslPolicy.Restricts (p : DslPolicy) : Prop where
  named : p.whenRoles ≠ []
  nonempty : "" ∉ p.whenRoles
  matched : ∀ cps, Cedar.parsePolicies (dslToCedar [p]) = some cps →
    ∀ (req : AuthzRequest) (ms : List (String × Json)) (q : Cedar.Request),
      Json.parse (buildContextJson req) = some (.obj ms) → q.context = Record.ofMembers ms →
        ∀ cp ∈ cps, cp.satisfied q = true → ∃ r ∈ p.whenRoles, r ∈ req.principal.roles

/-- The roles of the principal are in every context, whatever the free-form keys. -/
theorem lookup_principal_roles {req : AuthzRequest} {ms : List (String × Json)}
    (hms : Json.parse (buildContextJson req) = some (.obj ms)) :
    lookupEntry "principal_roles" (Record.ofMembers ms) =
      some (.set (req.principal.roles.map .str)) := by
  obtain ⟨head, -, hlookup⟩ := lookup_context hms (Or.inr (Or.inl rfl))
  rw [hlookup, ← Cedar.Value.ofItems_strs]
  rfl

/-- A compiled policy with roles is satisfied only where the principal holds one of them. -/
theorem satisfied_holds_role {p : DslPolicy} (hroles : p.whenRoles ≠ []) {req : AuthzRequest}
    {ms : List (String × Json)} {q : Cedar.Request}
    (hms : Json.parse (buildContextJson req) = some (.obj ms))
    (hcontext : q.context = Record.ofMembers ms) (h : (compile p).satisfied q = true) :
    ∃ r ∈ p.whenRoles, r ∈ req.principal.roles := by
  have hfactors := ((satisfied_compile_iff p q).1 h).2
  have hatom : ∀ r, Cedar.EvalsTo q.context (roleAtom r).expr (req.principal.roles.contains r) := by
    intro r
    apply Cedar.evalsTo_containsStr r
    rw [hcontext]
    exact lookup_principal_roles hms
  -- the conjunct on the roles is one of them
  have hall : ((anyFactor (p.whenRoles.map roleAtom)).map Cedar.Factor.expr).all
      (Cedar.holds q.context) = true := by
    rw [List.all_eq_true, List.forall_mem_map]
    intro f hf
    apply hfactors f
    rw [mem_factors]
    left
    simp [ungroupedFactors, hf]
  rw [holds_anyFactor hatom, List.isEmpty_eq_false_iff.2 hroles, Bool.false_or,
    List.any_eq_true] at hall
  obtain ⟨r, hr, hheld⟩ := hall
  exact ⟨r, hr, by simpa using hheld⟩

section

variable {s : Section} {b : Block} {p : DslPolicy}

theorem namesRoles_of_restricts (h : s.Yields b) (hp : p.Lists b) (hrestricts : p.Restricts) :
    s.NamesRoles := by
  obtain ⟨hnamed, hempty⟩ := whenRoles_show h hp
  refine ⟨hnamed.1 hrestricts.named, ?_⟩
  intro rest hrest hblank
  exact hrestricts.nonempty (hempty.2 ⟨rest, hrest, hblank⟩)

/-- A section that names roles restricts when its names are plain. -/
theorem restricts_of_namesRoles (h : s.Yields b) (hp : p.Lists b) (hnames : s.NamesRoles)
    (hplain : p.plainNames = true) : p.Restricts := by
  obtain ⟨hnamed, hempty⟩ := whenRoles_show h hp
  obtain ⟨hsome, hblank⟩ := hnames
  have hroles := hnamed.2 hsome
  refine ⟨hroles, ?_, ?_⟩
  · intro hmem
    obtain ⟨rest, hrest, hoperand⟩ := hempty.1 hmem
    exact hblank rest hrest hoperand
  · intro cps hcps req ms q hms hcontext cp hcp hsatisfied
    -- plain names stay in their literals, so the text is the compiled policy
    have hparse : Cedar.parsePolicies (dslToCedar [p]) = some [compile p] :=
      parse_dslToCedar (by rw [List.all_cons, hplain, List.all_nil]; rfl)
    obtain rfl := Option.some.inj (hparse.symm.trans hcps)
    obtain rfl := List.mem_singleton.1 hcp
    exact satisfied_holds_role hroles hms hcontext hsatisfied

end

/-- **A `when` clause restricts** only when one of its lines names a role and none ends behind its
comparison; and it does restrict then, in a policy whose names are plain. -/
theorem when_restricts (input : String) (ps : List DslPolicy) (h : parseDsl input = .ok ps) :
    ∃ ss, readSections input = some ss ∧
      List.Forall₂ (fun s p => s.whenTexts ≠ [] →
        (DslPolicy.Restricts p → Section.NamesRoles s) ∧
          (Section.NamesRoles s → DslPolicy.plainNames p = true → DslPolicy.Restricts p)) ss ps := by
  obtain ⟨bs, hbs, hlists⟩ := parseDsl_reads h
  obtain ⟨ss, hss, hyields⟩ := readSections_yields hbs
  refine ⟨ss, hss, ?_⟩
  clear h hbs hss
  induction hyields generalizing ps with
  | nil =>
      cases hlists
      exact .nil
  | cons hs _ ih =>
      cases hlists with
      | cons hp hrest =>
          refine .cons (fun _ => ⟨?_, ?_⟩) (ih _ hrest)
          · exact namesRoles_of_restricts hs hp
          · exact restricts_of_namesRoles hs hp

/-! ### Two clauses -/

namespace Restricting

def text (clause : String) : String := "policy p\nwhen " ++ clause ++ "\nallow READ PAYROLL"

def policy (clause : String) (roles : List String) : DslPolicy :=
  ⟨"p", .allow, "READ", "PAYROLL", roles, [], [], [], text clause⟩

/-- A request of a principal without roles. -/
def facts : Facts := ⟨"READ", "PAYROLL", false, false, "", [], []⟩

end Restricting

open Restricting in
/-- A list with one role restricts. -/
theorem when_restricts_listed : (policy "role in [HR]" ["HR"]).Restricts := by
  obtain ⟨ss, hss, hall⟩ := when_restricts (text "role in [HR]") [policy "role in [HR]" ["HR"]]
    (by decide +kernel)
  have hsections : readSections (text "role in [HR]") =
      some [⟨"p", [.roles "role in [HR]", .rule .allow "READ PAYROLL"]⟩] := by decide +kernel
  obtain rfl := Option.some.inj (hsections.symm.trans hss)
  cases hall with
  | cons hp _ =>
      refine (hp (by decide)).2 ⟨⟨"role in [HR]", by decide, Or.inr ⟨"[HR]", by decide, 'H',
        by decide, by decide, by decide⟩⟩, ?_⟩ (by decide)
      intro rest hrest hblank
      obtain rfl : rest = "role in [HR]" := List.mem_singleton.1 hrest
      revert hblank
      unfold BlankOperand
      decide

open Restricting in
/-- An empty list lifts the restriction: the policy admits a principal without roles. -/
theorem when_lifts_restriction :
    parseDsl (text "role in []") = .ok [policy "role in []" []] ∧
      readSections (text "role in []") =
        some [⟨"p", [.roles "role in []", .rule .allow "READ PAYROLL"]⟩] ∧
      (policy "role in []" []).admits facts = true ∧
      ¬(policy "role in []" []).Restricts :=
  ⟨by decide +kernel, by decide +kernel, by decide, fun h => h.named rfl⟩

end Paac
