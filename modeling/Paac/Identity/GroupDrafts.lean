import Paac.Identity.Ldap
import Paac.Policy.Generated

set_option autoImplicit false

/-!
# Draft policies for the groups of a snapshot

Three generators write a policy text for the groups of a snapshot: each group may read profiles, and
the name of a group may ask for two denials. They differ in their wording and in how they normalise
the name, and are one definition with the wording as a parameter (`DraftStyle`).

A generator puts the name into a bracketed list as it is, so its text means what it says exactly
when the list reads as that one name: the name is not empty and has no comma, and neither a blank
nor a bracket at its ends. A comment mark cuts the line short and a line feed ends it, which is
asked of the whole line. The text is read block by block, and what is read is compared with the
policies meant, raw texts apart.

## Main results

- `parseList_item_iff`: which names a bracketed list reads as themselves.
- `opens_profile`, `opens_protect`, `opens_payroll`: the lines of each policy are one block.
- `readBlocks_draft`: the blocks of a whole draft, by induction on its groups.
- `draftText_means_iff`: for every list of groups, the draft parses to the policies meant exactly
  when each name is one item and holds neither a comment mark nor a line feed.
- `ldapStyle_plain`, `autoDiscoveredStyle_plain`, `idpStyle_plain`: the generators are instances.
-/

namespace Paac

/-! ## The generators -/

/-- The wording of a generator. -/
structure DraftStyle where
  /-- The lines before the first policy. -/
  header : List String
  /-- The name of a group as a role. -/
  gid : String → String
  profileId : String → String
  /-- Does the role ask for the denial of expenses? -/
  protects : String → Bool
  protectId : String → String
  payrollId : String

namespace DraftStyle

variable (st : DraftStyle)

def profileLines (gid : String) : List String :=
  ["policy \"" ++ st.profileId gid ++ "\"",
    "when role in [" ++ gid ++ "]",
    "allow READ EMPLOYEE_PROFILE",
    "where subject == SELF",
    ""]

def protectLines (gid : String) : List String :=
  ["policy \"" ++ st.protectId gid ++ "\"",
    "deny READ TRAVEL_EXPENSE",
    "where subject in EXECUTIVE_GROUP",
    "unless role in [CFO, CEO]",
    ""]

def payrollLines : List String :=
  ["policy \"" ++ st.payrollId ++ "\"",
    "deny EXPORT SALARY",
    "unless role == PAYROLL_ADMIN",
    ""]

/-- The text for a role; each line ends with a line feed. -/
def groupText (gid : String) : String :=
  Text.logText (st.profileLines gid) ++
    (if st.protects gid then Text.logText (st.protectLines gid) else "") ++
    if Text.contains "PAYROLL" gid then Text.logText st.payrollLines else ""

/-- The text for the groups of a snapshot. -/
def draftText (snapshot : IdentitySnapshot) : String :=
  snapshot.groups.foldl (fun out g => out ++ st.groupText (st.gid g.name)) (Text.logText st.header)

end DraftStyle

def ldapStyle : DraftStyle where
  header := ["# DRAFT policies generated from LDAP group sync",
    "# Review and commit manually — never auto-deployed.", ""]
  gid := Text.toAsciiUppercase
  profileId gid := "draft_group_" ++ gid ++ "_read_profile"
  protects gid := Text.contains "EXECUTIVE" gid || gid = "EXECUTIVE"
  protectId _ := "draft_protect_executive_expenses"
  payrollId := "draft_payroll_salary_export"

/-- The role of the two generators that also replace spaces. -/
def underscored (name : String) : String := Text.replaceChar ' ' "_" (Text.toAsciiUppercase name)

def idpStyle (idp : String) : DraftStyle where
  header := ["# DRAFT policies from " ++ idp ++
    " sync — review, commit, sign, deploy. Never auto-applied.", ""]
  gid := underscored
  profileId gid := "draft_" ++ idp ++ "_" ++ gid ++ "_self_profile"
  protects gid := Text.contains "EXEC" gid || Text.contains "FINANCE" gid
  protectId gid := "draft_" ++ idp ++ "_" ++ gid ++ "_protect_exec_expense"
  payrollId := "draft_payroll_export"

def autoDiscoveredStyle : DraftStyle where
  header := ["# Auto-Discovered baseline policies across LDAP, AD, Entra ID, and Cognito stores.",
    "# Review and commit manually — never auto-deployed.", ""]
  gid := underscored
  profileId gid := "auto_discovered_" ++ gid ++ "_self_profile"
  protects gid := Text.contains "EXEC" gid || Text.contains "FINANCE" gid
  protectId gid := "auto_discovered_" ++ gid ++ "_protect_exec_expense"
  payrollId := "auto_discovered_payroll_salary_export"

/-- `LdapAdapter::draft_policies_from_groups`. -/
def draftPoliciesFromGroups (snapshot : IdentitySnapshot) : String := ldapStyle.draftText snapshot

/-- `default_drafts_from_groups`. -/
def defaultDraftsFromGroups (idp : String) (snapshot : IdentitySnapshot) : String :=
  (idpStyle idp).draftText snapshot

/-- `generate_auto_discovered_draft_policies`. -/
def generateAutoDiscoveredDraftPolicies (snapshot : IdentitySnapshot) : String :=
  autoDiscoveredStyle.draftText snapshot

/-! ## The intended policies -/

namespace DraftStyle

variable (st : DraftStyle)

/-- The policies for a role, with `roles` in the place of its list. -/
def policies (roles : List String) (gid : String) : List DslPolicy :=
  ⟨st.profileId gid, .allow, "READ", "EMPLOYEE_PROFILE", roles, ["SELF"], [], [], ""⟩ ::
    ((if st.protects gid then
        [⟨st.protectId gid, .deny, "READ", "TRAVEL_EXPENSE", [], [], ["CFO", "CEO"],
          ["EXECUTIVE"], ""⟩]
      else []) ++
    if Text.contains "PAYROLL" gid then
      [⟨st.payrollId, .deny, "EXPORT", "SALARY", [], [], ["PAYROLL_ADMIN"], [], ""⟩]
    else [])

/-- The policies that the generator means: each group by its own role. -/
def intended (snapshot : IdentitySnapshot) : List DslPolicy :=
  snapshot.groups.flatMap fun g => st.policies [st.gid g.name] (st.gid g.name)

end DraftStyle

/-! ## One name in brackets -/

/-- A text that is one item of a bracketed list. -/
structure IsListItem (g : String) : Prop where
  nonempty : g ≠ ""
  trimmed : Text.trim g = g
  noComma : ',' ∉ g.toList
  opens : g.toList.head? ≠ some '['
  closes : g.toList.getLast? ≠ some ']'

/-- The brackets of a list are trimmed with those of its text. -/
theorem parseList_brackets (g : String) : parseList ("[" ++ g ++ "]") =
    ((Text.split ',' (Text.trimEndMatchesChar ']' (Text.trimStartMatchesChar '[' g))).map
      Text.trim).filter fun x => !x.isEmpty := by
  have htrim : Text.trim ("[" ++ g ++ "]") = "[" ++ g ++ "]" := by
    rw [String.append_assoc, trim_start_end rfl rfl (endsVisibly_bracket.append _)]
  have hinner : Text.trimEndMatchesChar ']' (Text.trimStartMatchesChar '[' ("[" ++ g ++ "]")) =
      Text.trimEndMatchesChar ']' (Text.trimStartMatchesChar '[' g) := by
    have hchars : ("[" ++ g ++ "]").toList = '[' :: (g.toList ++ [']']) := by
      rw [String.toList_append, String.toList_append]
      rfl
    -- the closing bracket stops the first trim, even when the group is all brackets
    have hdrop : (g.toList ++ [']']).dropWhile (· == '[') =
        g.toList.dropWhile (· == '[') ++ [']'] := by
      rw [List.dropWhile_append]
      split
      · rename_i hempty
        rw [List.isEmpty_iff.1 hempty]
        rfl
      · rfl
    rw [Text.trimStartMatchesChar, hchars, List.dropWhile_cons_of_pos rfl, hdrop,
      Text.trimEndMatchesChar, String.toList_ofList, List.rdropWhile_concat_pos _ _ _ rfl,
      Text.trimEndMatchesChar, Text.trimStartMatchesChar, String.toList_ofList]
  rw [parseList, htrim, hinner]

/-- A bracketed name is read as itself when it is trimmed, has no comma and no bracket at its ends.
-/
theorem parseList_item_iff (g : String) : parseList ("[" ++ g ++ "]") = [g] ↔ IsListItem g := by
  rw [parseList_brackets]
  constructor
  · intro h
    have hmem : g ∈ ((Text.split ',' (Text.trimEndMatchesChar ']'
        (Text.trimStartMatchesChar '[' g))).map Text.trim).filter fun x => !x.isEmpty := by
      rw [h]
      exact List.mem_singleton_self g
    obtain ⟨hpiece, hne⟩ := List.mem_filter.1 hmem
    obtain ⟨piece, hpiece, htrim⟩ := List.mem_map.1 hpiece
    have hcomma : ',' ∉ g.toList := by
      rw [← htrim]
      exact fun hc => (Text.mem_split hpiece).2 ((Text.trim_sublist piece).subset hc)
    have htrimmed : Text.trim g = g := by
      rw [← htrim, Text.trim_trim]
    -- the trimmed text has no comma either, so it is the one piece
    have hone : Text.trim (Text.trimEndMatchesChar ']' (Text.trimStartMatchesChar '[' g)) = g := by
      rw [Text.split_of_not_mem, List.mem_singleton] at hpiece
      · rw [← hpiece, htrim]
      · intro hc
        apply hcomma
        apply (Text.trimStartMatchesChar_sublist '[' g).subset
        exact (Text.trimEndMatchesChar_sublist ']' _).subset hc
    -- it is as long as the name, so no bracket was trimmed
    have hstart := Text.trimStartMatchesChar_sublist '[' g
    have hend := Text.trimEndMatchesChar_sublist ']' (Text.trimStartMatchesChar '[' g)
    have hinner := Text.trim_sublist (Text.trimEndMatchesChar ']' (Text.trimStartMatchesChar '[' g))
    rw [hone] at hinner
    have hopens : Text.trimStartMatchesChar '[' g = g :=
      String.toList_inj.1 (hstart.antisymm (hinner.trans hend))
    rw [hopens] at hend hinner
    have hcloses : Text.trimEndMatchesChar ']' g = g :=
      String.toList_inj.1 (hend.antisymm hinner)
    refine ⟨?_, htrimmed, hcomma, (Text.trimStart_eq_self_iff _ _).1 hopens,
      (Text.trimEnd_eq_self_iff _ _).1 hcloses⟩
    rintro rfl
    cases hne
  · intro h
    rw [(Text.trimStart_eq_self_iff '[' g).2 h.opens, (Text.trimEnd_eq_self_iff ']' g).2 h.closes,
      Text.split_of_not_mem h.noComma, List.map_singleton, h.trimmed, List.filter_cons_of_pos,
      List.filter_nil]
    rw [Bool.not_eq_true', Bool.eq_false_iff, Ne, String.isEmpty_iff]
    exact h.nonempty

/-! ## Reading a draft -/

theorem logText_append (ls ls' : List String) :
    Text.logText (ls ++ ls') = Text.logText ls ++ Text.logText ls' := by
  rw [← String.toList_inj, String.toList_append, Text.toList_logText, Text.toList_logText,
    Text.toList_logText, List.flatMap_append]

/-- The line of a list with one name. -/
theorem readClause_roles (gid : String) :
    readClause ("when role in [" ++ gid ++ "]") =
      some (.roles (parseList ("[" ++ gid ++ "]"))) := by
  have hline : "when role in [" ++ gid ++ "]" = "when " ++ ("role in " ++ ("[" ++ gid ++ "]")) := by
    rw [← String.toList_inj]
    simp only [String.toList_append, ← List.append_assoc]
    rfl
  have hpolicy : Text.stripPrefix "policy " ("when " ++ ("role in " ++ ("[" ++ gid ++ "]"))) =
      none := stripPrefix_none (fun _ => rfl) _
  have htrim : Text.trim ("role in " ++ ("[" ++ gid ++ "]")) = "role in " ++ ("[" ++ gid ++ "]") := by
    exact trim_start_end rfl rfl (endsVisibly_bracket.append _)
  have hone : Text.stripPrefix "role ==" ("role in " ++ ("[" ++ gid ++ "]")) = none :=
    stripPrefix_none (fun _ => rfl) _
  rw [hline, readClause, hpolicy]
  dsimp only
  rw [Text.stripPrefix_append]
  dsimp only
  rw [readRoles, htrim, hone, Text.stripPrefix_append]
  rfl

namespace DraftStyle

variable (st : DraftStyle)

/-- The header says nothing, and the names that the generator writes are on one line, without a comment
mark when the role has none. -/
structure Plain : Prop where
  header : ∀ l ∈ st.header, statementOf l = "" ∧ '\n' ∉ l.toList
  profileId : ∀ gid, noMark gid = true → noMark (st.profileId gid) = true
  protectId : ∀ gid, noMark gid = true → noMark (st.protectId gid) = true
  payrollId : noMark st.payrollId = true

/-- The lines for a role, block by block. -/
def groupLines (gid : String) : List (List String) :=
  st.profileLines gid :: ((if st.protects gid then [st.protectLines gid] else []) ++
    if Text.contains "PAYROLL" gid then [st.payrollLines] else [])

/-- The blocks of these lines. -/
def groupBlocks (gid : String) : List Block :=
  ⟨st.profileId gid, [.roles (parseList ("[" ++ gid ++ "]")),
    .rule .allow "READ" "EMPLOYEE_PROFILE", .subject .self]⟩ ::
    ((if st.protects gid then
        [⟨st.protectId gid, [.rule .deny "READ" "TRAVEL_EXPENSE", .subject (.group "EXECUTIVE"),
          .exempt ["CFO", "CEO"]]⟩]
      else []) ++
    if Text.contains "PAYROLL" gid then
      [⟨st.payrollId, [.rule .deny "EXPORT" "SALARY", .exempt ["PAYROLL_ADMIN"]]⟩]
    else [])

theorem groupText_eq (gid : String) :
    st.groupText gid = Text.logText (st.groupLines gid).flatten := by
  rw [groupText, groupLines, List.flatten_cons, List.flatten_append, logText_append,
    logText_append, String.append_assoc]
  congr 2
  · split
    · rw [List.flatten_singleton]
    · rfl
  · split
    · rw [List.flatten_singleton]
    · rfl

/-- The lines of a draft. -/
theorem draftText_eq (snapshot : IdentitySnapshot) : st.draftText snapshot =
    Text.logText (st.header ++
      (snapshot.groups.flatMap fun g => st.groupLines (st.gid g.name)).flatten) := by
  rw [draftText, logText_append]
  generalize Text.logText st.header = out
  induction snapshot.groups generalizing out with
  | nil => exact String.append_empty.symm
  | cons g gs ih =>
      rw [List.foldl_cons, ih, groupText_eq, List.flatMap_cons, List.flatten_append,
        logText_append, String.append_assoc]

variable {st} {gid : String}

theorem statementOf_name {name : String} (h : noMark name = true) :
    statementOf ("policy \"" ++ name ++ "\"") = "policy \"" ++ name ++ "\"" := by
  apply IsStatement.statementOf
  refine ⟨by rw [noMark_append, noMark_append, h]; rfl, ?_⟩
  rw [String.append_assoc]
  exact trim_start_end rfl rfl (EndsVisibly.append ⟨'"', rfl, rfl⟩ name)

/-- The lines that let a group read profiles are one block. -/
theorem opens_profile (hst : st.Plain) (h : noMark gid = true) :
    Opens ((st.profileLines gid).map statementOf)
      ⟨st.profileId gid, [.roles (parseList ("[" ++ gid ++ "]")),
        .rule .allow "READ" "EMPLOYEE_PROFILE", .subject .self]⟩ := by
  have hrole : statementOf ("when role in [" ++ gid ++ "]") = "when role in [" ++ gid ++ "]" := by
    apply IsStatement.statementOf
    refine ⟨by rw [noMark_append, noMark_append, h]; rfl, ?_⟩
    rw [String.append_assoc]
    exact trim_start_end rfl rfl (endsVisibly_bracket.append gid)
  rw [profileLines, List.map_cons, statementOf_name (hst.profileId gid h), List.map_cons, hrole]
  apply Adds.opens
  apply Adds.cons _ (readClause_roles gid) fun _ => Clause.noConfusion
  have hlines : ["allow READ EMPLOYEE_PROFILE", "where subject == SELF", ""].map statementOf =
      ["allow READ EMPLOYEE_PROFILE", "where subject == SELF", ""] := by decide +kernel
  rw [hlines]
  apply Adds.cons _ (by decide +kernel) fun _ => Clause.noConfusion
  apply Adds.cons _ (by decide +kernel) fun _ => Clause.noConfusion
  exact adds_nil.blank

/-- The lines that protect travel expenses are one block. -/
theorem opens_protect (hst : st.Plain) (h : noMark gid = true) :
    Opens ((st.protectLines gid).map statementOf)
      ⟨st.protectId gid, [.rule .deny "READ" "TRAVEL_EXPENSE", .subject (.group "EXECUTIVE"),
        .exempt ["CFO", "CEO"]]⟩ := by
  rw [protectLines, List.map_cons, statementOf_name (hst.protectId gid h)]
  apply Adds.opens
  have hlines : ["deny READ TRAVEL_EXPENSE", "where subject in EXECUTIVE_GROUP",
      "unless role in [CFO, CEO]", ""].map statementOf = ["deny READ TRAVEL_EXPENSE",
      "where subject in EXECUTIVE_GROUP", "unless role in [CFO, CEO]", ""] := by decide +kernel
  rw [hlines]
  apply Adds.cons _ (by decide +kernel) fun _ => Clause.noConfusion
  apply Adds.cons _ (by decide +kernel) fun _ => Clause.noConfusion
  apply Adds.cons _ (by decide +kernel) fun _ => Clause.noConfusion
  exact adds_nil.blank

/-- The lines that deny payroll exports are one block. -/
theorem opens_payroll (hst : st.Plain) : Opens (st.payrollLines.map statementOf)
    ⟨st.payrollId, [.rule .deny "EXPORT" "SALARY", .exempt ["PAYROLL_ADMIN"]]⟩ := by
  rw [payrollLines, List.map_cons, statementOf_name hst.payrollId]
  apply Adds.opens
  have hlines : ["deny EXPORT SALARY", "unless role == PAYROLL_ADMIN", ""].map statementOf =
      ["deny EXPORT SALARY", "unless role == PAYROLL_ADMIN", ""] := by decide +kernel
  rw [hlines]
  apply Adds.cons _ (by decide +kernel) fun _ => Clause.noConfusion
  apply Adds.cons _ (by decide +kernel) fun _ => Clause.noConfusion
  exact adds_nil.blank

/-- The lines for a role are read as its blocks. -/
theorem opens_group (hst : st.Plain) (h : noMark gid = true) :
    List.Forall₂ Opens ((st.groupLines gid).map (List.map statementOf)) (st.groupBlocks gid) := by
  rw [groupLines, groupBlocks, List.map_cons, List.map_append]
  apply List.Forall₂.cons (opens_profile hst h)
  apply List.rel_append
  · split
    · exact List.Forall₂.cons (opens_protect hst h) List.Forall₂.nil
    · exact List.Forall₂.nil
  · split
    · exact List.Forall₂.cons (opens_payroll hst) List.Forall₂.nil
    · exact List.Forall₂.nil

/-- No line for a role breaks. -/
theorem noLineFeed_group (hst : st.Plain) (h : noMark gid = true) :
    ∀ l ∈ (st.groupLines gid).flatten, '\n' ∉ l.toList := by
  have hname : ∀ name, noMark name = true → '\n' ∉ ("policy \"" ++ name ++ "\"").toList := by
    intro name hname
    apply noLineFeed_of_noMark
    rw [noMark_append, noMark_append, hname]
    rfl
  have hrole : '\n' ∉ ("when role in [" ++ gid ++ "]").toList := by
    apply noLineFeed_of_noMark
    rw [noMark_append, noMark_append, h]
    rfl
  have hprofile : ∀ l ∈ st.profileLines gid, '\n' ∉ l.toList := by
    rw [profileLines, List.forall_mem_cons, List.forall_mem_cons]
    exact ⟨hname _ (hst.profileId gid h), hrole, by decide⟩
  have hprotect : ∀ l ∈ st.protectLines gid, '\n' ∉ l.toList := by
    rw [protectLines, List.forall_mem_cons]
    exact ⟨hname _ (hst.protectId gid h), by decide⟩
  have hpayroll : ∀ l ∈ st.payrollLines, '\n' ∉ l.toList := by
    rw [payrollLines, List.forall_mem_cons]
    exact ⟨hname _ hst.payrollId, by decide⟩
  intro l hl
  obtain ⟨ls, hls, hl⟩ := List.mem_flatten.1 hl
  rw [groupLines, List.mem_cons, List.mem_append] at hls
  -- the protecting and the payroll policy are there only for some groups
  rcases hls with rfl | hls | hls
  · exact hprofile l hl
  · split at hls
    · rw [List.mem_singleton.1 hls] at hl
      exact hprotect l hl
    · cases hls
  · split at hls
    · rw [List.mem_singleton.1 hls] at hl
      exact hpayroll l hl
    · cases hls

/-- The policies for a role with the list that the parser reads are those of its blocks. -/
theorem lists_group (gid : String) : List.Forall₂ DslPolicy.Lists
    (st.policies (parseList ("[" ++ gid ++ "]")) gid) (st.groupBlocks gid) := by
  have hproper : ∀ (ls : List SubjectLine), (∀ x, SubjectLine.id x ∉ ls) → ∀ l ∈ ls, l.Proper := by
    intro ls hls l hl x hx
    exact absurd (hx ▸ hl) (hls x)
  rw [policies, groupBlocks]
  generalize parseList ("[" ++ gid ++ "]") = roles
  apply List.Forall₂.cons
  · exact ⟨rfl, rfl, (List.append_nil _).symm, rfl, rfl, rfl, hproper _ (by simp [subjectLines])⟩
  apply List.rel_append
  · split
    · apply List.Forall₂.cons _ List.Forall₂.nil
      exact ⟨rfl, rfl, rfl, rfl, rfl, rfl, hproper _ (by simp [subjectLines])⟩
    · exact List.Forall₂.nil
  · split
    · apply List.Forall₂.cons _ List.Forall₂.nil
      exact ⟨rfl, rfl, rfl, rfl, rfl, rfl, hproper _ (by simp [subjectLines])⟩
    · exact List.Forall₂.nil

theorem forall₂_flatMap {α β γ : Type} {R : β → γ → Prop} {f : α → List β} {f' : α → List γ}
    {as : List α} (h : ∀ a ∈ as, List.Forall₂ R (f a) (f' a)) :
    List.Forall₂ R (as.flatMap f) (as.flatMap f') := by
  induction as with
  | nil => exact List.Forall₂.nil
  | cons a as ih =>
      rw [List.forall_mem_cons] at h
      exact List.rel_append h.1 (ih h.2)

/-- Lines without a statement are passed over. -/
theorem foldlM_silent {ls : List String} (h : ∀ l ∈ ls, statementOf l = "") (prior : Blocks) :
    (ls.map statementOf).foldlM Blocks.readStatement prior = some prior := by
  induction ls with
  | nil => rfl
  | cons l ls ih =>
      rw [List.forall_mem_cons] at h
      rw [List.map_cons, h.1]
      exact ih h.2

/-- Where no role holds a mark, a draft is read as the blocks of its groups. -/
theorem readBlocks_draft (hst : st.Plain) {snapshot : IdentitySnapshot}
    (h : ∀ g ∈ snapshot.groups, noMark (st.gid g.name) = true) :
    readBlocks (st.draftText snapshot) =
      some (snapshot.groups.flatMap fun g => st.groupBlocks (st.gid g.name)) := by
  have hbreaks : ∀ l ∈ st.header ++
      (snapshot.groups.flatMap fun g => st.groupLines (st.gid g.name)).flatten,
      '\n' ∉ l.toList := by
    intro l hl
    rcases List.mem_append.1 hl with hl | hl
    · exact (hst.header l hl).2
    · obtain ⟨ls, hls, hl⟩ := List.mem_flatten.1 hl
      obtain ⟨g, hg, hls⟩ := List.mem_flatMap.1 hls
      exact noLineFeed_group hst (h g hg) l (List.mem_flatten.2 ⟨ls, hls, hl⟩)
  have hopens : List.Forall₂ Opens
      ((snapshot.groups.flatMap fun g => st.groupLines (st.gid g.name)).map (List.map statementOf))
      (snapshot.groups.flatMap fun g => st.groupBlocks (st.gid g.name)) := by
    rw [List.map_flatMap]
    exact forall₂_flatMap fun g hg => opens_group hst (h g hg)
  rw [draftText_eq, readBlocks_logText hbreaks, List.map_append, List.foldlM_append,
    foldlM_silent (fun l hl => (hst.header l hl).1), List.map_flatten]
  exact foldlM_opens hopens ⟨[], none⟩

/-! ## What a draft means -/

theorem policies_withoutRaw (roles : List String) (gid : String) :
    (st.policies roles gid).map DslPolicy.withoutRaw = st.policies roles gid := by
  rw [policies, List.map_cons, List.map_append]
  congr 2
  · split <;> rfl
  · split <;> rfl

theorem length_policies (roles roles' : List String) (gid : String) :
    (st.policies roles gid).length = (st.policies roles' gid).length := by
  rw [policies, policies, List.length_cons, List.length_cons]

theorem policies_inj {roles roles' : List String} :
    st.policies roles gid = st.policies roles' gid ↔ roles = roles' := by
  constructor
  · exact fun h => congrArg DslPolicy.whenRoles (List.cons.inj h).1
  · exact fun h => by rw [h]

/-- The intended policies name each group by its own role. -/
theorem noMark_of_means {snapshot : IdentitySnapshot}
    (h : Means (st.draftText snapshot) (st.intended snapshot)) :
    ∀ g ∈ snapshot.groups, noMark (st.gid g.name) = true := by
  intro g hg
  obtain ⟨parsed, hparsed, hmap⟩ := h
  have hmem : (⟨st.profileId (st.gid g.name), .allow, "READ", "EMPLOYEE_PROFILE",
      [st.gid g.name], ["SELF"], [], [], ""⟩ : DslPolicy) ∈ st.intended snapshot :=
    List.mem_flatMap.2 ⟨g, hg, List.mem_cons_self⟩
  rw [← hmap] at hmem
  obtain ⟨p, hp, hraw⟩ := List.mem_map.1 hmem
  have hroles : p.whenRoles = [st.gid g.name] := congrArg DslPolicy.whenRoles hraw
  apply (parsed_words hparsed p hp).1
  rw [hroles]
  exact List.mem_singleton_self _

theorem flatMap_eq_iff {α β : Type} {f f' : α → List β}
    (hlength : ∀ a, (f a).length = (f' a).length) (as : List α) :
    as.flatMap f = as.flatMap f' ↔ ∀ a ∈ as, f a = f' a := by
  induction as with
  | nil => simp
  | cons a as ih =>
      rw [List.flatMap_cons, List.flatMap_cons, List.forall_mem_cons, ← ih]
      constructor
      · exact fun h => List.append_inj h (hlength a)
      · rintro ⟨hfirst, hrest⟩
        rw [hfirst, hrest]

/-- **What a draft means.** A draft means the intended policies exactly when every role is one item of
its list and holds neither a comment mark nor a line feed. -/
theorem draftText_means_iff (hst : st.Plain) (snapshot : IdentitySnapshot) :
    Means (st.draftText snapshot) (st.intended snapshot) ↔
      ∀ g ∈ snapshot.groups, noMark (st.gid g.name) = true ∧ IsListItem (st.gid g.name) := by
  have hread : (∀ g ∈ snapshot.groups, noMark (st.gid g.name) = true) →
      (Means (st.draftText snapshot) (st.intended snapshot) ↔
        ∀ g ∈ snapshot.groups, IsListItem (st.gid g.name)) := by
    intro hmarks
    rw [means_iff (readBlocks_draft hst hmarks) (forall₂_flatMap fun g _ => lists_group _),
      List.map_flatMap, intended]
    simp only [policies_withoutRaw]
    rw [flatMap_eq_iff fun g => length_policies ..]
    apply forall₂_congr
    intro g _
    rw [policies_inj, parseList_item_iff]
  constructor
  · intro h g hg
    have hmarks := noMark_of_means h
    exact ⟨hmarks g hg, (hread hmarks).1 h g hg⟩
  · intro h
    apply (hread fun g hg => (h g hg).1).2
    exact fun g hg => (h g hg).2

end DraftStyle

/-! ## The three wordings -/

theorem noMark_between {a b s : String} (ha : noMark a = true) (hs : noMark s = true)
    (hb : noMark b = true) : noMark (a ++ s ++ b) = true := by
  rw [noMark_append, noMark_append, ha, hs, hb]
  rfl

theorem silent_review :
    statementOf "# Review and commit manually — never auto-deployed." = "" := by decide +kernel

theorem ldapStyle_plain : ldapStyle.Plain where
  header := by
    rw [ldapStyle, List.forall_mem_cons, List.forall_mem_cons, List.forall_mem_singleton]
    exact ⟨⟨by decide +kernel, by decide⟩, ⟨silent_review, by decide⟩, by decide⟩
  profileId gid h := noMark_between rfl h rfl
  protectId _ _ := by show noMark "draft_protect_executive_expenses" = true; decide
  payrollId := by decide

theorem autoDiscoveredStyle_plain : autoDiscoveredStyle.Plain where
  header := by
    rw [autoDiscoveredStyle, List.forall_mem_cons, List.forall_mem_cons,
      List.forall_mem_singleton]
    exact ⟨⟨by decide +kernel, by decide⟩, ⟨silent_review, by decide⟩, by decide⟩
  profileId gid h := noMark_between rfl h rfl
  protectId gid h := noMark_between rfl h rfl
  payrollId := by decide

/-- The wording of the identity-provider generator is plain when the name of the provider is. -/
theorem idpStyle_plain {idp : String} (hidp : noMark idp = true) : (idpStyle idp).Plain where
  header := by
    have hcomment : "# DRAFT policies from " ++ idp ++
        " sync — review, commit, sign, deploy. Never auto-applied." =
        "#" ++ (" DRAFT policies from " ++ idp ++
          " sync — review, commit, sign, deploy. Never auto-applied.") := by
      rw [← String.append_assoc, ← String.append_assoc]
      rfl
    have hbreak : '\n' ∉ (" DRAFT policies from " ++ idp ++
        " sync — review, commit, sign, deploy. Never auto-applied.").toList :=
      noLineFeed_of_noMark (noMark_between rfl hidp rfl)
    rw [idpStyle, List.forall_mem_cons, List.forall_mem_singleton, hcomment]
    refine ⟨⟨statementOf_comment _, ?_⟩, by decide⟩
    rw [String.toList_append, List.mem_append, not_or]
    exact ⟨by decide, hbreak⟩
  profileId gid h := by
    apply noMark_between _ h rfl
    exact noMark_between rfl hidp rfl
  protectId gid h := by
    apply noMark_between _ h rfl
    exact noMark_between rfl hidp rfl
  payrollId := by show noMark "draft_payroll_export" = true; decide

end Paac
