import Paac.Identity.GroupDrafts
import Paac.Suggest.Audit

set_option autoImplicit false

/-!
# Suggestions from the audit log

A pair of action and resource that was denied twice is suggested as a denial of its own. The pair is
put into upper case and written into the rule line as it is, so a suggestion means that denial
exactly when both are words without a comment mark.

The denials of a log are counted pair by pair; the source keeps the counters in a hash map, and
nothing that is proved depends on their order. What is generated from a snapshot of groups
(`Identity/GroupDrafts.lean`) and from a log is then put together: four texts, each of which means
what it says or does not.

## Main results

- `countsOf_denialCounts`: the counters hold the number of denials of each pair, by induction on the
  log.
- `mem_repeatedDenials`: so which pairs are suggested.
- `readBlocks_suggestion`, `suggestion_means_iff`: what one suggestion is read as.
- `suggestions_mean_iff`: and all of them.
- `drafts_mean_iff`: when everything that is generated from a snapshot and a log means what it says.
- `comma_splits_group`: a group with a comma in its name is two roles.
-/

namespace Paac

/-! ## Counting -/

structure Suggestion where
  name : String
  rationale : String
  dsl : String
  deriving DecidableEq, Repr

/-- An action and a resource. -/
abbrev DenialKey : Type := String × String

/-- The key that a record counts for. -/
def denialKey (r : AuditRecord) : DenialKey :=
  (Text.toAsciiUppercase r.action, Text.toAsciiUppercase r.resource)

/-- `*counts.entry(key).or_default() += 1`. -/
def countKey (key : DenialKey) : List (DenialKey × Nat) → List (DenialKey × Nat)
  | [] => [(key, 1)]
  | (key', n) :: counts =>
      if key' = key then (key', n + 1) :: counts else (key', n) :: countKey key counts

/-- The denials of a log by key; the source keeps them in a hash map, here they stand in the order of
their first records. -/
def denialCounts (records : List AuditRecord) : List (DenialKey × Nat) :=
  records.foldl (fun counts r =>
    if r.decision = .deny then countKey (denialKey r) counts else counts) []

def suggestionName (key : DenialKey) : String :=
  "audit_deny_" ++ Text.toAsciiLowercase key.1 ++ "_" ++ Text.toAsciiLowercase key.2

/-- The suggestion for a key that was counted `n` times. -/
def suggestion (key : DenialKey) (n : Nat) : Suggestion where
  name := suggestionName key
  rationale := toString n ++ " DENY decisions observed for " ++ key.1 ++ " " ++ key.2
  dsl := Text.logText ["policy \"" ++ suggestionName key ++ "\"",
    "deny " ++ key.1 ++ " " ++ key.2,
    "# suggested from " ++ toString n ++ " audit DENY events"]

/-- The keys that were counted twice. -/
def repeatedDenials (records : List AuditRecord) : List (DenialKey × Nat) :=
  (denialCounts records).filter fun c => 2 ≤ c.2

/-- `suggest_from_audit`. -/
def suggestFromAudit (file : AuditFile) : List Suggestion :=
  (repeatedDenials (readAuditRecords file)).map fun c => suggestion c.1 c.2

/-- The policy that a suggestion means. -/
def denial (key : DenialKey) : DslPolicy :=
  ⟨suggestionName key, .deny, key.1, key.2, [], [], [], [], ""⟩

/-! ## The counts -/

/-- The denials of a key in a log. -/
def denialsOf (key : DenialKey) (records : List AuditRecord) : Nat :=
  records.countP fun r => r.decision = .deny ∧ denialKey r = key

/-- Each key once, with the number of its denials. -/
structure CountsOf (counts : List (DenialKey × Nat)) (records : List AuditRecord) : Prop where
  nodup : (counts.map Prod.fst).Nodup
  mem : ∀ key n, (key, n) ∈ counts ↔ n = denialsOf key records ∧ 0 < n

theorem keys_countKey (key : DenialKey) (counts : List (DenialKey × Nat)) :
    (countKey key counts).map Prod.fst =
      if key ∈ counts.map Prod.fst then counts.map Prod.fst
      else counts.map Prod.fst ++ [key] := by
  induction counts with
  | nil => rfl
  | cons c counts ih =>
      rw [countKey]
      by_cases h : c.1 = key
      · rw [if_pos h, if_pos]
        · rfl
        · exact List.mem_cons.2 (Or.inl h.symm)
      · have h' : ¬key = c.1 := fun heq => h heq.symm
        simp only [if_neg h, List.map_cons, ih, List.mem_cons, h', false_or]
        split <;> rfl

/-- Counting a key adds one to it. -/
theorem mem_countKey_self {key : DenialKey} {counts : List (DenialKey × Nat)}
    (hnd : (counts.map Prod.fst).Nodup) (n : Nat) : (key, n) ∈ countKey key counts ↔
      (∃ m, (key, m) ∈ counts ∧ n = m + 1) ∨ (key ∉ counts.map Prod.fst ∧ n = 1) := by
  induction counts with
  | nil => simp [countKey]
  | cons c counts ih =>
      obtain ⟨key', m⟩ := c
      rw [List.map_cons, List.nodup_cons] at hnd
      have hne : ∀ m', key' = key → (key, m') ∉ counts := by
        rintro m' rfl hmem
        exact hnd.1 (List.mem_map.2 ⟨_, hmem, rfl⟩)
      rw [countKey]
      by_cases h : key' = key
      · subst h
        simp [hne]
      · have h' : ¬key = key' := fun heq => h heq.symm
        rw [if_neg h, List.mem_cons, ih hnd.2]
        simp [h']

/-- Counting a key leaves the others. -/
theorem mem_countKey_ne {key key' : DenialKey} (h : key' ≠ key)
    (counts : List (DenialKey × Nat)) (n : Nat) :
    (key', n) ∈ countKey key counts ↔ (key', n) ∈ counts := by
  induction counts with
  | nil => simp [countKey, h]
  | cons c counts ih =>
      obtain ⟨key₀, m⟩ := c
      rw [countKey]
      split
      · rename_i hc
        have hne : key' ≠ key₀ := by rwa [hc]
        simp [hne]
      · rw [List.mem_cons, List.mem_cons, ih]

/-- One denial more is counted under its key. -/
theorem CountsOf.deny {counts : List (DenialKey × Nat)} {records : List AuditRecord}
    (h : CountsOf counts records) {r : AuditRecord} (hr : r.decision = .deny) :
    CountsOf (countKey (denialKey r) counts) (records ++ [r]) where
  nodup := by
    rw [keys_countKey]
    split
    · exact h.nodup
    · rename_i hkey
      exact List.nodup_append.2 ⟨h.nodup, List.nodup_singleton _, fun a ha b hb hab =>
        hkey (List.mem_singleton.1 hb ▸ hab ▸ ha)⟩
  mem := by
    intro key n
    have hcount : denialsOf key (records ++ [r]) =
        denialsOf key records + if denialKey r = key then 1 else 0 := by
      rw [denialsOf, List.countP_append, List.countP_singleton, denialsOf]
      simp [hr]
    by_cases hkey : key = denialKey r
    · subst hkey
      rw [mem_countKey_self h.nodup, hcount, if_pos rfl]
      -- a key that is not listed has no denials
      have habsent : denialKey r ∉ counts.map Prod.fst ↔ denialsOf (denialKey r) records = 0 := by
        constructor
        · intro hnot
          by_contra hpos
          have hmem := (h.mem (denialKey r) _).2 ⟨rfl, Nat.pos_of_ne_zero hpos⟩
          exact hnot (List.mem_map_of_mem hmem)
        · intro hzero hmem
          obtain ⟨⟨key, m⟩, hc, hkey⟩ := List.mem_map.1 hmem
          obtain rfl : key = denialKey r := hkey
          have hpos := (h.mem _ m).1 hc
          omega
      rw [habsent]
      simp only [h.mem]
      constructor
      · rintro (⟨m, ⟨hm, hpos⟩, rfl⟩ | ⟨hzero, rfl⟩)
        · omega
        · omega
      · rintro ⟨hn, hpos⟩
        by_cases hzero : denialsOf (denialKey r) records = 0
        · exact Or.inr ⟨hzero, by omega⟩
        · exact Or.inl ⟨_, ⟨rfl, Nat.pos_of_ne_zero hzero⟩, hn⟩
    · rw [mem_countKey_ne hkey, h.mem, hcount, if_neg (Ne.symm hkey), Nat.add_zero]

/-- The counts of a log. -/
theorem countsOf_denialCounts (records : List AuditRecord) :
    CountsOf (denialCounts records) records := by
  -- the counts are folded from the left, so the last record is the step
  induction records using List.reverseRecOn with
  | nil =>
      refine ⟨List.nodup_nil, fun key n => ?_⟩
      have hzero : denialsOf key [] = 0 := rfl
      rw [hzero]
      constructor
      · intro h
        cases h
      · omega
  | append_singleton records r ih =>
      rw [denialCounts, List.foldl_append, List.foldl_cons, List.foldl_nil]
      split
      · rename_i hr
        exact ih.deny hr
      · rename_i hr
        refine ⟨ih.nodup, fun key n => ?_⟩
        have hcount : denialsOf key (records ++ [r]) = denialsOf key records := by
          rw [denialsOf, List.countP_append, List.countP_singleton, if_neg, Nat.add_zero, denialsOf]
          simp [hr]
        rw [hcount]
        exact ih.mem key n

theorem mem_repeatedDenials (key : DenialKey) (n : Nat) (records : List AuditRecord) :
    (key, n) ∈ repeatedDenials records ↔ n = denialsOf key records ∧ 2 ≤ n := by
  rw [repeatedDenials, List.mem_filter, (countsOf_denialCounts records).mem, decide_eq_true_eq]
  omega

/-! ## What a suggestion means -/

/-- The text after a denial is one line. -/
theorem noLineFeed_comment (n : Nat) :
    '\n' ∉ ("# suggested from " ++ toString n ++ " audit DENY events").toList := by
  rw [String.toList_append, String.toList_append, List.mem_append, List.mem_append, not_or, not_or]
  refine ⟨⟨by decide, fun hmem => ?_⟩, by decide⟩
  have hdigits : (toString n).toList = Nat.toDigits 10 n := Nat.toList_repr
  rw [hdigits] at hmem
  have hdigit := Nat.isDigit_of_mem_toDigits (by decide) (by decide) hmem
  revert hdigit
  decide

theorem readClause_deny {action resource : String} (ha : Text.isWord action = true)
    (hk : Text.isWord resource = true) :
    readClause ("deny " ++ action ++ " " ++ resource) =
      some (.rule .deny (Text.toAsciiUppercase action) (Text.toAsciiUppercase resource)) := by
  have hline : "deny " ++ action ++ " " ++ resource =
      "deny " ++ (action ++ " " ++ resource) := by
    rw [String.append_assoc, String.append_assoc, String.append_assoc]
  rw [hline, readClause, stripPrefix_none (fun _ => rfl), stripPrefix_none (fun _ => rfl),
    stripPrefix_none (fun _ => rfl), Text.stripPrefix_append]
  dsimp only
  rw [readRule, Text.splitWhitespace_two ha hk]

theorem noMark_suggestionName {key : DenialKey} (ha : noMark key.1 = true)
    (hk : noMark key.2 = true) : noMark (suggestionName key) = true := by
  rw [suggestionName, noMark_append, noMark_append, noMark_append, noMark_lower ha,
    noMark_lower hk]
  rfl

/-- A suggestion on two words is read as the one denial. -/
theorem readBlocks_suggestion {key : DenialKey} (n : Nat) (ha : isMarkFree key.1 = true)
    (hk : isMarkFree key.2 = true) (hupper : Text.toAsciiUppercase key.1 = key.1)
    (hupper' : Text.toAsciiUppercase key.2 = key.2) :
    readBlocks (suggestion key n).dsl =
      some [⟨suggestionName key, [.rule .deny key.1 key.2]⟩] := by
  rw [isMarkFree, Bool.and_eq_true] at ha hk
  have hname := noMark_suggestionName ha.2 hk.2
  have hmark : noMark ("deny " ++ key.1 ++ " " ++ key.2) = true := by
    rw [noMark_append, noMark_append, noMark_append, ha.2, hk.2]
    rfl
  have hrule : statementOf ("deny " ++ key.1 ++ " " ++ key.2) =
      "deny " ++ key.1 ++ " " ++ key.2 := by
    apply IsStatement.statementOf
    refine ⟨hmark, ?_⟩
    rw [String.append_assoc, String.append_assoc]
    exact trim_start_end rfl rfl (((endsVisibly_word hk.1).append " ").append key.1)
  have hcomment : "# suggested from " ++ toString n ++ " audit DENY events" =
      "#" ++ (" suggested from " ++ toString n ++ " audit DENY events") := by
    rw [← String.append_assoc, ← String.append_assoc]
    rfl
  have hread := readClause_deny ha.1 hk.1
  rw [hupper, hupper'] at hread
  -- the comment at the end of the draft adds nothing to the block
  have hopens : Opens (["policy \"" ++ suggestionName key ++ "\"",
      "deny " ++ key.1 ++ " " ++ key.2, ""]) ⟨suggestionName key, [.rule .deny key.1 key.2]⟩ := by
    apply Adds.opens
    apply Adds.cons _ hread fun _ => Clause.noConfusion
    exact adds_nil.blank
  have hbreaks : ∀ l ∈ ["policy \"" ++ suggestionName key ++ "\"",
      "deny " ++ key.1 ++ " " ++ key.2,
      "# suggested from " ++ toString n ++ " audit DENY events"], '\n' ∉ l.toList := by
    rw [List.forall_mem_cons, List.forall_mem_cons, List.forall_mem_singleton]
    exact ⟨noLineFeed_of_noMark (noMark_between rfl hname rfl), noLineFeed_of_noMark hmark,
      noLineFeed_comment n⟩
  rw [suggestion]
  dsimp only
  rw [readBlocks_logText hbreaks, List.map_cons, List.map_cons, List.map_singleton,
    DraftStyle.statementOf_name hname, hrule, hcomment, statementOf_comment]
  exact foldlM_opens (List.Forall₂.cons hopens List.Forall₂.nil) ⟨[], none⟩

/-- A suggestion means its denial exactly when action and resource are words without a comment
mark. -/
theorem suggestion_means_iff {key : DenialKey} (n : Nat)
    (hupper : Text.toAsciiUppercase key.1 = key.1)
    (hupper' : Text.toAsciiUppercase key.2 = key.2) :
    Means (suggestion key n).dsl [denial key] ↔
      isMarkFree key.1 = true ∧ isMarkFree key.2 = true := by
  constructor
  · rintro ⟨parsed, hparsed, hmap⟩
    obtain ⟨p, hp⟩ := List.map_eq_singleton_iff.1 hmap
    rw [hp.1] at hparsed
    have hwords := (parsed_words hparsed p (List.mem_singleton_self p)).2
    have haction : p.action = key.1 := congrArg DslPolicy.action hp.2
    have hresource : p.resource = key.2 := congrArg DslPolicy.resource hp.2
    rwa [haction, hresource] at hwords
  · rintro ⟨ha, hk⟩
    have hlists : List.Forall₂ DslPolicy.Lists [denial key]
        [⟨suggestionName key, [.rule .deny key.1 key.2]⟩] := by
      apply List.Forall₂.cons _ List.Forall₂.nil
      exact ⟨rfl, rfl, rfl, rfl, rfl, rfl, fun l hl => absurd hl List.not_mem_nil⟩
    rw [means_iff (readBlocks_suggestion n ha hk hupper hupper') hlists]
    rfl

/-! ## All that is generated -/

/-- What is generated from a snapshot and a log means what it says. -/
structure DraftsMean (snapshot : IdentitySnapshot) (audit : AuditFile) : Prop where
  ldap : Means (draftPoliciesFromGroups snapshot) (ldapStyle.intended snapshot)
  idp : ∀ idp, noMark idp = true →
    Means (defaultDraftsFromGroups idp snapshot) ((idpStyle idp).intended snapshot)
  autoDiscovered : Means (generateAutoDiscoveredDraftPolicies snapshot)
    (autoDiscoveredStyle.intended snapshot)
  suggestions : List.Forall₂ (fun c s => Means s.dsl [denial c.1])
    (repeatedDenials (readAuditRecords audit)) (suggestFromAudit audit)

/-- A role that stays itself in a generated list. -/
def IsDraftRole (gid : String) : Prop := noMark gid = true ∧ IsListItem gid

/-- The names of the groups, and the actions and resources that are denied twice. -/
structure PlainSources (snapshot : IdentitySnapshot) (audit : AuditFile) : Prop where
  upper : ∀ g ∈ snapshot.groups, IsDraftRole (Text.toAsciiUppercase g.name)
  underscored : ∀ g ∈ snapshot.groups, IsDraftRole (underscored g.name)
  denials : ∀ key, 2 ≤ denialsOf key (readAuditRecords audit) →
    isMarkFree key.1 = true ∧ isMarkFree key.2 = true

theorem upper_upper (s : String) :
    Text.toAsciiUppercase (Text.toAsciiUppercase s) = Text.toAsciiUppercase s := by
  rw [← String.toList_inj]
  simp only [Text.toAsciiUppercase, String.toList_ofList, List.map_map]
  apply List.map_congr_left
  intro c _
  exact Char.toUpper_toUpper_eq_toUpper c

/-- The suggestions mean their denials exactly when every key that is denied twice is of words. -/
theorem suggestions_mean_iff (audit : AuditFile) :
    List.Forall₂ (fun c s => Means s.dsl [denial c.1]) (repeatedDenials (readAuditRecords audit))
      (suggestFromAudit audit) ↔
    ∀ key, 2 ≤ denialsOf key (readAuditRecords audit) →
      isMarkFree key.1 = true ∧ isMarkFree key.2 = true := by
  have hmeans : ∀ key n, (key, n) ∈ repeatedDenials (readAuditRecords audit) →
      (Means (suggestion key n).dsl [denial key] ↔
        isMarkFree key.1 = true ∧ isMarkFree key.2 = true) := by
    intro key n hmem
    rw [mem_repeatedDenials] at hmem
    have hpos : 0 < denialsOf key (readAuditRecords audit) := by omega
    obtain ⟨r, -, hr⟩ := List.countP_pos_iff.1 hpos
    rw [decide_eq_true_eq] at hr
    rw [← hr.2]
    exact suggestion_means_iff n (upper_upper _) (upper_upper _)
  rw [suggestFromAudit, List.forall₂_map_right_iff, List.forall₂_same, Prod.forall]
  constructor
  · intro h key hrepeated
    have hmem := (mem_repeatedDenials key _ (readAuditRecords audit)).2 ⟨rfl, hrepeated⟩
    exact (hmeans key _ hmem).1 (h key _ hmem)
  · intro h key n hmem
    apply (hmeans key n hmem).2
    apply h key
    rw [mem_repeatedDenials] at hmem
    omega

/-- **When generated drafts mean what they say.** The three drafts of a snapshot and the suggestions of
a log mean the intended policies exactly when every group has a name that stays one item of a list, as
it is and with its spaces replaced, and every action and resource that is denied twice is a word
without a comment mark. -/
theorem drafts_mean_iff (snapshot : IdentitySnapshot) (audit : AuditFile) :
    DraftsMean snapshot audit ↔ PlainSources snapshot audit := by
  have hldap := DraftStyle.draftText_means_iff ldapStyle_plain snapshot
  have hidp := fun idp (h : noMark idp = true) =>
    DraftStyle.draftText_means_iff (idpStyle_plain h) snapshot
  have hauto := DraftStyle.draftText_means_iff autoDiscoveredStyle_plain snapshot
  have hsuggest := suggestions_mean_iff audit
  constructor
  · rintro ⟨hl, -, ha, hs⟩
    exact ⟨hldap.1 hl, hauto.1 ha, hsuggest.1 hs⟩
  · rintro ⟨hu, hs, hd⟩
    exact ⟨hldap.2 hu, fun idp h => (hidp idp h).2 hs, hauto.2 hs, hsuggest.2 hd⟩

/-- A group with a comma in its name. -/
def regional : IdentitySnapshot where
  users := []
  groups := [⟨"g1", "Sales, EMEA", [], "ldap"⟩]
  relationships := []
  syncedAt := none

/-- The comma makes two roles of the group. -/
theorem comma_splits_group : ¬DraftsMean regional none := by
  intro h
  have hroles := (DraftStyle.draftText_means_iff ldapStyle_plain regional).1 h.ldap
  have hitem := (hroles _ (List.mem_singleton_self _)).2
  exact hitem.noComma (by decide)

end Paac
