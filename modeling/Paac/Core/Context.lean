import Paac.Core.Evaluate

set_option autoImplicit false

/-!
# What the context says

Lookups in the record the evaluator hands to the engine. Under a key of the evaluator's own the
record holds the value computed from the request, unless the free-form context carries the same key
and is written later. Six of the attributes are written in front of the free-form context
(`exposedNames`), and the two lists of the principal behind it.

Action and kind are spliced as they are, so for arbitrary ones it is not even known which members
stand in front: `headMembers` is what they have left there, whatever it is. A key that is settled
has its value in any case, since what is spliced behind action and kind cannot be captured by them.

## Main results

- `lookup_splicedMembers`, `lookup_members`: the last member of a name counts.
- `lookup_context`: what the context says under a built-in name.
- `lookup_replaced`: and where a free-form key has taken the name.
- `headMembers_plain`: the two members of action and kind when these are plain.
-/

namespace Paac

open Cedar (Record Value)

/-- The attributes the evaluator writes itself. -/
def builtinNames : List String :=
  ["action_name", "resource_kind", "subject_is_self", "subject_in_direct_reports", "subject_id",
    "subject_groups", "principal_roles", "principal_groups"]

/-- The attributes written in front of the free-form context, which a later key replaces. -/
def exposedNames : List String :=
  ["action_name", "resource_kind", "subject_is_self", "subject_in_direct_reports", "subject_id",
    "subject_groups"]

/-- The spliced members that do not come from the free-form context. -/
def fixedMembers (req : AuthzRequest) : List (String × Json.Plain) :=
  [("subject_is_self", .bool (subjectIsSelf req)),
    ("subject_in_direct_reports", .bool (subjectInDirectReports req)),
    ("subject_id", .str ((req.subject.map (·.id)).getD "")),
    ("subject_groups", .strs ((req.subject.map (·.groups)).getD [])),
    ("principal_roles", .strs req.principal.roles), ("principal_groups", .strs req.principal.groups)]

/-- The key is not a key of the free-form context, or it is written behind it. -/
def Settled (req : AuthzRequest) (k : String) : Prop :=
  k ∉ req.context.values.keys ∨ k = "principal_roles" ∨ k = "principal_groups"

/-- The spliced members, the last one first. -/
theorem reverse_splicedMembers (req : AuthzRequest) :
    ((splicedMembers req).map Json.memberJson).reverse =
      [("principal_groups", (Json.Plain.strs req.principal.groups).toJson),
        ("principal_roles", (Json.Plain.strs req.principal.roles).toJson)] ++
      ((req.context.values.entries.map fun e => (e.1, Json.str e.2)).reverse ++
      [("subject_groups", (Json.Plain.strs ((req.subject.map (·.groups)).getD [])).toJson),
        ("subject_id", (Json.Plain.str ((req.subject.map (·.id)).getD "")).toJson),
        ("subject_in_direct_reports", (Json.Plain.bool (subjectInDirectReports req)).toJson),
        ("subject_is_self", (Json.Plain.bool (subjectIsSelf req)).toJson)]) := by
  simp [splicedMembers, Json.memberJson, Json.Plain.toJson]

/-- Among the spliced members, a settled key has its fixed value. -/
theorem lookup_splicedMembers {req : AuthzRequest} {k : String} (hk : Settled req k) :
    lookupEntry k ((splicedMembers req).map Json.memberJson).reverse =
      (lookupEntry k (fixedMembers req)).map Json.Plain.toJson := by
  rw [reverse_splicedMembers, lookupEntry_append, lookupEntry_append]
  rcases hk with hk | rfl | rfl
  · have hctx : lookupEntry k
        (req.context.values.entries.map fun e => (e.1, Json.str e.2)).reverse = none := by
      rw [lookupEntry_eq_none_iff, List.map_reverse, List.mem_reverse, List.map_map]
      exact hk
    rw [hctx, Option.none_or]
    -- one case for each name that is always there
    by_cases h₁ : k = "principal_groups"
    · subst h₁
      simp [lookupEntry, fixedMembers]
    by_cases h₂ : k = "principal_roles"
    · subst h₂
      simp [lookupEntry, fixedMembers]
    by_cases h₃ : k = "subject_groups"
    · subst h₃
      simp [lookupEntry, fixedMembers]
    by_cases h₄ : k = "subject_id"
    · subst h₄
      simp [lookupEntry, fixedMembers]
    by_cases h₅ : k = "subject_in_direct_reports"
    · subst h₅
      simp [lookupEntry, fixedMembers]
    by_cases h₆ : k = "subject_is_self"
    · subst h₆
      simp [lookupEntry, fixedMembers]
    · simp [lookupEntry, fixedMembers, Ne.symm h₁, Ne.symm h₂, Ne.symm h₃, Ne.symm h₄,
        Ne.symm h₅, Ne.symm h₆]
  · simp [lookupEntry, fixedMembers]
  · simp [lookupEntry, fixedMembers]

/-- The members that action and kind have left in front of the spliced ones. -/
def headMembers (req : AuthzRequest) : Option (List (String × Json)) :=
  Json.membersAt (Json.readAll .init (contextHead req ++ [',', ' ']))

/-- A lookup in the context finds the last spliced member under the key, or else what action and
kind have given it. -/
theorem lookup_members {req : AuthzRequest} {ms : List (String × Json)}
    (hms : Json.parse (buildContextJson req) = some (.obj ms)) (k : String) :
    ∃ head, headMembers req = some head ∧
      lookupEntry k (Record.ofMembers ms) =
        ((lookupEntry k ((splicedMembers req).map Json.memberJson).reverse).or
          (lookupEntry k head)).map Value.ofJson := by
  rw [parse_buildContextJson] at hms
  obtain ⟨head, hhead, hms⟩ := Option.bind_eq_some_iff.1 hms
  split at hms
  · obtain rfl : insertEntries head ((splicedMembers req).map Json.memberJson) = ms := by
      simpa using hms
    refine ⟨head, hhead, ?_⟩
    rw [Cedar.Record.lookup_ofMembers, lookupEntry_insertEntries]
  · cases hms

/-- **Lookups in the context.** A settled key has its fixed value if it has one, and otherwise the
value that action and kind have given it. -/
theorem lookup_context {req : AuthzRequest} {ms : List (String × Json)}
    (hms : Json.parse (buildContextJson req) = some (.obj ms)) {k : String}
    (hk : Settled req k) :
    ∃ head, headMembers req = some head ∧
      lookupEntry k (Record.ofMembers ms) =
        (((lookupEntry k (fixedMembers req)).map Json.Plain.toJson).or
          (lookupEntry k head)).map Value.ofJson := by
  obtain ⟨head, hhead, hlookup⟩ := lookup_members hms k
  exact ⟨head, hhead, by rw [hlookup, lookup_splicedMembers hk]⟩

/-- A key of the free-form context has the value given there, unless the roles or groups of the
principal are written over it. -/
theorem lookup_replaced {req : AuthzRequest} {ms : List (String × Json)}
    (hms : Json.parse (buildContextJson req) = some (.obj ms)) {k v : String}
    (hk : req.context.values.get k = some v) (hroles : k ≠ "principal_roles")
    (hgroups : k ≠ "principal_groups") :
    lookupEntry k (Record.ofMembers ms) = some (.str v) := by
  have hmap : ∀ es : List (String × String), lookupEntry k es = some v →
      lookupEntry k (es.map fun e => (e.1, Json.str e.2)) = some (.str v) := by
    intro es hes
    induction es with
    | nil => cases hes
    | cons e es ih =>
        simp only [lookupEntry, List.map_cons] at hes ⊢
        split at hes
        · rename_i he
          rw [if_pos he, Option.some.inj hes]
        · rename_i he
          rw [if_neg he, ih hes]
  have hctx : lookupEntry k
      (req.context.values.entries.map fun e => (e.1, Json.str e.2)).reverse = some (.str v) := by
    rw [lookupEntry_reverse]
    · exact hmap _ hk
    · rw [List.map_map]
      exact req.context.values.nodup
  -- only the two attributes of the principal come behind the free-form members
  have hlast : lookupEntry k ((splicedMembers req).map Json.memberJson).reverse =
      some (.str v) := by
    rw [reverse_splicedMembers, lookupEntry_append, lookupEntry_append, hctx, lookupEntry,
      if_neg (Ne.symm hgroups), lookupEntry, if_neg (Ne.symm hroles)]
    rfl
  obtain ⟨head, -, hlookup⟩ := lookup_members hms k
  rw [hlookup, hlast]
  rfl

/-! ## Plain action and kind -/

/-- A plain string is spliced as it is. -/
theorem bareEscape_plain {s : String} (h : Cedar.isPlain s = true) :
    Json.bareEscape s.toList = s.toList := by
  unfold Cedar.isPlain at h
  unfold Json.bareEscape
  generalize s.toList = cs at h ⊢
  induction cs with
  | nil => rfl
  | cons c cs ih =>
      rw [List.all_cons, Bool.and_eq_true, Bool.and_eq_true] at h
      have hq : ¬c = '"' := of_decide_eq_true h.1.1
      have hb : ¬c = '\\' := of_decide_eq_true h.1.2
      rw [List.flatMap_cons, if_neg hq, if_neg hb, ih h.2, List.singleton_append]

theorem toUpper_eq_of_not_letter {c d : Char} (hd : d.isAlpha = false) (h : c.toUpper = d) :
    c = d := by
  unfold Char.toUpper at h
  split at h
  · rename_i hc
    have hval : d.val = c.val + ('A'.val - 'a'.val) := by rw [← h]
    have hnat : d.toNat = (c.toNat + 4294967264) % 4294967296 := by
      rw [Char.toNat, hval, UInt32.toNat_add]
      rfl
    simp only [UInt32.le_iff_toNat_le] at hc
    have hlow : 97 ≤ c.toNat := hc.1
    have hhigh : c.toNat ≤ 122 := hc.2
    have hupper : d.isUpper = true := by
      simp only [Char.isUpper, ge_iff_le, UInt32.le_iff_toNat_le, decide_eq_true_eq]
      show 65 ≤ d.toNat ∧ d.toNat ≤ 90
      omega
    simp [Char.isAlpha, hupper] at hd
  · exact h

/-- Upper-casing adds no quote and no backslash. -/
theorem isPlain_toAsciiUppercase {s : String} (h : Cedar.isPlain s = true) :
    Cedar.isPlain (Text.toAsciiUppercase s) = true := by
  unfold Cedar.isPlain at h ⊢
  rw [Text.toAsciiUppercase, String.toList_ofList, List.all_map]
  rw [List.all_eq_true] at h ⊢
  intro c hc
  have hplain := h c hc
  rw [Bool.and_eq_true, decide_eq_true_eq, decide_eq_true_eq] at hplain
  rw [Function.comp, Bool.and_eq_true, decide_eq_true_eq, decide_eq_true_eq]
  exact ⟨fun hq => hplain.1 (toUpper_eq_of_not_letter rfl hq),
    fun hb => hplain.2 (toUpper_eq_of_not_letter rfl hb)⟩

/-- The two members of a plain action and kind. -/
def plainHead (req : AuthzRequest) : List (String × Json.Plain) :=
  [("action_name", .str (Text.toAsciiUppercase req.action.name)),
    ("resource_kind", .str (Text.toAsciiUppercase req.resource.kind))]

/-- With a plain action and kind the head holds these two and nothing else. -/
theorem headMembers_plain {req : AuthzRequest} (haction : Cedar.isPlain req.action.name = true)
    (hkind : Cedar.isPlain req.resource.kind = true) :
    headMembers req = if (plainHead req).all Json.memberClean then
      some (insertEntries [] ((plainHead req).map Json.memberJson)) else none := by
  have htext : contextHead req ++ [',', ' '] =
      '{' :: (Json.memberText ("action_name", .str (Text.toAsciiUppercase req.action.name)) ++
        ([("resource_kind", Json.Plain.str (Text.toAsciiUppercase req.resource.kind))].flatMap
          (fun m => [',', ' '] ++ Json.memberText m) ++ [',', ' '])) := by
    have ha := bareEscape_plain (isPlain_toAsciiUppercase haction)
    have hk := bareEscape_plain (isPlain_toAsciiUppercase hkind)
    simp [contextHead, String.toList_append, Json.memberText, Json.quoted, Json.Plain.text, ha, hk]
    simp [Json.bareEscape]
  rw [headMembers, htext, Json.membersAt_members]
  rfl

/-- Plain names of action and kind give the head members themselves. -/
theorem eq_of_headMembers_plain {req : AuthzRequest}
    (haction : Cedar.isPlain req.action.name = true)
    (hkind : Cedar.isPlain req.resource.kind = true) {head : List (String × Json)}
    (h : headMembers req = some head) :
    head = [("action_name", .str (Text.toAsciiUppercase req.action.name)),
      ("resource_kind", .str (Text.toAsciiUppercase req.resource.kind))] := by
  rw [headMembers_plain haction hkind] at h
  split at h
  · exact (Option.some.inj h).symm
  · cases h

end Paac
