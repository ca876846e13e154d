import Paac.Bridge.Bind
import Paac.Core.Context
import Paac.Core.Reference
import Paac.Library.JsonRaw

set_option autoImplicit false

/-!
# The context text as a round trip

The text of the context is built from the members that the kernel computes and those of the
free-form context. Action and kind are spliced as they are, and in the other strings quotes and
backslashes are escaped, control characters are not.

Two questions are settled. What the kernel computes behind action and kind cannot be changed by
anything a request contains, for an action with quotes could close its literal and write members of
its own, but what it writes stands in front. And every member is read back, and the text taken as a
context, exactly when no string needs the escaping that is missing: an action or kind that is read
back needs no escape, since a quote ends it early and a backslash changes it.

## Main results

- `fixed_members_kept`: nothing a request contains can change what the six fixed members behind
  action and kind say, unless a free-form key takes the name of one.
- `parse_of_needsNoEscaping`: strings without control characters, and action and kind without quotes
  and backslashes, give the object they were built from.
- `needsNoEscape_of_head`: an action or kind that is read back needs no escape.
- `context_round_trips_iff`: in no other case is every member read back and the text taken as a
  context.
- `two_lines_unreadable`: a prompt over two lines makes a request that has no context.
-/

namespace Paac

open Cedar (Engine)

/-! ## The fixed members -/

/-- The values of the six fixed members, computed from the fields of the request. -/
def fixedValue (req : AuthzRequest) : List (String × Json) :=
  [("subject_is_self", .bool (subjectIsSelf req)),
    ("subject_in_direct_reports", .bool (subjectInDirectReports req)),
    ("subject_id", .str ((req.subject.map (·.id)).getD "")),
    ("subject_groups", .arr (((req.subject.map (·.groups)).getD []).map .str)),
    ("principal_roles", .arr (req.principal.roles.map .str)),
    ("principal_groups", .arr (req.principal.groups.map .str))]

/-- A lookup in the context object finds the last spliced member under the key, or else what action
and kind have given it. -/
theorem lookup_object {req : AuthzRequest} {ms : List (String × Json)}
    (hms : Json.parse (buildContextJson req) = some (.obj ms)) (k : String) :
    ∃ head, headMembers req = some head ∧ lookupEntry k ms =
      (lookupEntry k ((splicedMembers req).map Json.memberJson).reverse).or
        (lookupEntry k head) := by
  rw [parse_buildContextJson] at hms
  obtain ⟨head, hhead, hms⟩ := Option.bind_eq_some_iff.1 hms
  split at hms
  · obtain rfl : insertEntries head ((splicedMembers req).map Json.memberJson) = ms := by
      simpa using hms
    exact ⟨head, hhead, lookupEntry_insertEntries _ _ _⟩
  · cases hms

/-- **No string of a request changes the fixed members.** Whenever the text of the context is an
object, these are computed from the fields of the request, if the keys of the free-form context are
none of the built-in names. -/
theorem fixed_members_kept {req : AuthzRequest}
    (havoid : ∀ k ∈ req.context.values.keys, k ∉ builtinNames) {ms : List (String × Json)}
    (hms : Json.parse (buildContextJson req) = some (.obj ms)) :
    ∀ m ∈ fixedValue req, lookupEntry m.1 ms = some m.2 := by
  have hlookup : ∀ k ∈ builtinNames, ∀ v, lookupEntry k (fixedMembers req) = some v →
      lookupEntry k ms = some v.toJson := by
    intro k hk v hv
    obtain ⟨head, -, h⟩ := lookup_object hms k
    have hsettled : Settled req k := Or.inl fun hmem => havoid k hmem hk
    rw [h, lookup_splicedMembers hsettled, hv]
    rfl
  intro m hm
  simp only [fixedValue, List.mem_cons, List.not_mem_nil, or_false] at hm
  rcases hm with rfl | rfl | rfl | rfl | rfl | rfl
  · exact hlookup "subject_is_self" (by decide) (.bool _) rfl
  · exact hlookup "subject_in_direct_reports" (by decide) (.bool _) rfl
  · exact hlookup "subject_id" (by decide) (.str _) rfl
  · exact hlookup "subject_groups" (by decide) (.strs _) rfl
  · exact hlookup "principal_roles" (by decide) (.strs _) rfl
  · exact hlookup "principal_groups" (by decide) (.strs _) rfl

/-- A request whose action tries to write members of its own. -/
def forgingRequest : AuthzRequest :=
  { principal := Principal.withRoles "bob" ["STAFF"]
    action := ⟨"read\", \"subject_id\": \"ann"⟩
    resource := .ofKind "DOC"
    subject := some ⟨"carl", "User", ["OPS"], .empty⟩
    context := ⟨.empty⟩
    relationships := []
    actingAs := none
    onBehalfOf := none }

/-- The fixed members of that request are its own. -/
theorem fixed_members_kept_forging : ∃ ms,
    Json.parse (buildContextJson forgingRequest) = some (.obj ms) ∧
      ∀ m ∈ fixedValue forgingRequest, lookupEntry m.1 ms = some m.2 := by
  have hhead : headMembers forgingRequest = some [("action_name", .str "READ"),
      ("SUBJECT_ID", .str "ANN"), ("resource_kind", .str "DOC")] := by rfl
  have hclean : (splicedMembers forgingRequest).all Json.memberClean = true := by decide +kernel
  have hms : Json.parse (buildContextJson forgingRequest) = some (.obj (insertEntries
      [("action_name", .str "READ"), ("SUBJECT_ID", .str "ANN"), ("resource_kind", .str "DOC")]
      ((splicedMembers forgingRequest).map Json.memberJson))) := by
    rw [headMembers] at hhead
    rw [parse_buildContextJson, hhead, Option.bind_some, if_pos hclean]
  exact ⟨_, hms, fixed_members_kept (by decide) hms⟩

/-! ## All members -/

/-- The members the context is built from. -/
def contextMembers (req : AuthzRequest) : List (String × Json.Plain) :=
  plainHead req ++ splicedMembers req

/-- The text is an object in which every member is read back. -/
def RoundTrips (req : AuthzRequest) : Prop :=
  ∃ ms, Json.parse (buildContextJson req) = some (.obj ms) ∧
    ∀ m ∈ contextMembers req, lookupEntry m.1 ms = some m.2.toJson

/-- Action and kind need no escape, and no other string contains a control character. -/
def NeedsNoEscaping (req : AuthzRequest) : Prop :=
  (Cedar.isPlain req.action.name = true ∧ Json.isClean req.action.name = true) ∧
    (Cedar.isPlain req.resource.kind = true ∧ Json.isClean req.resource.kind = true) ∧
    (splicedMembers req).all Json.memberClean = true

instance (req : AuthzRequest) : Decidable (NeedsNoEscaping req) :=
  inferInstanceAs (Decidable (_ ∧ _))

/-- The engine takes an object of strings, booleans and lists of strings as a context. Nothing is
said of an object with a single member: by its key it may be an escape, such as `__expr`, which no
engine takes as a record. -/
def Cedar.Engine.ReadsObjects (E : Engine) : Prop :=
  ∀ (s : String) (new : List (String × Json.Plain)), 1 < new.length →
    Json.parse s = some (.obj (new.map Json.memberJson)) → ∃ c, E.contextFromJsonStr s = .ok c

theorem reference_readsObjects : Engine.reference.ReadsObjects := by
  intro s new _ hs
  refine ⟨Cedar.Record.ofMembers (new.map Json.memberJson), ?_⟩
  simp only [Engine.reference, hs]

/-- Where the built-in names are avoided no key stands twice in the context text. -/
theorem nodup_contextMembers {req : AuthzRequest}
    (havoid : ∀ k ∈ req.context.values.keys, k ∉ builtinNames) :
    ((contextMembers req).map Prod.fst).Nodup := by
  have hkeys : (contextMembers req).map Prod.fst = exposedNames ++
      (req.context.values.keys ++ ["principal_roles", "principal_groups"]) := by
    simp [contextMembers, plainHead, splicedMembers, exposedNames, IndexMap.keys,
      Function.comp_def]
  have hsub : ∀ k ∈ exposedNames, k ∈ builtinNames := by decide
  have hlast : ∀ k ∈ ["principal_roles", "principal_groups"], k ∈ builtinNames := by decide
  have hexposed : ∀ k ∈ exposedNames, k ∉ ["principal_roles", "principal_groups"] := by decide
  rw [hkeys, List.nodup_append, List.nodup_append]
  refine ⟨by decide, ⟨req.context.values.nodup, by decide, ?_⟩, ?_⟩
  · rintro a ha b hb rfl
    exact havoid a ha (hlast a hb)
  · rintro a ha b hb rfl
    rcases List.mem_append.1 hb with hb | hb
    · exact havoid a hb (hsub a ha)
    · exact hexposed a ha hb

/-- Strings without a control character give the object they were built from. -/
theorem parse_of_needsNoEscaping {req : AuthzRequest}
    (havoid : ∀ k ∈ req.context.values.keys, k ∉ builtinNames) (h : NeedsNoEscaping req) :
    Json.parse (buildContextJson req) = some (.obj ((contextMembers req).map Json.memberJson)) := by
  obtain ⟨⟨haction, hactionClean⟩, ⟨hkind, hkindClean⟩, hspliced⟩ := h
  have hclean : (plainHead req).all Json.memberClean = true := by
    have ha := isClean_toAsciiUppercase hactionClean
    have hk := isClean_toAsciiUppercase hkindClean
    have hnames : Json.isClean "action_name" = true ∧ Json.isClean "resource_kind" = true := by
      decide
    simp [plainHead, Json.memberClean, Json.Plain.isClean, ha, hk, hnames]
  have hhead := headMembers_plain haction hkind
  rw [if_pos hclean, headMembers] at hhead
  have hnodup : (([] ++ (contextMembers req).map Json.memberJson).map Prod.fst).Nodup := by
    rw [List.nil_append, List.map_map]
    exact nodup_contextMembers havoid
  rw [parse_buildContextJson, hhead, Option.bind_some, if_pos hspliced, ← insertEntries_append,
    ← List.map_append, ← contextMembers, insertEntries_of_nodup hnodup, List.nil_append]

/-! ## What a round trip needs -/

theorem not_lower_toAsciiUppercase (s : String) :
    ∀ c ∈ (Text.toAsciiUppercase s).toList, c.isLower = false := by
  intro c hc
  rw [Text.toAsciiUppercase, String.toList_ofList] at hc
  obtain ⟨d, -, rfl⟩ := List.mem_map.1 hc
  rw [Bool.eq_false_iff]
  intro hlower
  simp only [Char.isLower, Bool.and_eq_true, decide_eq_true_eq, ge_iff_le,
    UInt32.le_iff_toNat_le] at hlower
  have h97 : 'a'.val.toNat = 97 := rfl
  have h122 : 'z'.val.toNat = 122 := rfl
  -- the result is either a letter moved out of a..z or no lower case letter from the start
  unfold Char.toUpper at hlower
  split at hlower
  · rename_i hd
    simp only [UInt32.le_iff_toNat_le] at hd
    have hval : (d.val + ('A'.val - 'a'.val)).toNat = (d.val.toNat + 4294967264) % 4294967296 := by
      rw [UInt32.toNat_add]
      rfl
    rw [hval] at hlower
    omega
  · rename_i hd
    simp only [UInt32.le_iff_toNat_le] at hd
    omega

/-- A name needs no escape when its upper-case form needs none. -/
theorem needsNoEscape_name {s : String} (h : Json.NeedsNoEscape (Text.toAsciiUppercase s).toList) :
    Cedar.isPlain s = true ∧ Json.isClean s = true := by
  have hchar : ∀ c ∈ s.toList, c ≠ '"' ∧ c ≠ '\\' ∧ Text.isControl c = false := by
    intro c hc
    have hupper := h c.toUpper (by
      rw [Text.toAsciiUppercase, String.toList_ofList]
      exact List.mem_map_of_mem hc)
    refine ⟨?_, ?_, ?_⟩
    · rintro rfl
      exact hupper.1 rfl
    · rintro rfl
      exact hupper.2.1 rfl
    · rw [Bool.eq_false_iff]
      intro hcontrol
      -- no control character has an upper case form
      have hsame : c.toUpper = c := by
        simp only [Text.isControl, decide_eq_true_eq] at hcontrol
        have h97 : 'a'.val.toNat = 97 := rfl
        have hlow : c.val.toNat < 32 := hcontrol
        unfold Char.toUpper
        refine dif_neg ?_
        simp only [UInt32.le_iff_toNat_le]
        omega
      rw [hsame, hcontrol] at hupper
      exact absurd hupper.2.2 (by decide)
  constructor
  · rw [Cedar.isPlain, List.all_eq_true]
    exact fun c hc => by simp [(hchar c hc).1, (hchar c hc).2.1]
  · rw [Json.isClean, List.all_eq_true]
    exact fun c hc => by rw [(hchar c hc).2.2]; rfl

/-- **An action or kind that is read back needs no escape.** -/
theorem needsNoEscape_of_head {req : AuthzRequest} {head : List (String × Json)}
    (hhead : headMembers req = some head)
    (haction : lookupEntry "action_name" head =
      some (.str (Text.toAsciiUppercase req.action.name)))
    (hkind : lookupEntry "resource_kind" head =
      some (.str (Text.toAsciiUppercase req.resource.kind))) :
    Json.NeedsNoEscape (Text.toAsciiUppercase req.action.name).toList ∧
      Json.NeedsNoEscape (Text.toAsciiUppercase req.resource.kind).toList := by
  have hactionLower := not_lower_toAsciiUppercase req.action.name
  have hkindLower := not_lower_toAsciiUppercase req.resource.kind
  have htext : contextHead req ++ [',', ' '] = "\x7b\"action_name\": \"".toList ++
      ((Text.toAsciiUppercase req.action.name).toList ++ ['"', ',', ' ', '"'] ++
        ("resource_kind\": \"".toList ++
          ((Text.toAsciiUppercase req.resource.kind).toList ++ ['"', ',', ' ']))) := by
    simp [contextHead, String.toList_append]
  have hstart : Json.readAll .init "\x7b\"action_name\": \"".toList =
      some ⟨.str [], .value (.member [] "action_name"), [.top]⟩ := by rfl
  have hne : ∀ {s : List Char} {t : String}, s ≠ t.toList →
      some (Json.str (String.ofList s)) ≠ some (.str t) := by
    rintro s t hs h
    refine hs ?_
    rw [← Json.str.inj (Option.some.inj h), String.toList_ofList]
  rw [headMembers, htext, Json.readAll_append, hstart, Option.bind_some, Json.readAll_append] at hhead
  generalize (Text.toAsciiUppercase req.action.name) = a at haction hactionLower hhead ⊢
  generalize (Text.toAsciiUppercase req.resource.kind) = k at hkind hkindLower hhead ⊢
  -- the reader stands at the next key behind the action, or has settled on another action
  cases hr₁ : Json.readAll ⟨.str [], .value (.member [] "action_name"), [.top]⟩
      (a.toList ++ ['"', ',', ' ', '"']) with
  | none => rw [hr₁] at hhead; cases hhead
  | some r₁ =>
      rw [hr₁, Option.bind_some] at hhead
      rcases @Json.raw_member_quote "action_name" 'a' (by decide) (by decide)
        _ _ hactionLower _ hr₁ with hclean | ⟨s, hs, hcalm⟩
      · refine ⟨hclean, ?_⟩
        have hfirst : Json.readAll ⟨.str [], .value (.member [] "action_name"), [.top]⟩
            (a.toList ++ ['"', ',', ' ', '"']) = some ⟨.str [],
              .key [("action_name", .str (String.ofList a.toList))], [.top]⟩ := by
          rw [Json.readAll_append, Json.readAll_needsNoEscape hclean]
          rfl
        have hsecond : Json.readAll ⟨.str [],
              .key [("action_name", .str (String.ofList a.toList))], [.top]⟩
            "resource_kind\": \"".toList = some ⟨.str [],
              .value (.member [("action_name", .str (String.ofList a.toList))] "resource_kind"),
              [.top]⟩ := by rfl
        obtain rfl := Option.some.inj (hr₁.symm.trans hfirst)
        rw [Json.readAll_append, hsecond, Option.bind_some] at hhead
        cases hr₂ : Json.readAll ⟨.str [], .value (.member
            [("action_name", .str (String.ofList a.toList))] "resource_kind"), [.top]⟩
            (k.toList ++ ['"', ',', ' ']) with
        | none => rw [hr₂] at hhead; cases hhead
        | some r₂ =>
            rw [hr₂] at hhead
            rcases @Json.raw_member "resource_kind" 'r' (by decide) (by decide)
              _ _ hkindLower _ hr₂ with hclean | ⟨s, hs, hcalm⟩ | ⟨-, acc, rfl⟩
            · exact hclean
            · rw [hcalm.membersAt hhead] at hkind
              exact absurd hkind (hne hs)
            · cases hhead
      · -- the action is left with another value, which the rest of the text cannot replace
        have hpunctuation : ∀ c ∈ ['"', ',', ' '], c.isLower = false := by
          intro c hc
          simp only [List.mem_cons, List.not_mem_nil, or_false] at hc
          rcases hc with rfl | rfl | rfl <;> rfl
        have hcalmText : Json.CalmText 'a' '"' ("resource_kind\": \"".toList ++
            (k.toList ++ ['"', ',', ' '])) := by
          have hrest : Json.CalmText 'a' '"' (k.toList ++ ['"', ',', ' ']) := by
            refine Json.calmText_of_not_lower (by decide) fun c hc => ?_
            rcases List.mem_append.1 hc with hc | hc
            · exact hkindLower c hc
            · exact hpunctuation c hc
          simpa [Json.CalmText] using hrest
        cases hr₂ : Json.readAll r₁ ("resource_kind\": \"".toList ++
            (k.toList ++ ['"', ',', ' '])) with
        | none => rw [hr₂] at hhead; cases hhead
        | some r₂ =>
            rw [hr₂] at hhead
            obtain ⟨last, hlast⟩ := hcalm.readAll (by decide) (by decide) hcalmText hr₂
            rw [hlast.membersAt hhead] at haction
            exact absurd haction (hne hs)

/-- **When the context is a round trip.** With free-form keys that are none of the built-in names,
every member of the text is read back, and the engine takes the text as a context, exactly when the
strings of the request need no escaping beyond what the text does. -/
theorem context_round_trips_iff {E : Engine} (hE : E.ReadsObjects) {req : AuthzRequest}
    (havoid : ∀ k ∈ req.context.values.keys, k ∉ builtinNames) :
    (RoundTrips req ∧ ∃ c, E.contextFromJsonStr (buildContextJson req) = .ok c) ↔
      NeedsNoEscaping req := by
  constructor
  · rintro ⟨⟨ms, hms, hread⟩, -⟩
    obtain ⟨head, hhead, -⟩ := lookup_object hms "action_name"
    have hkey : ∀ m ∈ plainHead req, lookupEntry m.1 head = some m.2.toJson := by
      intro m hm
      obtain ⟨head', hhead', hlookup⟩ := lookup_object hms m.1
      obtain rfl := Option.some.inj (hhead.symm.trans hhead')
      -- no spliced key is one of the two in front
      have hnot : lookupEntry m.1 ((splicedMembers req).map Json.memberJson).reverse = none := by
        rw [lookupEntry_eq_none_iff, List.map_reverse, List.mem_reverse, List.map_map]
        have hnodup := nodup_contextMembers havoid
        rw [contextMembers, List.map_append, List.nodup_append] at hnodup
        intro hmem
        exact hnodup.2.2 _ (List.mem_map_of_mem hm) _ hmem rfl
      rw [← hread m (List.mem_append_left _ hm), hlookup, hnot, Option.none_or]
    have hneeds := needsNoEscape_of_head hhead
      (hkey ("action_name", .str (Text.toAsciiUppercase req.action.name)) (by simp [plainHead]))
      (hkey ("resource_kind", .str (Text.toAsciiUppercase req.resource.kind)) (by simp [plainHead]))
    refine ⟨needsNoEscape_name hneeds.1, needsNoEscape_name hneeds.2, ?_⟩
    rw [parse_buildContextJson] at hms
    obtain ⟨_, -, hms⟩ := Option.bind_eq_some_iff.1 hms
    split at hms
    · rename_i hclean
      exact hclean
    · cases hms
  · intro h
    have hparse := parse_of_needsNoEscaping havoid h
    have hseveral : 1 < (contextMembers req).length := by
      simp [contextMembers, plainHead]
    refine ⟨⟨_, hparse, fun m hm => ?_⟩, hE _ _ hseveral hparse⟩
    have hnodup : (((contextMembers req).map Json.memberJson).map Prod.fst).Nodup := by
      rw [List.map_map]
      exact nodup_contextMembers havoid
    exact lookupEntry_of_mem hnodup (List.mem_map_of_mem hm)

/-- The request of the forged action does not round trip. -/
theorem context_round_trips_forging :
    (RoundTrips forgingRequest ∧
      ∃ c, Engine.reference.contextFromJsonStr (buildContextJson forgingRequest) = .ok c) ↔
        NeedsNoEscaping forgingRequest :=
  context_round_trips_iff reference_readsObjects (by decide)

/-- What the bridge makes of a prompt over two lines. -/
def twoLineRequest : AuthzRequest :=
  { principal := Principal.withRoles "bob" ["STAFF"]
    action := ⟨"EXPORT"⟩
    resource := ⟨"SALARY", some "api.export.payroll", .empty⟩
    subject := none
    context := ⟨.ofList [("nl_utterance", "export\npayroll"), ("extraction_confidence", "0.9"),
      ("proposal_only", "true")]⟩
    relationships := []
    actingAs := some "agent:nl-bridge"
    onBehalfOf := some "bob" }

/-- A valid request made from a prompt over two lines has no context. -/
theorem two_lines_unreadable :
    catalogAwareBuildRequest (fun _ _ => none) (Principal.withRoles "bob" ["STAFF"]) none
      "export\npayroll" = .ok twoLineRequest ∧
    twoLineRequest.validate = .ok () ∧
    (∀ k ∈ twoLineRequest.context.values.keys, k ∉ builtinNames) ∧
    ¬RoundTrips twoLineRequest ∧
    ∀ c, Engine.reference.contextFromJsonStr (buildContextJson twoLineRequest) ≠ .ok c := by
  have hnone : Json.parse (buildContextJson twoLineRequest) = none := by
    have hcontrol : (splicedMembers twoLineRequest).all Json.memberClean = false := by
      decide +kernel
    rw [parse_buildContextJson, hcontrol]
    cases Json.membersAt (Json.readAll .init (contextHead twoLineRequest ++ [',', ' '])) <;> rfl
  -- about any text, so that the kernel has no context text to compute
  have hunread : ∀ text, Json.parse text = none →
      ∀ c, Engine.reference.contextFromJsonStr text ≠ .ok c := by
    intro text htext c hc
    simp only [Engine.reference, htext] at hc
    cases hc
  refine ⟨by decide +kernel, by decide, by decide +kernel, ?_, hunread _ hnone⟩
  rintro ⟨ms, hms, -⟩
  rw [hnone] at hms
  cases hms

end Paac
