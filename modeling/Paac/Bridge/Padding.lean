import Paac.Bridge.Edges
import Paac.Library.Words
import Paac.Policy.FreeContext

set_option autoImplicit false

/-!
# Padded prompts

`extract_structured` takes the first of six phrases that occurs anywhere in a prompt, so text around
a prompt can make it read as something else. A padded prompt is as locked as the prompt itself
exactly when it is read the same way, or when it has a control character and is never decided.

What an utterance is read as (`reading`) is its phrase and, for two of the phrases, the resource
that is searched in the text. Everything the bridge extracts is a function of the reading and of the
utterance itself, and the utterance goes into the free-form context only, where no policy of the
policy language looks. This gives one direction. For the other one the module writes, for each
reading, a text that allows just what it asks for: a policy for one phrase, for one kind of
resource, or, where arbitrary policy sets are meant, for one prompt word for word.

## Main results

- `extractStructured_eq`, `reading_padded`: what a prompt is read as, and what is left of that in a
  padded one.
- `effectOf_of_hasControl`: a prompt with a control character is never decided.
- `locked_of_reading`: equal readings give equal effects under every policy list, catalog and
  principal, because the requests differ in free-form context only.
- `not_locked_of_reading`, `not_locked_of_ne`: different readings are told apart by a policy for one
  phrase, one kind or one prompt.
- `locked_iff`: the condition is exact, for policies of the policy language and for all policy sets.
- `export_unlocked`: a prompt that is denied is allowed behind a few words.
-/

namespace Paac

open Cedar (Engine)

/-! ## Phrases -/

/-- What the bridge recognises, in the order in which it looks. -/
inductive Phrase where
  | executiveExpense
  | sql
  | payrollExport
  | retrieval
  | ownProfile
  | aliceTravel
  deriving DecidableEq, Repr

def Phrase.all : List Phrase :=
  [.executiveExpense, .sql, .payrollExport, .retrieval, .ownProfile, .aliceTravel]

/-- The phrase occurs in the lower-case text. -/
def Phrase.occurs (lower : String) : Phrase → Bool
  | .executiveExpense => asksExecutiveExpense lower
  | .sql => asksSql lower
  | .payrollExport => asksPayrollExport lower
  | .retrieval => asksRetrieval lower
  | .ownProfile => asksOwnProfile lower
  | .aliceTravel => asksAliceTravel lower

/-- The first phrase that occurs. -/
def phraseOf (lower : String) : Option Phrase := Phrase.all.find? (·.occurs lower)

/-- The resource the phrase is about, which two of them search in the text. -/
def Phrase.resourceId (captures : String → String → Option String) (lower : String) :
    Phrase → Option String
  | .executiveExpense => some "db.hr.travel_expenses"
  | .sql => captures "(db\\.[a-z0-9_.]+)" lower
  | .payrollExport => some "api.export.payroll"
  | .retrieval => captures "(vec\\.[a-z0-9_.]+)" lower
  | .ownProfile => some "employee.self_profile"
  | .aliceTravel => some "db.hr.travel_expenses"

/-- What a phrase with its resource says. -/
def Phrase.extraction (utterance : String) (resourceId : Option String) : Phrase → NlExtraction
  | .executiveExpense =>
      ⟨utterance, "READ", "TRAVEL_EXPENSE", resourceId, some "employee:CEO", ["EXECUTIVE"],
        ["employee:alice"], "0.95"⟩
  | .sql => ⟨utterance, "TOOL_INVOKE", "DB_TABLE", resourceId, none, [], [], "0.85"⟩
  | .payrollExport => ⟨utterance, "EXPORT", "SALARY", resourceId, none, [], [], "0.9"⟩
  | .retrieval => ⟨utterance, "READ", "VECTOR_COLLECTION", resourceId, none, [], [], "0.8"⟩
  | .ownProfile => ⟨utterance, "READ", "EMPLOYEE_PROFILE", resourceId, none, [], [], "0.75"⟩
  | .aliceTravel =>
      ⟨utterance, "READ", "TRAVEL_EXPENSE", resourceId, some "employee:alice", ["ENGINEERING"],
        ["employee:alice"], "0.9"⟩

/-- How an utterance is read: its phrase and the resource. -/
def reading (captures : String → String → Option String) (utterance : String) :
    Option (Phrase × Option String) :=
  let lower := Text.toAsciiLowercase utterance
  (phraseOf lower).map fun p => (p, p.resourceId captures lower)

/-- **The reading is all that is extracted.** -/
theorem extractStructured_eq (captures : String → String → Option String) (utterance : String) :
    extractStructured captures utterance =
      match reading captures utterance with
      | some r => .ok (r.1.extraction utterance r.2)
      | none =>
          .error (.msg ("could not extract structured AuthzRequest from: " ++ utterance)) := by
  simp only [extractStructured, reading, phraseOf, Phrase.all, List.find?, Phrase.occurs]
  generalize Text.toAsciiLowercase utterance = lower
  cases asksExecutiveExpense lower with
  | true => rfl
  | false =>
  cases asksSql lower with
  | true => rfl
  | false =>
  cases asksPayrollExport lower with
  | true => rfl
  | false =>
  cases asksRetrieval lower with
  | true => rfl
  | false =>
  cases asksOwnProfile lower with
  | true => rfl
  | false =>
  cases asksAliceTravel lower with
  | true => rfl
  | false => rfl

/-- What is extracted is the reading of the prompt. -/
theorem reading_of_extracted {captures : String → String → Option String} {utterance : String}
    {extraction : NlExtraction} (h : extractStructured captures utterance = .ok extraction) :
    ∃ r, reading captures utterance = some r ∧ extraction = r.1.extraction utterance r.2 := by
  rw [extractStructured_eq] at h
  cases hr : reading captures utterance with
  | none => rw [hr] at h; cases h
  | some r =>
      rw [hr] at h
      exact ⟨r, rfl, (Except.ok.inj h).symm⟩

/-! ## Padding keeps phrases -/

/-- A phrase that occurs in a prompt occurs in the padded one. -/
theorem Phrase.occurs_padded {p : Phrase} {u : String} (h : p.occurs u = true) (s t : String) :
    p.occurs (s ++ u ++ t) = true := by
  have hpad := fun needle (hneedle : Text.contains needle u = true) =>
    Text.contains_padded hneedle s t
  cases p with
  | executiveExpense =>
      simp only [occurs, asksExecutiveExpense, Bool.and_eq_true, Bool.or_eq_true] at h ⊢
      have hwho := h.1.imp (hpad _) (hpad _)
      have hwhat := Or.imp (Or.imp (Or.imp (Or.imp (Or.imp (hpad _) (hpad _)) (hpad _)) (hpad _))
        (hpad _)) (hpad _) h.2
      exact ⟨hwho, hwhat⟩
  | sql =>
      simp only [occurs, asksSql, Bool.or_eq_true] at h ⊢
      exact Or.imp (Or.imp (hpad _) (hpad _)) (hpad _) h
  | payrollExport =>
      simp only [occurs, asksPayrollExport, Bool.and_eq_true, Bool.or_eq_true] at h ⊢
      exact ⟨hpad _ h.1, h.2.imp (hpad _) (hpad _)⟩
  | retrieval =>
      simp only [occurs, asksRetrieval, Bool.or_eq_true] at h ⊢
      exact Or.imp (Or.imp (hpad _) (hpad _)) (hpad _) h
  | ownProfile =>
      simp only [occurs, asksOwnProfile, Bool.or_eq_true] at h ⊢
      exact h.imp (hpad _) (hpad _)
  | aliceTravel =>
      simp only [occurs, asksAliceTravel, Bool.and_eq_true, Bool.or_eq_true] at h ⊢
      exact ⟨hpad _ h.1, h.2.imp (hpad _) (hpad _)⟩

/-- A padded prompt is still recognised. -/
theorem reading_padded {captures : String → String → Option String} {u : String}
    {r : Phrase × Option String} (h : reading captures u = some r) (s t : String) :
    ∃ r', reading captures (s ++ u ++ t) = some r' := by
  obtain ⟨p, hp, -⟩ := Option.map_eq_some_iff.1 h
  have hlower : Text.toAsciiLowercase (s ++ u ++ t) =
      Text.toAsciiLowercase s ++ Text.toAsciiLowercase u ++ Text.toAsciiLowercase t := by
    rw [← String.toList_inj]
    simp only [Text.toAsciiLowercase, String.toList_append, String.toList_ofList, List.map_append]
  have hoccurs := Phrase.occurs_padded (List.find?_some hp) (Text.toAsciiLowercase s)
    (Text.toAsciiLowercase t)
  rw [← hlower] at hoccurs
  have hsome : (phraseOf (Text.toAsciiLowercase (s ++ u ++ t))).isSome = true := by
    rw [phraseOf, List.find?_isSome]
    exact ⟨p, List.mem_of_find?_eq_some hp, hoccurs⟩
  obtain ⟨p', hp'⟩ := Option.isSome_iff_exists.1 hsome
  exact ⟨_, Option.map_eq_some_iff.2 ⟨p', hp', rfl⟩⟩

/-! ## Locked prompts -/

/-- What comes of an utterance that is extracted, bound and decided. -/
def effectOf (E : Engine) (captures : String → String → Option String) (principal : Principal)
    (catalog : Option ResourceCatalog) (cfg : EvaluatorConfig E) (fresh : Fresh)
    (utterance : String) : Option DecisionEffect :=
  match catalogAwareBuildRequest captures principal catalog utterance with
  | .ok req => (evaluate E fresh req cfg).toOption.map (·.effect)
  | .error _ => none

/-- Where the prompt `u` is denied, the padded prompt is not allowed, under every policy set of the
class, for every principal and every catalog. -/
def Locked (C : ∀ E : Engine, E.PolicySet → Prop) (captures : String → String → Option String)
    (s u t : String) : Prop :=
  ∀ E : Engine, E.Lawful → ∀ cfg : EvaluatorConfig E, C E cfg.policySet →
    ∀ (principal : Principal) (catalog : Option ResourceCatalog) (fresh₁ fresh₂ : Fresh),
      effectOf E captures principal catalog cfg fresh₁ u = some .deny →
        effectOf E captures principal catalog cfg fresh₂ (s ++ u ++ t) ≠ some .allow

/-- Policy sets from texts of the policy language whose conditions are about built-in attributes. -/
def FromDsl (E : Engine) (P : E.PolicySet) : Prop :=
  ∃ input ps, parseDsl input = .ok ps ∧ ReadsBuiltins ps ∧ cedarPolicySetFromDsl E ps = .ok P

/-- Every policy set. -/
def AnyPolicySet (E : Engine) (_ : E.PolicySet) : Prop := True

/-- The text cannot stand in a context. -/
def hasControl (utterance : String) : Bool := !Json.isClean utterance

/-- A decided prompt was read, and the request of the reading was decided. -/
theorem effectOf_eq_some {E : Engine} {captures : String → String → Option String}
    {principal : Principal} {catalog : Option ResourceCatalog} {cfg : EvaluatorConfig E}
    {fresh : Fresh} {utterance : String} {effect : DecisionEffect}
    (h : effectOf E captures principal catalog cfg fresh utterance = some effect) :
    ∃ r d, reading captures utterance = some r ∧
      evaluate E fresh (boundRequest principal (r.1.extraction utterance r.2) catalog) cfg = .ok d ∧
      d.effect = effect := by
  unfold effectOf at h
  cases hreq : catalogAwareBuildRequest captures principal catalog utterance with
  | error e => rw [hreq] at h; cases h
  | ok req =>
      rw [hreq] at h
      obtain ⟨d, hd, heffect⟩ := Option.map_eq_some_iff.1 h
      -- a request was built, so a phrase was read
      obtain ⟨e, he, hbind⟩ := bind_eq_ok.1 hreq
      obtain ⟨r, hr, rfl⟩ := reading_of_extracted he
      obtain rfl := bindExtraction_eq hbind
      refine ⟨r, d, hr, ?_, heffect⟩
      cases hev : evaluate E fresh (boundRequest principal (r.1.extraction utterance r.2) catalog)
          cfg with
      | error err => rw [hev] at hd; cases hd
      | ok d' =>
          rw [hev] at hd
          rw [Option.some.inj hd]

/-- The free-form context of a bound request. -/
def boundContext (extraction : NlExtraction) : IndexMap String :=
  ((IndexMap.empty.insert "nl_utterance" extraction.utterance).insert "extraction_confidence"
    extraction.confidence).insert "proposal_only" "true"

theorem keys_boundContext (extraction : NlExtraction) :
    (boundContext extraction).keys = ["nl_utterance", "extraction_confidence", "proposal_only"] :=
  rfl

/-- An utterance with a control character is never decided. -/
theorem effectOf_of_hasControl {E : Engine} (hE : E.Lawful)
    {captures : String → String → Option String} {principal : Principal}
    {catalog : Option ResourceCatalog} {cfg : EvaluatorConfig E} {fresh : Fresh}
    {utterance : String} (h : hasControl utterance = true) (effect : DecisionEffect) :
    effectOf E captures principal catalog cfg fresh utterance ≠ some effect := by
  intro heffect
  obtain ⟨r, d, -, hd, -⟩ := effectOf_eq_some heffect
  have hall := evaluate_clean hE hd
  -- the utterance is a member of the spliced context
  have hmem : ("nl_utterance", Json.Plain.str utterance) ∈
      splicedMembers (boundRequest principal (r.1.extraction utterance r.2) catalog) := by
    have hutterance : (r.1.extraction utterance r.2).utterance = utterance := by
      cases r.1 <;> rfl
    rw [splicedMembers, List.mem_append, List.mem_append]
    refine Or.inl (Or.inr (List.mem_map.2 ⟨("nl_utterance", utterance), ?_, rfl⟩))
    have hentries : (boundRequest principal (r.1.extraction utterance r.2)
        catalog).context.values.entries = [("nl_utterance", (r.1.extraction utterance r.2).utterance),
          ("extraction_confidence", (r.1.extraction utterance r.2).confidence),
          ("proposal_only", "true")] := rfl
    rw [hentries, hutterance]
    exact List.mem_cons_self
  have hmember := List.all_eq_true.1 hall _ hmem
  rw [Json.memberClean, Bool.and_eq_true] at hmember
  rw [hasControl, Bool.not_eq_true'] at h
  have hutterance : Json.isClean utterance = true := hmember.2
  rw [h] at hutterance
  cases hutterance

/-- Two prompts with one reading give requests that differ in their contexts only. -/
theorem boundRequest_utterance (principal : Principal) (p : Phrase) (r : Option String)
    (catalog : Option ResourceCatalog) (u₁ u₂ : String) :
    boundRequest principal (p.extraction u₂ r) catalog =
      (boundRequest principal (p.extraction u₁ r) catalog).withContext
        (boundContext (p.extraction u₂ r)) := by
  cases p <;> rfl

/-- **Padding that is read the same way unlocks nothing.** -/
theorem locked_of_reading {captures : String → String → Option String} {s u t : String}
    (h : reading captures (s ++ u ++ t) = reading captures u) : Locked FromDsl captures s u t := by
  intro E hE cfg hset principal catalog fresh₁ fresh₂ hdenied hallowed
  obtain ⟨input, ps, hinput, hreads, hps⟩ := hset
  obtain ⟨r₁, d₁, hr₁, hd₁, hdeny⟩ := effectOf_eq_some hdenied
  obtain ⟨r₂, d₂, hr₂, hd₂, hallow⟩ := effectOf_eq_some hallowed
  obtain rfl : r₁ = r₂ := Option.some.inj (hr₁.symm.trans (h.symm.trans hr₂))
  -- both requests are one request up to the utterance in the free-form context
  rw [boundRequest_utterance principal r₁.1 r₁.2 catalog u] at hd₁
  rw [boundRequest_utterance principal r₁.1 r₁.2 catalog u] at hd₂
  have hK : ∀ k ∈ ({"nl_utterance", "extraction_confidence", "proposal_only"} : Set String),
      k ∉ exposedNames := by
    rintro k (rfl | rfl | rfl) <;> decide
  have hkeys : ∀ extraction, ∀ k ∈ (boundContext extraction).keys,
      k ∈ ({"nl_utterance", "extraction_confidence", "proposal_only"} : Set String) := by
    intro extraction k hk
    rw [keys_boundContext] at hk
    simpa using hk
  have hsame := contextInert_of_not_exposed hK E hE input ps hinput hreads cfg hps _ _ _
    (hkeys _) (hkeys _) fresh₁ fresh₂ d₁ d₂ hd₁ hd₂
  rw [hdeny, hallow] at hsame
  cases hsame

/-! ## Binding succeeds -/

theorem newId_ok {label value : String} (h : (Text.trim value).isEmpty = false) :
    newId label value = .ok (Text.trim value) := by
  simp only [newId, h, Bool.false_eq_true, if_false]

/-- An extraction whose names are not blank is bound. -/
theorem bindExtraction_boundRequest {principal : Principal} {extraction : NlExtraction}
    {catalog : Option ResourceCatalog} (hprincipal : (Text.trim principal.id).isEmpty = false)
    (haction : (Text.trim extraction.action).isEmpty = false)
    (hkind : (Text.trim (boundResource extraction catalog).1).isEmpty = false)
    (hid : ∀ i, (boundResource extraction catalog).2.1 = some i → (Text.trim i).isEmpty = false)
    (hsubject : ∀ i, extraction.subjectId = some i → (Text.trim i).isEmpty = false) :
    bindExtraction principal extraction catalog =
      .ok (boundRequest principal extraction catalog) := by
  rw [bindExtraction, mapErr_eq_ok, buildProposal, boundRequest]
  generalize boundResource extraction catalog = bound at hkind hid ⊢
  obtain ⟨kind, id, attrs⟩ := bound
  -- one fact for each builder call that can fail
  have hresource : ∀ b : AuthzRequestBuilder, b.withResource kind id attrs =
      .ok { b with resource := some ⟨Text.trim kind, id.map Text.trim, attrs⟩ } := by
    intro b
    rw [AuthzRequestBuilder.withResource, ResourceKind.new, newId_ok hkind, bind_ok_eq]
    cases id with
    | none => rfl
    | some i =>
        simp only [ResourceId.new, newId_ok (hid i rfl)]
        rfl
  have hsubj : ∀ b : AuthzRequestBuilder, b.subject = none → bindSubject extraction b =
      .ok { b with subject := extraction.subjectId.map fun s =>
        ⟨Text.trim s, "Employee", extraction.subjectGroups, .empty⟩ } := by
    intro b hb
    unfold bindSubject
    cases hs : extraction.subjectId with
    | none =>
        rw [Option.map_none, ← hb]
    | some i =>
        simp only [AuthzRequestBuilder.withSubject, PrincipalId.new, newId_ok (hsubject i hs)]
        rfl
  have hvalid : ∀ req : AuthzRequest, req.principal = principal →
      req.action = ⟨Text.trim extraction.action⟩ → req.resource.kind = Text.trim kind →
      req.validate = .ok () := by
    intro req hp ha hk
    simp only [AuthzRequest.validate, hp, ha, hk, Text.trim_trim, hprincipal, haction, hkind,
      Bool.false_eq_true, if_false]
  simp only [AuthzRequestBuilder.principalObj, PrincipalId.new, newId_ok hprincipal,
    AuthzRequestBuilder.withAction, ActionName.new, newId_ok haction, bind_ok_eq, pure_bind]
  rw [hresource, bind_ok_eq, hsubj _ rfl, bind_ok_eq, bindFacts, foldl_relationship,
    AuthzRequestBuilder.build]
  simp only [AuthzRequestBuilder.required, AuthzRequestBuilder.contextKv,
    AuthzRequestBuilder.new, bind_ok_eq]
  rw [hvalid _ rfl rfl rfl]
  rfl

/-! ## Unlocking -/

/-- A match of either pattern starts with the literal part of the pattern. -/
structure MatchesPatterns (captures : String → String → Option String) : Prop where
  table : ∀ {text m}, captures "(db\\.[a-z0-9_.]+)" text = some m → ∃ rest, m = "db." ++ rest
  collection : ∀ {text m}, captures "(vec\\.[a-z0-9_.]+)" text = some m →
    ∃ rest, m = "vec." ++ rest

/-- The kind of the phrase where the catalog knows nothing better. -/
def Phrase.kind (p : Phrase) : String := (p.extraction "" none).resourceKind

namespace Unlock

/-- Whoever asks: a principal without roles. -/
def asker : Principal := Principal.withRoles "bob" []

/-- A catalog with one resource, of a kind that no phrase has. -/
def catalog (x : String) : ResourceCatalog := ⟨"1.0", [⟨x, "OPEN", "open", none, none, .empty⟩], []⟩

/-- What a request of the asker is about, when the phrase is bound to a kind. -/
def facts (p : Phrase) (kind : String) : Facts :=
  let e := p.extraction "" none
  { action := e.action
    kind
    isSelf := false
    inDirectReports := p = .aliceTravel
    subjectId := e.subjectId.getD ""
    subjectGroups := e.subjectGroups
    roles := [] }

/-- The text that allows what the phrase asks for, in the groups that it names. -/
def text (p : Phrase) (kind : String) : String :=
  let e := p.extraction "" none
  "policy p\nallow " ++ e.action ++ " " ++ kind ++
    Text.join "" (e.subjectGroups.map ("\nwhere subject in " ++ ·))

/-- The policy of that text. -/
def policy (p : Phrase) (kind : String) : DslPolicy :=
  let e := p.extraction "" none
  ⟨"p", .allow, e.action, kind, [], [], [], e.subjectGroups, text p kind⟩

def config (ps : List DslPolicy) : EvaluatorConfig Engine.reference :=
  ⟨ps.map compile, "r1", none, .empty⟩

theorem mem_all (p : Phrase) : p ∈ Phrase.all := by
  cases p <;> decide

theorem parse_text : ∀ p ∈ Phrase.all, ∀ kind ∈ [p.kind, "OPEN"],
    parseDsl (text p kind) = .ok [policy p kind] ∧
      [policy p kind].all DslPolicy.plainNames = true := by
  intro p _
  -- one phrase at a time, so that the kernel holds the texts of one only
  cases p <;> decide +kernel

/-- What the policies grant: their own phrase on their own kind, and nothing else. -/
theorem grants_exactly : ∀ p ∈ Phrase.all,
    (∀ kind ∈ [p.kind, "OPEN"], Grants [policy p kind] (facts p kind)) ∧
    (∀ q ∈ Phrase.all, p ≠ q → ¬Grants [policy q q.kind] (facts p p.kind)) ∧
    ¬Grants [policy p "OPEN"] (facts p p.kind) ∧ ¬Grants [policy p p.kind] (facts p "OPEN") := by
  decide +kernel

theorem grants_policy (p : Phrase) {kind : String} (hkind : kind ∈ [p.kind, "OPEN"]) :
    Grants [policy p kind] (facts p kind) :=
  (grants_exactly p (mem_all p)).1 kind hkind

theorem not_grants_phrase {p q : Phrase} (hne : p ≠ q) :
    ¬Grants [policy q q.kind] (facts p p.kind) :=
  (grants_exactly p (mem_all p)).2.1 q (mem_all q) hne

theorem not_grants_kind (p : Phrase) :
    ¬Grants [policy p "OPEN"] (facts p p.kind) ∧ ¬Grants [policy p p.kind] (facts p "OPEN") :=
  (grants_exactly p (mem_all p)).2.2

theorem simple_kind : ∀ p ∈ Phrase.all, ∀ kind ∈ [p.kind, "OPEN"],
    isSimple kind = true ∧ Text.trim kind = kind ∧ Text.toAsciiUppercase kind = kind ∧
      kind.isEmpty = false := by
  decide +kernel

section

variable {p : Phrase} {u kind : String} {id : Option String} {catalog? : Option ResourceCatalog}

/-- The request of a phrase that is bound to nothing. -/
theorem unbound : ∀ p ∈ Phrase.all,
    Facts.of (boundRequest asker (p.extraction "" none) none) = facts p p.kind ∧
    isSimpleRequest (boundRequest asker (p.extraction "" none) none) = true ∧
    (Text.trim (p.extraction "" none).action).isEmpty = false ∧
      ∀ i ∈ (p.extraction "" none).subjectId, (Text.trim i).isEmpty = false := by
  decide +kernel

/-- Only the kind depends on what the phrase is bound to. -/
theorem facts_boundRequest
    (hbound : boundResource (p.extraction u id) catalog? = (kind, id, .empty))
    (hkind : kind ∈ [p.kind, "OPEN"]) :
    Facts.of (boundRequest asker (p.extraction u id) catalog?) = facts p kind := by
  obtain ⟨-, htrim, hupper, -⟩ := simple_kind p (mem_all p) kind hkind
  have hfacts : facts p kind = { facts p p.kind with kind } := rfl
  rw [hfacts, ← (unbound p (mem_all p)).1]
  simp only [Facts.of, boundRequest, hbound, htrim, hupper, subjectIsSelf, subjectInDirectReports]
  cases p <;> rfl

theorem extraction_eq (p : Phrase) (u : String) (id : Option String) :
    p.extraction u id = { p.extraction "" none with utterance := u, resourceId := id } := by
  cases p <;> rfl

/-- The context is clean when the prompt is and the confidence is. -/
theorem clean_boundContext (e : NlExtraction) :
    (boundContext e).entries.all (fun e => Json.isClean e.1 && Json.isClean e.2) =
      (Json.isClean e.utterance && Json.isClean e.confidence) := by
  have hentries : (boundContext e).entries = [("nl_utterance", e.utterance),
      ("extraction_confidence", e.confidence), ("proposal_only", "true")] := rfl
  have hnames : Json.isClean "nl_utterance" = true ∧ Json.isClean "extraction_confidence" = true ∧
      Json.isClean "proposal_only" = true ∧ Json.isClean "true" = true := by decide
  rw [hentries, List.all_cons, List.all_cons, List.all_cons, List.all_nil, hnames.1, hnames.2.1,
    hnames.2.2.1, hnames.2.2.2, Bool.true_and, Bool.true_and, Bool.true_and, Bool.and_true,
    Bool.and_true]

/-- A clean utterance of the asker makes a simple request. -/
theorem simple_boundRequest (hclean : Json.isClean u = true)
    (hbound : boundResource (p.extraction u id) catalog? = (kind, id, .empty))
    (hkind : kind ∈ [p.kind, "OPEN"]) :
    isSimpleRequest (boundRequest asker (p.extraction u id) catalog?) = true := by
  obtain ⟨hsimple, htrim, -, -⟩ := simple_kind p (mem_all p) kind hkind
  have hunbound := (unbound p (mem_all p)).2.1
  have hresource : (boundRequest asker (p.extraction u id) catalog?).resource =
      ⟨kind, id.map Text.trim, .empty⟩ := by
    simp only [boundRequest, hbound, htrim]
  simp only [isSimpleRequest, Bool.and_eq_true] at hunbound ⊢
  obtain ⟨⟨⟨⟨⟨⟨⟨⟨⟨haction, -⟩, hroles⟩, hgroups⟩, hattrs⟩, -⟩, hsubject⟩, hcontext⟩, hreports⟩,
    hlast⟩ := hunbound
  rw [hresource]
  refine ⟨⟨⟨⟨⟨⟨⟨⟨⟨?_, hsimple⟩, hroles⟩, hgroups⟩, hattrs⟩, rfl⟩, ?_⟩, ?_⟩, ?_⟩, hlast⟩
  · rw [extraction_eq]
    exact haction
  · rw [extraction_eq]
    exact hsubject
  · rw [extraction_eq]
    have hconfidence := (clean_boundContext _).symm.trans hcontext
    rw [Bool.and_eq_true] at hconfidence
    exact (clean_boundContext _).trans (by rw [hclean]; exact hconfidence.2)
  · rw [extraction_eq]
    exact hreports

/-- The request of the asker is bound and valid. -/
theorem bound_boundRequest
    (hbound : boundResource (p.extraction u id) catalog? = (kind, id, .empty))
    (hkind : kind ∈ [p.kind, "OPEN"]) (hid : ∀ i, id = some i → (Text.trim i).isEmpty = false) :
    bindExtraction asker (p.extraction u id) catalog? =
        .ok (boundRequest asker (p.extraction u id) catalog?) ∧
      (boundRequest asker (p.extraction u id) catalog?).validate = .ok () := by
  obtain ⟨-, htrim, -, hne⟩ := simple_kind p (mem_all p) kind hkind
  obtain ⟨haction, hsubject⟩ := (unbound p (mem_all p)).2.2
  have hasker : (Text.trim asker.id).isEmpty = false := by decide
  have haction' : (Text.trim (p.extraction u id).action).isEmpty = false := by
    rw [extraction_eq]
    exact haction
  constructor
  · refine bindExtraction_boundRequest hasker haction' ?_ ?_ ?_
    · rw [hbound, htrim]
      exact hne
    · rw [hbound]
      exact hid
    · rw [extraction_eq]
      exact hsubject
  · simp only [AuthzRequest.validate, boundRequest, hbound, hasker, Text.trim_trim, haction', htrim, hne,
      Bool.false_eq_true, if_false]

/-- A clean utterance of the asker is decided. -/
theorem decided_asker {captures : String → String → Option String}
    (hread : reading captures u = some (p, id)) (hclean : Json.isClean u = true)
    (hbound : boundResource (p.extraction u id) catalog? = (kind, id, .empty))
    (hkind : kind ∈ [p.kind, "OPEN"]) (hid : ∀ i, id = some i → (Text.trim i).isEmpty = false)
    (cfg : EvaluatorConfig Engine.reference) (fresh : Fresh) :
    ∃ d, evaluate Engine.reference fresh (boundRequest asker (p.extraction u id) catalog?) cfg =
        .ok d ∧
      effectOf Engine.reference captures asker catalog? cfg fresh u = some d.effect := by
  obtain ⟨hbind, hvalid⟩ := bound_boundRequest hbound hkind hid
  have hsimple := simple_boundRequest hclean hbound hkind
  obtain ⟨d, hd⟩ := evaluate_reference hvalid hsimple fresh cfg
  refine ⟨d, hd, ?_⟩
  have hrequest : catalogAwareBuildRequest captures asker catalog? u =
      .ok (boundRequest asker (p.extraction u id) catalog?) := by
    have hextract : extractStructured captures u = .ok (p.extraction u id) := by
      rw [extractStructured_eq, hread]
    rw [catalogAwareBuildRequest, hextract, bind_ok_eq, hbind]
  rw [effectOf, hrequest]
  dsimp only
  rw [hd]
  rfl

/-- **What policies with plain names say** to a clean utterance of the asker. -/
theorem effectOf_asker {captures : String → String → Option String}
    (hread : reading captures u = some (p, id)) (hclean : Json.isClean u = true)
    (hbound : boundResource (p.extraction u id) catalog? = (kind, id, .empty))
    (hkind : kind ∈ [p.kind, "OPEN"]) (hid : ∀ i, id = some i → (Text.trim i).isEmpty = false)
    {ps : List DslPolicy} (hplain : ps.all DslPolicy.plainNames = true) (fresh : Fresh) :
    effectOf Engine.reference captures asker catalog? (config ps) fresh u =
      some (if Grants ps (facts p kind) then .allow else .deny) := by
  obtain ⟨d, hd, heffect⟩ := decided_asker hread hclean hbound hkind hid (config ps) fresh
  have hsimple := simple_boundRequest hclean hbound hkind
  have hset := cedarPolicySetFromDsl_ok (cedarPolicySetFromDsl_reference hplain)
  -- the free-form keys are those that the bridge writes
  have havoid : AvoidsBuiltins (boundRequest asker (p.extraction u id) catalog?) := by
    intro k hk
    have hkeys : k ∈ (boundContext (p.extraction u id)).keys := hk
    rw [keys_boundContext] at hkeys
    have hnames : ∀ k ∈ ["nl_utterance", "extraction_confidence", "proposal_only"],
        k ∉ builtinNames := by decide
    exact hnames k hkeys
  simp only [isSimpleRequest, Bool.and_eq_true] at hsimple
  obtain ⟨⟨⟨⟨⟨⟨⟨⟨⟨haction, hresource⟩, -⟩, -⟩, -⟩, -⟩, -⟩, -⟩, -⟩, -⟩ := hsimple
  have hallow := @evaluate_compiled _ Engine.reference_lawful _ _ (config ps) _ _ hplain hset havoid
    (isSimple_plain haction) (isSimple_plain hresource) hd
  rw [facts_boundRequest hbound hkind] at hallow
  rw [heffect]
  split
  · rename_i hgrants
    rw [hallow.2 hgrants]
  · rename_i hgrants
    obtain ⟨es, q, p', a, res, c, -, -, -, rfl⟩ := evaluate_ok hd
    rw [decisionOf_effect] at hallow ⊢
    cases hdecision : (Engine.reference.isAuthorized q (config ps).policySet es).decision with
    | allow => exact absurd (hallow.1 (by rw [hdecision]; rfl)) hgrants
    | deny => rfl

end

/-- Two readings that one catalog binds to kinds which one policy tells apart. -/
theorem not_locked {captures : String → String → Option String} {s u t : String}
    {p₁ p₂ : Phrase} {id₁ id₂ : Option String} (h₁ : reading captures u = some (p₁, id₁))
    (h₂ : reading captures (s ++ u ++ t) = some (p₂, id₂))
    (hclean : Json.isClean (s ++ u ++ t) = true) {catalog? : Option ResourceCatalog}
    {kind₁ kind₂ : String}
    (hb₁ : boundResource (p₁.extraction u id₁) catalog? = (kind₁, id₁, .empty))
    (hb₂ : boundResource (p₂.extraction (s ++ u ++ t) id₂) catalog? = (kind₂, id₂, .empty))
    (hk₁ : kind₁ ∈ [p₁.kind, "OPEN"]) (hk₂ : kind₂ ∈ [p₂.kind, "OPEN"])
    (hid₁ : ∀ i, id₁ = some i → (Text.trim i).isEmpty = false)
    (hid₂ : ∀ i, id₂ = some i → (Text.trim i).isEmpty = false)
    (hnot : ¬Grants [policy p₂ kind₂] (facts p₁ kind₁)) : ¬Locked FromDsl captures s u t := by
  intro hlocked
  obtain ⟨hparse, hplain⟩ := parse_text p₂ (mem_all p₂) kind₂ hk₂
  have hgrants := grants_policy p₂ hk₂
  have hclean' : Json.isClean u = true := by
    simp only [Json.isClean, String.toList_append, List.all_append, Bool.and_eq_true] at hclean
    exact hclean.1.2
  refine hlocked Engine.reference Engine.reference_lawful (config [policy p₂ kind₂])
    ⟨text p₂ kind₂, _, hparse, readsBuiltins_of_plain hplain,
      cedarPolicySetFromDsl_reference hplain⟩ asker catalog? ⟨"u", "t"⟩ ⟨"u", "t"⟩ ?_ ?_
  · rw [effectOf_asker h₁ hclean' hb₁ hk₁ hid₁ hplain, if_neg hnot]
  · rw [effectOf_asker h₂ hclean hb₂ hk₂ hid₂ hplain, if_pos hgrants]

/-- The catalog binds its own resource to its kind and leaves every other one as it is. -/
theorem boundResource_catalog (p : Phrase) (u x : String) {id : Option String}
    (hid : ∀ i, id = some i → i ≠ "OPEN") :
    boundResource (p.extraction u id) (some (catalog x)) =
      (if id = some x then "OPEN" else p.kind, id, .empty) := by
  have hkind : (p.extraction u id).resourceKind = p.kind := by
    cases p <;> rfl
  have hresource : (p.extraction u id).resourceId = id := by
    cases p <;> rfl
  unfold boundResource
  rw [hkind, hresource]
  -- without an id the catalog is searched by kind, and no phrase names the kind of its entry
  cases id with
  | none =>
      have hnone : (catalog x).findByKind p.kind = none := by
        have hkinds : ∀ p ∈ Phrase.all, (Text.eqIgnoreAsciiCase "OPEN" p.kind ||
            Text.contains (Text.toAsciiLowercase p.kind) (Text.toAsciiLowercase "open")) = false := by
          decide +kernel
        rw [ResourceCatalog.findByKind, catalog, List.find?_cons_of_neg, List.find?_nil]
        rw [hkinds p (mem_all p)]
        exact Bool.false_ne_true
      simp only [hnone]
      rfl
  | some i =>
      by_cases hi : i = x
      · subst hi
        have hfound : (catalog i).findResource i = some ⟨i, "OPEN", "open", none, none, .empty⟩ := by
          rw [ResourceCatalog.findResource, catalog, List.find?_cons_of_pos]
          rw [decide_eq_true rfl]
          rfl
        simp only [hfound]
        rfl
      · have hnone : (catalog x).findResource i = none := by
          rw [ResourceCatalog.findResource, catalog, List.find?_cons_of_neg, List.find?_nil]
          rw [Bool.or_eq_true, decide_eq_true_eq, decide_eq_true_eq]
          rintro (hx | hopen)
          · exact hi hx.symm
          · exact hid i rfl hopen.symm
        simp only [hnone, Option.some.injEq, hi, if_false]

/-- An identifier that is read is neither blank nor `OPEN`. -/
theorem visible_reading {captures : String → String → Option String}
    (hcaptures : MatchesPatterns captures) {u : String} {p : Phrase} {id : Option String}
    (h : reading captures u = some (p, id)) :
    ∀ i, id = some i → (Text.trim i).isEmpty = false ∧ i ≠ "OPEN" := by
  have hprefixed : ∀ (pre : String) (c : Char) (cs : List Char), pre.toList = c :: cs →
      Text.isWhitespace c = false → c ≠ 'O' → ∀ rest, (Text.trim (pre ++ rest)).isEmpty = false ∧
        pre ++ rest ≠ "OPEN" := by
    intro pre c cs hpre hc hO rest
    constructor
    · rw [Bool.eq_false_iff]
      intro hempty
      have hspace := Text.isWhitespace_of_trim_eq_empty (String.isEmpty_iff.1 hempty) c
        (by rw [String.toList_append, hpre]; exact List.mem_cons_self)
      rw [hc] at hspace
      cases hspace
    · intro hopen
      rw [← String.toList_inj, String.toList_append, hpre] at hopen
      exact hO (List.cons.inj hopen).1
  obtain ⟨p', -, hp⟩ := Option.map_eq_some_iff.1 h
  obtain ⟨rfl, rfl⟩ := Prod.mk.inj hp
  intro i hi
  -- two phrases capture an id; the others have a fixed one
  cases p' with
  | executiveExpense =>
      obtain rfl := Option.some.inj hi
      decide
  | sql =>
      obtain ⟨rest, rfl⟩ := hcaptures.table hi
      exact hprefixed "db." 'd' ['b', '.'] rfl rfl (by decide) rest
  | payrollExport =>
      obtain rfl := Option.some.inj hi
      decide
  | retrieval =>
      obtain ⟨rest, rfl⟩ := hcaptures.collection hi
      exact hprefixed "vec." 'v' ['e', 'c', '.'] rfl rfl (by decide) rest
  | ownProfile =>
      obtain rfl := Option.some.inj hi
      decide
  | aliceTravel =>
      obtain rfl := Option.some.inj hi
      decide

/-- **Padding that is read another way unlocks something.** -/
theorem not_locked_of_reading {captures : String → String → Option String}
    (hcaptures : MatchesPatterns captures) {s u t : String} {r : Phrase × Option String}
    (hr : reading captures u = some r) (hclean : Json.isClean (s ++ u ++ t) = true)
    (hne : reading captures (s ++ u ++ t) ≠ reading captures u) :
    ¬Locked FromDsl captures s u t := by
  obtain ⟨p₁, id₁⟩ := r
  obtain ⟨⟨p₂, id₂⟩, hr₂⟩ := reading_padded hr s t
  have hid₁ := visible_reading hcaptures hr
  have hid₂ := visible_reading hcaptures hr₂
  have hvisible₁ := fun i hi => (hid₁ i hi).1
  have hvisible₂ := fun i hi => (hid₂ i hi).1
  by_cases hp : p₁ = p₂
  · subst hp
    have hids : id₂ ≠ id₁ := by
      rintro rfl
      exact hne (hr₂.trans hr.symm)
    -- the catalog has the resource that only one of the two readings is about
    cases id₂ with
    | some x =>
        have hb₁ := boundResource_catalog p₁ u x fun i hi => (hid₁ i hi).2
        have hb₂ := boundResource_catalog p₁ (s ++ u ++ t) x fun i hi => (hid₂ i hi).2
        rw [if_neg (Ne.symm hids)] at hb₁
        rw [if_pos rfl] at hb₂
        exact not_locked hr hr₂ hclean hb₁ hb₂ List.mem_cons_self
          (List.mem_cons_of_mem _ List.mem_cons_self) hvisible₁ hvisible₂
          (not_grants_kind p₁).1
    | none =>
        obtain ⟨x, rfl⟩ := Option.ne_none_iff_exists'.1 (Ne.symm hids)
        have hb₁ := boundResource_catalog p₁ u x fun i hi => (hid₁ i hi).2
        have hb₂ := boundResource_catalog p₁ (s ++ u ++ t) x fun i hi => (hid₂ i hi).2
        rw [if_pos rfl] at hb₁
        rw [if_neg hids] at hb₂
        exact not_locked hr hr₂ hclean hb₁ hb₂ (List.mem_cons_of_mem _ List.mem_cons_self)
          List.mem_cons_self hvisible₁ hvisible₂ (not_grants_kind p₁).2
  · have hbound : ∀ (p : Phrase) (u : String) (id : Option String),
        boundResource (p.extraction u id) none = (p.kind, id, .empty) := by
      intro p u id
      cases p <;> rfl
    exact not_locked hr hr₂ hclean (hbound p₁ u id₁) (hbound p₂ _ id₂) List.mem_cons_self
      List.mem_cons_self hvisible₁ hvisible₂
      (not_grants_phrase hp)

/-- A policy that allows one prompt, word for word. -/
def literalConfig (prompt : String) : EvaluatorConfig Engine.reference :=
  ⟨([⟨[], .permit, none, [.eqStr (.attr "nl_utterance") prompt]⟩] : List Cedar.Policy), "r1", none,
    .empty⟩

/-- The effect under a policy for one prompt is Allow exactly for that prompt. -/
theorem effectOf_literal {captures : String → String → Option String} {u : String} {p : Phrase}
    {id : Option String} (hread : reading captures u = some (p, id))
    (hclean : Json.isClean u = true) (hid : ∀ i, id = some i → (Text.trim i).isEmpty = false)
    (prompt : String) (fresh : Fresh) :
    effectOf Engine.reference captures asker none (literalConfig prompt) fresh u =
      some (if u = prompt then .allow else .deny) := by
  have hbound : boundResource (p.extraction u id) none = (p.kind, id, .empty) := by
    cases p <;> rfl
  obtain ⟨d, hd, heffect⟩ := decided_asker hread hclean hbound List.mem_cons_self hid
    (literalConfig prompt) fresh
  obtain ⟨es, q, p', a, res, c, hc, -, hq, rfl⟩ := evaluate_ok hd
  obtain ⟨ms, hms, rfl⟩ := Engine.reference_lawful.context_reads hc
  -- the utterance reaches the policy as the value of a free-form key
  have hutterance : (boundRequest asker (p.extraction u id) none).context.values.get "nl_utterance" =
      some u := by
    cases p <;> rfl
  have hlookup := lookup_replaced hms hutterance (by decide) (by decide)
  have hcontext : q.context = Cedar.Record.ofMembers ms := by
    rw [Engine.reference_lawful.request_parts hq]
  rw [← hcontext] at hlookup
  have hholds := (Cedar.evalsTo_eqStr prompt hlookup).holds_eq
  have hanswer : (Engine.reference.isAuthorized q (literalConfig prompt).policySet es).decision =
      Cedar.decision [⟨[], .permit, none, [.eqStr (.attr "nl_utterance") prompt]⟩] q := rfl
  rw [heffect, decisionOf_effect, hanswer]
  by_cases hu : u = prompt
  · have hallow : Cedar.decision [⟨[], .permit, none,
        [.eqStr (.attr "nl_utterance") prompt]⟩] q = .allow := by
      rw [Cedar.decision_eq_allow_iff]
      refine ⟨⟨_, List.mem_singleton_self _, rfl, ?_⟩, ?_⟩
      · rw [Cedar.Policy.satisfied, List.all_cons, List.all_nil, hholds]
        simpa [Cedar.Policy.inScope, Cedar.Value.isStr] using hu
      · intro p hp heffect
        obtain rfl := List.mem_singleton.1 hp
        cases heffect
    rw [hallow, if_pos hu]
    rfl
  · have hdeny : Cedar.decision [⟨[], .permit, none,
        [.eqStr (.attr "nl_utterance") prompt]⟩] q ≠ .allow := by
      rw [Ne, Cedar.decision_eq_allow_iff]
      rintro ⟨⟨p, hp, -, hsat⟩, -⟩
      obtain rfl := List.mem_singleton.1 hp
      rw [Cedar.Policy.satisfied, List.all_cons, List.all_nil, hholds] at hsat
      simp [Cedar.Policy.inScope, Cedar.Value.isStr, hu] at hsat
    rw [if_neg hu]
    cases hdecision : Cedar.decision [⟨[], .permit, none,
        [.eqStr (.attr "nl_utterance") prompt]⟩] q with
    | allow => exact absurd hdecision hdeny
    | deny => rfl

end Unlock

/-- A policy set that reads the prompt itself may allow any padded prompt. -/
theorem not_locked_of_ne {captures : String → String → Option String}
    (hcaptures : MatchesPatterns captures) {s u t : String} {r : Phrase × Option String}
    (hr : reading captures u = some r) (hclean : Json.isClean (s ++ u ++ t) = true)
    (hne : u ≠ s ++ u ++ t) : ¬Locked AnyPolicySet captures s u t := by
  intro hlocked
  obtain ⟨p₁, id₁⟩ := r
  obtain ⟨⟨p₂, id₂⟩, hr₂⟩ := reading_padded hr s t
  have hclean' : Json.isClean u = true := by
    simp only [Json.isClean, String.toList_append, List.all_append, Bool.and_eq_true] at hclean
    exact hclean.1.2
  have hid₁ := fun i hi => (Unlock.visible_reading hcaptures hr i hi).1
  have hid₂ := fun i hi => (Unlock.visible_reading hcaptures hr₂ i hi).1
  refine hlocked Engine.reference Engine.reference_lawful (Unlock.literalConfig (s ++ u ++ t))
    trivial Unlock.asker none ⟨"u", "t"⟩ ⟨"u", "t"⟩ ?_ ?_
  · rw [Unlock.effectOf_literal hr hclean' hid₁, if_neg hne]
  · rw [Unlock.effectOf_literal hr₂ hclean hid₂, if_pos rfl]

/-- A prompt is as locked as itself. -/
theorem locked_unpadded (C : ∀ E : Engine, E.PolicySet → Prop)
    (captures : String → String → Option String) (u : String) : Locked C captures "" u "" := by
  intro E _ cfg _ principal catalog fresh₁ fresh₂ hdenied hallowed
  have hsame : "" ++ u ++ "" = u := by rw [String.empty_append, String.append_empty]
  rw [hsame] at hallowed
  obtain ⟨r₁, d₁, hr₁, hd₁, hdeny⟩ := effectOf_eq_some hdenied
  obtain ⟨r₂, d₂, hr₂, hd₂, hallow⟩ := effectOf_eq_some hallowed
  obtain rfl : r₁ = r₂ := Option.some.inj (hr₁.symm.trans hr₂)
  obtain ⟨d, hd, heffect⟩ := evaluate_fresh hd₁ fresh₂
  obtain rfl : d = d₂ := Except.ok.inj (hd.symm.trans hd₂)
  rw [hdeny, hallow] at heffect
  cases heffect

/-- **What padding can unlock.** Under every policy list of the policy language a padded prompt
stays locked exactly when it is read the same way as the prompt or has a control character. Under
every policy set at all, those that test the prompt itself included, it does so only when nothing
is added or there is a control character. -/
theorem locked_iff {captures : String → String → Option String}
    (hcaptures : MatchesPatterns captures) {s u t : String} {extraction : NlExtraction}
    (hu : extractStructured captures u = .ok extraction) :
    (Locked FromDsl captures s u t ↔ hasControl (s ++ u ++ t) = true ∨
      reading captures (s ++ u ++ t) = reading captures u) ∧
    (Locked AnyPolicySet captures s u t ↔ hasControl (s ++ u ++ t) = true ∨ s = "" ∧ t = "") := by
  obtain ⟨r, hr, -⟩ := reading_of_extracted hu
  -- with a control character in the utterance no decision is made
  have hcontrol : ∀ C, hasControl (s ++ u ++ t) = true → Locked C captures s u t :=
    fun C h E hE cfg _ principal catalog _ fresh₂ _ => effectOf_of_hasControl hE h .allow
  constructor
  · constructor
    · intro hlocked
      by_contra hneither
      rw [not_or, hasControl, Bool.not_eq_true', Bool.not_eq_false] at hneither
      exact Unlock.not_locked_of_reading hcaptures hr hneither.1 hneither.2 hlocked
    · rintro (h | h)
      · exact hcontrol FromDsl h
      · exact locked_of_reading h
  · constructor
    · intro hlocked
      by_contra hneither
      rw [not_or, hasControl, Bool.not_eq_true', Bool.not_eq_false] at hneither
      refine not_locked_of_ne hcaptures hr hneither.1 (fun hsame => hneither.2 ?_) hlocked
      -- equal texts have padding of length zero
      have hlength := congrArg String.length hsame
      rw [String.length_append, String.length_append] at hlength
      exact ⟨String.length_eq_zero_iff.1 (by omega), String.length_eq_zero_iff.1 (by omega)⟩
    · rintro (h | ⟨rfl, rfl⟩)
      · exact hcontrol AnyPolicySet h
      · exact locked_unpadded AnyPolicySet captures u

theorem matchesPatterns_none : MatchesPatterns fun _ _ => none :=
  ⟨fun h => (nomatch h), fun h => (nomatch h)⟩

theorem extract_export : extractStructured (fun _ _ => none) "export payroll" =
    .ok (Phrase.payrollExport.extraction "export payroll" (some "api.export.payroll")) := by
  decide +kernel

/-- A request for the payroll, and a word about executives in front of it. -/
theorem locked_iff_export :
    (Locked FromDsl (fun _ _ => none) "ceo travel: " "export payroll" "" ↔
      hasControl ("ceo travel: " ++ "export payroll" ++ "") = true ∨
        reading (fun _ _ => none) ("ceo travel: " ++ "export payroll" ++ "") =
          reading (fun _ _ => none) "export payroll") ∧
    (Locked AnyPolicySet (fun _ _ => none) "ceo travel: " "export payroll" "" ↔
      hasControl ("ceo travel: " ++ "export payroll" ++ "") = true ∨
        "ceo travel: " = "" ∧ "" = "") :=
  locked_iff matchesPatterns_none extract_export

/-- The denied prompt is allowed with two words in front: under one policy that lets the asker read
travel expenses of executives, it is read as a question about these. -/
theorem export_unlocked :
    effectOf Engine.reference (fun _ _ => none) Unlock.asker none
        (Unlock.config [Unlock.policy .executiveExpense "TRAVEL_EXPENSE"]) ⟨"u", "t"⟩
        "export payroll" = some .deny ∧
      effectOf Engine.reference (fun _ _ => none) Unlock.asker none
        (Unlock.config [Unlock.policy .executiveExpense "TRAVEL_EXPENSE"]) ⟨"u", "t"⟩
        ("ceo travel: " ++ "export payroll" ++ "") = some .allow ∧
      ¬Locked FromDsl (fun _ _ => none) "ceo travel: " "export payroll" "" := by
  -- alone the utterance exports, padded it reads as an expense of the executive
  have hr₁ : reading (fun _ _ => none) "export payroll" =
      some (.payrollExport, some "api.export.payroll") := by decide +kernel
  have hr₂ : reading (fun _ _ => none) ("ceo travel: " ++ "export payroll" ++ "") =
      some (.executiveExpense, some "db.hr.travel_expenses") := by decide +kernel
  have hplain : [Unlock.policy .executiveExpense "TRAVEL_EXPENSE"].all DslPolicy.plainNames =
      true := by decide +kernel
  have hclean : Json.isClean ("ceo travel: " ++ "export payroll" ++ "") = true := by
    decide +kernel
  have hid₁ := fun i hi => (Unlock.visible_reading matchesPatterns_none hr₁ i hi).1
  have hid₂ := fun i hi => (Unlock.visible_reading matchesPatterns_none hr₂ i hi).1
  refine ⟨?_, ?_, ?_⟩
  · rw [Unlock.effectOf_asker hr₁ (by decide +kernel) rfl List.mem_cons_self hid₁ hplain,
      if_neg (by decide +kernel)]
  · rw [Unlock.effectOf_asker hr₂ hclean rfl List.mem_cons_self hid₂ hplain,
      if_pos (by decide +kernel)]
  · refine Unlock.not_locked_of_reading matchesPatterns_none hr₁ hclean ?_
    rw [hr₁, hr₂]
    decide

end Paac
