import Paac.Core.Decision
import Paac.Core.Entities
import Paac.Library.JsonSplice

set_option autoImplicit false

/-!
# Evaluating a request

The evaluator builds the entities and the JSON text of the context, hands both to the Cedar engine,
and turns the answer into a decision with its evidence. The context text is spliced together from
strings: action and kind as they are, every other string with its quotes and backslashes escaped.

`evaluate` is total and takes the id and the time of the decision as arguments (`Fresh`), so its
runs can be compared: two requests are decided alike when the engine is asked alike. An evaluation
may end in an error of the kernel, in one of the engine, or in a panic of the attribute builders.

## Main results

- `evaluate_ok`: what a returned decision rests on.
- `evaluate_decides`: its effect on a lawful engine, by the semantics of the policies.
- `evaluate_fresh`: the id and the time of a decision do not touch its effect.
- `toList_buildContextJson`: the context text, character by character, from its members.
- `parse_buildContextJson`: the text is an object exactly when action and kind have left the reader
  at a key of that object and no string behind them has a control character; its members are then
  those that action and kind have left and those that were spliced.
- `evaluate_clean`: a decided request has no control character in its context.
-/

namespace Paac

open Cedar (Engine Entity EntityUid Record)

/-- `ENGINE_VERSION`. -/
def engineVersion : String := "0.1.0"

/-- What the evaluator is configured with. -/
structure EvaluatorConfig (E : Engine) where
  policySet : E.PolicySet
  policyRevision : String
  policySignature : Option String
  groupMembers : IndexMap (List String)

/-- The values one evaluation takes from its surroundings: a new UUID and the time. -/
structure Fresh where
  uuid : String
  now : String

/-! ## The context -/

/-- `subject_is_self`. -/
def subjectIsSelf (req : AuthzRequest) : Bool :=
  match req.subject with
  | some s => s.id = req.principal.id
  | none => false

/-- `subject_in_direct_reports`. -/
def subjectInDirectReports (req : AuthzRequest) : Bool :=
  match req.subject with
  | none => false
  | some subj => req.relationships.any fun rel =>
      (rel.kind = .directReports || rel.kind = .managerOf) && rel.«from» = req.principal.id &&
        rel.«to» = subj.id

/-- `escape`: backslashes first, then quotes. -/
def escape (s : String) : String :=
  Text.replaceChar '"' "\\\"" (Text.replaceChar '\\' "\\\\" s)

/-- A boolean as the context text writes it. -/
def boolText (b : Bool) : String := if b then "true" else "false"

/-- A list of escaped strings between commas. -/
def escapedList (ss : List String) : String :=
  Text.join ", " (ss.map fun s => "\"" ++ escape s ++ "\"")

/-- The pairs of the context text in order. Action and kind are not escaped. -/
def contextPairs (req : AuthzRequest) : List String :=
  ["\"action_name\": \"" ++ Text.toAsciiUppercase req.action.name ++ "\"",
    "\"resource_kind\": \"" ++ Text.toAsciiUppercase req.resource.kind ++ "\"",
    "\"subject_is_self\": " ++ boolText (subjectIsSelf req),
    "\"subject_in_direct_reports\": " ++ boolText (subjectInDirectReports req)] ++
  -- without a subject the two keys are there, with empty values
  (match req.subject with
    | some subj =>
        ["\"subject_id\": \"" ++ escape subj.id ++ "\"",
          "\"subject_groups\": [" ++ escapedList subj.groups ++ "]"]
    | none => ["\"subject_id\": \"\"", "\"subject_groups\": []"]) ++
  -- a free-form key may repeat one of the keys in front of it
  req.context.values.entries.map (fun e =>
    "\"" ++ escape e.1 ++ "\": \"" ++ escape e.2 ++ "\"") ++
  ["\"principal_roles\": [" ++ escapedList req.principal.roles ++ "]",
    "\"principal_groups\": [" ++ escapedList req.principal.groups ++ "]"]

/-- `build_context_json`. -/
def buildContextJson (req : AuthzRequest) : String :=
  "\x7b" ++ Text.join ", " (contextPairs req) ++ "\x7d"

/-! ## The evaluator -/

/-- `uid` of the evaluator; its error is a Cedar error. -/
def Evaluate.uid (E : Engine) (typeName id : String) : Except (Halt AuthzError) EntityUid :=
  mapErr .error (entityUid E .cedar typeName id)

/-- `effect_from_cedar`. -/
def effectFromCedar : Cedar.Decision → DecisionEffect
  | .allow => .allow
  | .deny => .deny

/-- The policy a decision without a matching policy names. -/
def denyByDefault : MatchedPolicy :=
  ⟨"deny-by-default", .deny, some "no permit matched or explicit forbid"⟩

/-- The id of a policy for humans: its `id` annotation, or else the engine's id. -/
def humanId (E : Engine) (set : E.PolicySet) (id : String) : String :=
  (((E.policy set id).bind (lookupEntry "id")).or ( E.annotation set id "id")).getD id

/-- The decision record for an answer of the engine. -/
def decisionOf (E : Engine) (fresh : Fresh) (req : AuthzRequest) (cfg : EvaluatorConfig E)
    (response : Cedar.Response) : AuthzDecision :=
  let effect := effectFromCedar response.decision
  let matched := response.reason.map fun id =>
    (⟨humanId E cfg.policySet id, effect, some "matched by Cedar evaluator"⟩ : MatchedPolicy)
  -- the first reason determines; the default stands in for a denial without reasons
  let determining := matched.head?.or (if effect = .deny then some denyByDefault else none)
  let notes := response.errors.map ("cedar diagnostic: " ++ ·) ++
    if matched.isEmpty && effect = .deny then
      ["deny-by-default: no permitting policy matched"]
    else []
  { effect
    evidence :=
      { decisionId := fresh.uuid
        effect
        request := req
        matchedPolicies := matched
        determiningPolicy := determining
        policyRevision := cfg.policyRevision
        policySignature := cfg.policySignature
        engineVersion := engineVersion
        timestamp := fresh.now
        notes } }

/-- `evaluate`. -/
def evaluate (E : Engine) (fresh : Fresh) (req : AuthzRequest) (cfg : EvaluatorConfig E) :
    Except (Halt AuthzError) AuthzDecision := do
  mapErr .error req.validate
  let entitySet ← buildEntities E ⟨req, cfg.groupMembers⟩
  let entities ← mapErr (fun e => .error (.cedar e)) (E.entitiesFromEntities entitySet)
  let principal ← Evaluate.uid E "User" req.principal.id
  -- of the three ids only the one of the action is put in upper case
  let action ← Evaluate.uid E "Action" (Text.toAsciiUppercase req.action.name)
  let resource ← Evaluate.uid E "Resource" req.resource.entityId
  let context ← mapErr (fun e => .error (.cedar ("context: " ++ e)))
    (E.contextFromJsonStr (buildContextJson req))
  let request ← mapErr (fun e => .error (.cedar e)) (E.requestNew principal action resource context)
  return decisionOf E fresh req cfg (E.isAuthorized request cfg.policySet entities)

@[simp] theorem decisionOf_effect (E : Engine) (fresh : Fresh) (req : AuthzRequest)
    (cfg : EvaluatorConfig E) (response : Cedar.Response) :
    (decisionOf E fresh req cfg response).effect = effectFromCedar response.decision := rfl

/-- What a returned decision rests on: an accepted context text, and the engine's answer on a
request with that context and the upper-cased action. -/
theorem evaluate_ok {E : Engine} {fresh : Fresh} {req : AuthzRequest} {cfg : EvaluatorConfig E}
    {d : AuthzDecision} (h : evaluate E fresh req cfg = .ok d) :
    ∃ (es : List Entity) (q : Cedar.Request) (p a r : EntityUid) (c : Record),
      E.contextFromJsonStr (buildContextJson req) = .ok c ∧
      Evaluate.uid E "Action" (Text.toAsciiUppercase req.action.name) = .ok a ∧
      E.requestNew p a r c = .ok q ∧
      d = decisionOf E fresh req cfg (E.isAuthorized q cfg.policySet es) := by
  unfold evaluate at h
  obtain ⟨_, -, h⟩ := bind_eq_ok.1 h
  obtain ⟨_, -, h⟩ := bind_eq_ok.1 h
  obtain ⟨es, -, h⟩ := bind_eq_ok.1 h
  obtain ⟨p, -, h⟩ := bind_eq_ok.1 h
  obtain ⟨a, ha, h⟩ := bind_eq_ok.1 h
  obtain ⟨r, -, h⟩ := bind_eq_ok.1 h
  obtain ⟨c, hc, h⟩ := bind_eq_ok.1 h
  obtain ⟨q, hq, h⟩ := bind_eq_ok.1 h
  rw [mapErr_eq_ok] at hc hq
  exact ⟨es, q, p, a, r, c, hc, ha, hq, (Except.ok.inj h).symm⟩

/-- Identifier and time of a decision play no part in its effect. -/
theorem evaluate_fresh {E : Engine} {fresh : Fresh} {req : AuthzRequest} {cfg : EvaluatorConfig E}
    {d : AuthzDecision} (h : evaluate E fresh req cfg = .ok d) (fresh' : Fresh) :
    ∃ d', evaluate E fresh' req cfg = .ok d' ∧ d'.effect = d.effect := by
  unfold evaluate at h ⊢
  obtain ⟨_, h₁, h⟩ := bind_eq_ok.1 h
  obtain ⟨_, h₂, h⟩ := bind_eq_ok.1 h
  obtain ⟨_, h₃, h⟩ := bind_eq_ok.1 h
  obtain ⟨_, h₄, h⟩ := bind_eq_ok.1 h
  obtain ⟨_, h₅, h⟩ := bind_eq_ok.1 h
  obtain ⟨_, h₆, h⟩ := bind_eq_ok.1 h
  obtain ⟨_, h₇, h⟩ := bind_eq_ok.1 h
  obtain ⟨_, h₈, h⟩ := bind_eq_ok.1 h
  rw [h₁, bind_ok_eq, h₂, bind_ok_eq, h₃, bind_ok_eq, h₄, bind_ok_eq, h₅, bind_ok_eq, h₆,
    bind_ok_eq, h₇, bind_ok_eq, h₈, bind_ok_eq]
  rw [← Except.ok.inj h]
  exact ⟨_, rfl, rfl⟩

theorem Evaluate.uid_ok {E : Engine} (hE : E.Lawful) {tn id : String} {u : EntityUid}
    (h : Evaluate.uid E tn id = .ok u) : u = ⟨tn, id⟩ := by
  simp only [Evaluate.uid, mapErr_eq_ok, entityUid] at h
  split at h
  · rename_i t ht
    rw [← Except.ok.inj h, hE.type_name ht]
  · cases h

/-- **The decision of a lawful engine.** On policies written in the grammar, the returned effect
is Allow exactly when the semantics allows a request with the context read. -/
theorem evaluate_decides {E : Engine} (hE : E.Lawful) {fresh : Fresh} {req : AuthzRequest}
    {cfg : EvaluatorConfig E} {d : AuthzDecision} {text : String} {ps : List Cedar.Policy}
    (hset : E.policySetFromStr text = .ok cfg.policySet)
    (hps : Cedar.parsePolicies text = some ps) (h : evaluate E fresh req cfg = .ok d) :
    ∃ (ms : List (String × Json)) (q : Cedar.Request),
      Json.parse (buildContextJson req) = some (.obj ms) ∧
      q.context = Record.ofMembers ms ∧
      q.action = ⟨"Action", Text.toAsciiUppercase req.action.name⟩ ∧
      d.effect = effectFromCedar (Cedar.decision ps q) := by
  obtain ⟨es, q, p, a, r, c, hc, ha, hq, rfl⟩ := evaluate_ok h
  obtain ⟨ms, hms, rfl⟩ := hE.context_reads hc
  have ha' := Evaluate.uid_ok hE ha
  have hq' := hE.request_parts hq
  refine ⟨ms, q, hms, by rw [hq'], by rw [hq']; exact ha', ?_⟩
  rw [decisionOf_effect, hE.decides hset hps]

/-! ## The object the context text denotes -/

theorem toList_escape (s : String) : (escape s).toList = Json.bareEscape s.toList := by
  simp only [escape, Text.replaceChar, String.toList_ofList, List.flatMap_assoc, Json.bareEscape]
  congr 1
  funext c
  by_cases hq : c = '"'
  · subst hq
    rfl
  · by_cases hb : c = '\\'
    · subst hb
      rfl
    · simp [hq, hb]

/-- The members of the context text that are spliced behind action and kind. -/
def splicedMembers (req : AuthzRequest) : List (String × Json.Plain) :=
  [("subject_is_self", .bool (subjectIsSelf req)),
    ("subject_in_direct_reports", .bool (subjectInDirectReports req)),
    ("subject_id", .str ((req.subject.map (·.id)).getD "")),
    ("subject_groups", .strs ((req.subject.map (·.groups)).getD []))] ++
  req.context.values.entries.map (fun e => (e.1, .str e.2)) ++
  [("principal_roles", .strs req.principal.roles), ("principal_groups", .strs req.principal.groups)]

/-- The text in front of the spliced members: the brace, action and kind. -/
def contextHead (req : AuthzRequest) : List Char :=
  ("\x7b\"action_name\": \"" ++ Text.toAsciiUppercase req.action.name ++
    "\", \"resource_kind\": \"" ++ Text.toAsciiUppercase req.resource.kind ++ "\"").toList

theorem toList_quoted (s : String) : ("\"" ++ escape s ++ "\"").toList = Json.quoted s := by
  simp [String.toList_append, toList_escape, Json.quoted]

theorem toList_escapedList (ss : List String) :
    (escapedList ss).toList = List.intercalate [',', ' '] (ss.map Json.quoted) := by
  have hmap : (ss.map fun s => "\"" ++ escape s ++ "\"").map String.toList =
      ss.map Json.quoted := by
    rw [List.map_map]
    exact List.map_congr_left fun s _ => toList_quoted s
  rw [escapedList, Text.join, String.toList_intercalate, hmap]
  rfl

theorem toList_boolText (b : Bool) : (boolText b).toList = (Json.Plain.bool b).text := by
  cases b <;> rfl

theorem toList_strMember (k v : String) :
    ("\"" ++ escape k ++ "\": \"" ++ escape v ++ "\"").toList = Json.memberText (k, .str v) := by
  simp [String.toList_append, toList_escape, Json.memberText, Json.quoted, Json.Plain.text]

theorem toList_listMember (k : String) (ss : List String) :
    ("\"" ++ escape k ++ "\": [" ++ escapedList ss ++ "]").toList =
      Json.memberText (k, .strs ss) := by
  simp [String.toList_append, toList_escape, toList_escapedList, Json.memberText, Json.quoted,
    Json.Plain.text]

theorem toList_boolMember (k : String) (b : Bool) :
    ("\"" ++ escape k ++ "\": " ++ boolText b).toList = Json.memberText (k, .bool b) := by
  simp [String.toList_append, toList_escape, toList_boolText, Json.memberText, Json.quoted]

/-- The later pairs of the context text are the spliced members. -/
theorem map_toList_contextPairs (req : AuthzRequest) :
    (contextPairs req).map String.toList =
      ("\"action_name\": \"" ++ Text.toAsciiUppercase req.action.name ++ "\"").toList ::
      ("\"resource_kind\": \"" ++ Text.toAsciiUppercase req.resource.kind ++ "\"").toList ::
      (splicedMembers req).map Json.memberText := by
  have hself := toList_boolMember "subject_is_self" (subjectIsSelf req)
  have hreports := toList_boolMember "subject_in_direct_reports" (subjectInDirectReports req)
  have hroles := toList_listMember "principal_roles" req.principal.roles
  have hgroups := toList_listMember "principal_groups" req.principal.groups
  have hvalues : (req.context.values.entries.map fun e =>
      "\"" ++ escape e.1 ++ "\": \"" ++ escape e.2 ++ "\"").map String.toList =
      (req.context.values.entries.map fun e => (e.1, Json.Plain.str e.2)).map Json.memberText := by
    rw [List.map_map, List.map_map]
    exact List.map_congr_left fun e _ => toList_strMember e.1 e.2
  -- without a subject the id is empty and there are no groups
  have hsubject : (match req.subject with
      | some subj =>
          ["\"subject_id\": \"" ++ escape subj.id ++ "\"",
            "\"subject_groups\": [" ++ escapedList subj.groups ++ "]"]
      | none => ["\"subject_id\": \"\"", "\"subject_groups\": []"]).map String.toList =
      [Json.memberText ("subject_id", .str ((req.subject.map (·.id)).getD "")),
        Json.memberText ("subject_groups", .strs ((req.subject.map (·.groups)).getD []))] := by
    cases req.subject with
    | none => rfl
    | some subj =>
        have hid := toList_strMember "subject_id" subj.id
        have hgs := toList_listMember "subject_groups" subj.groups
        exact congrArg₂ (fun a b => [a, b]) hid hgs
  rw [contextPairs, List.map_append, List.map_append, List.map_append, hsubject, hvalues,
    splicedMembers, List.map_append, List.map_append]
  simp only [List.map_cons, List.map_nil, List.cons_append, List.nil_append,
    ← hself, ← hreports, ← hroles, ← hgroups]
  rfl

/-- The context text: the head, then the spliced members, each behind a comma. -/
theorem toList_buildContextJson (req : AuthzRequest) :
    (buildContextJson req).toList =
      contextHead req ++
        ((splicedMembers req).flatMap (fun m => [',', ' '] ++ Json.memberText m) ++ ['}']) := by
  rw [buildContextJson, Text.join, String.toList_append, String.toList_append,
    String.toList_intercalate, map_toList_contextPairs]
  have hsep : ", ".toList = [',', ' '] := rfl
  rw [hsep, Json.intercalate_cons, List.flatMap_cons, List.flatMap_map]
  simp [contextHead, String.toList_append]

theorem unreadable_subject_is_self : Json.Unreadable "subject_is_self" :=
  fun _ _ _ => rfl

/-- **The object of the context.** The text is a JSON object exactly when action and kind have
left the reader at a key of that object and every spliced member is free of control characters;
its members are then those of the head with the spliced ones inserted. -/
theorem parse_buildContextJson (req : AuthzRequest) :
    Json.parse (buildContextJson req) =
      (Json.membersAt (Json.readAll .init (contextHead req ++ [',', ' ']))).bind fun ms =>
        if (splicedMembers req).all Json.memberClean then
          some (.obj (insertEntries ms ((splicedMembers req).map Json.memberJson)))
        else none := by
  have h := Json.parse_spliced (contextHead req) ("subject_is_self", .bool (subjectIsSelf req))
    (splicedMembers req).tail unreadable_subject_is_self
  rw [Json.parse, toList_buildContextJson]
  have hcons : splicedMembers req =
      ("subject_is_self", .bool (subjectIsSelf req)) :: (splicedMembers req).tail := rfl
  rw [← hcons] at h
  rw [← h, hcons, List.flatMap_cons, List.tail_cons, List.append_assoc, List.append_assoc]

/-- A spliced member with a control character makes the text unreadable, so nothing is decided. -/
theorem evaluate_clean {E : Engine} (hE : E.Lawful) {fresh : Fresh} {req : AuthzRequest}
    {cfg : EvaluatorConfig E} {d : AuthzDecision} (h : evaluate E fresh req cfg = .ok d) :
    (splicedMembers req).all Json.memberClean = true := by
  obtain ⟨es, q, p, a, r, c, hc, -⟩ := evaluate_ok h
  obtain ⟨ms, hms, -⟩ := hE.context_reads hc
  rw [parse_buildContextJson] at hms
  obtain ⟨head, -, hclean⟩ := Option.bind_eq_some_iff.1 hms
  split at hclean
  · assumption
  · cases hclean

end Paac
