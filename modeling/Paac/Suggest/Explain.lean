import Paac.Suggest.Audit

set_option autoImplicit false

/-!
# Check, then explain

A check appends an audit record for its decision. `explain` reads the first line that holds the id
it is given as a decision, which no audit record is: it succeeds on no log that checks have written,
where `find_decision` finds every decision of the log.

The command searches the text of the log for the id, so it may also stop at a line that only
mentions it; that line is a record as well, and is not read either. The result is for all runs of
checks and all ids.

## Main results

- `checkedLog_eq`: the log that checks write.
- `explain_fails`: no line of it is read as a decision.
- `findDecision_checkedLog`: the sibling that reads records finds every decision.
- `explain_never`: for every run of checks and every id.
- `explain_fails_denied`: a denial that was logged is not explained.
-/

namespace Paac

open Serde

/-- How `explain` fails. -/
inductive ExplainError where
  | noLog
  | json (e : Serde.Error)
  | notFound (decisionId : String)
  deriving DecidableEq, Repr

/-- `explain_cmd`, up to printing the decision. -/
def explainCmd (file : AuditFile) (decisionId : String) : Except ExplainError AuthzDecision :=
  match file with
  | none => .error .noLog
  | some data =>
      match (Text.lines data).find? (Text.contains decisionId) with
      | some line => mapErr .json (fromText AuthzDecision.fromJson line)
      | none => .error (.notFound decisionId)

/-- The log after one check for each decision. -/
def checkedLog (ds : List AuthzDecision) : AuditFile := ds.foldl appendAudit none

/-- The log of checks is one of records. -/
theorem checkedLog_eq (ds : List AuthzDecision) :
    checkedLog ds = auditLog (ds.map fun d => .record (.fromDecision d 0)) := by
  rw [checkedLog, auditLog, List.foldl_map]
  rfl

/-- No line of the log is a decision, so `explain` returns none. -/
theorem explain_fails (ds : List AuthzDecision) (id : String) (d : AuthzDecision) :
    explainCmd (checkedLog ds) id ≠ .ok d := by
  intro h
  unfold explainCmd at h
  split at h
  · cases h
  · rename_i data hdata
    split at h
    · rename_i line hline
      -- the line found was written for some decision of the log
      have hmem := List.mem_of_find?_eq_some hline
      have hlines := lines_auditLog (ds.map fun d => .record (.fromDecision d 0))
      rw [← checkedLog_eq, hdata, Option.getD_some] at hlines
      rw [hlines, List.map_map, List.mem_map] at hmem
      obtain ⟨d', -, rfl⟩ := hmem
      rw [mapErr_eq_ok] at h
      have hwritable := (AuditLine.record (.fromDecision d' 0)).writable
      rw [Function.comp_apply, fromText_toText _ hwritable, AuditLine.toJson,
        AuthzDecision.fromJson_record] at h
      cases h
    · cases h

/-- The line of the only decision of a log holds its id, and is no decision. -/
theorem explainCmd_only {d : AuthzDecision}
    (hplain : d.evidence.decisionId.toList.flatMap Json.escapeChar =
      d.evidence.decisionId.toList) :
    explainCmd (checkedLog [d]) d.evidence.decisionId = .error (.json (.missingField "effect")) := by
  have hlines := lines_auditLog [.record (.fromDecision d 0)]
  have hlog := checkedLog_eq [d]
  rw [List.map_singleton] at hlog
  rw [← hlog, List.map_singleton] at hlines
  -- the line holds the id as it is, since the id needs no escape
  have hcontains : Text.contains d.evidence.decisionId
      (AuditLine.record (.fromDecision d 0)).toJson.toText = true := by
    rw [Text.contains_iff_infix]
    have hid : d.evidence.decisionId.toList <:+: (Json.quote d.evidence.decisionId).toList := by
      rw [Json.quote, hplain, String.ofList_toList, String.toList_append, String.toList_append]
      exact List.infix_append _ _ _
    obtain ⟨ms, hms⟩ : ∃ ms, (AuditLine.record (.fromDecision d 0)).toJson =
        .obj (("decision_id", .str d.evidence.decisionId) :: ms) := ⟨_, rfl⟩
    have hfirst := Json.infix_first_member "decision_id" (.str d.evidence.decisionId) ms
    rw [Json.toText] at hfirst
    rw [hms]
    exact hid.trans hfirst
  unfold explainCmd
  split
  · rename_i hnone
    rw [hnone] at hlines
    cases hlines
  · rename_i data hdata
    rw [hdata, Option.getD_some] at hlines
    have hwritable := (AuditLine.record (.fromDecision d 0)).writable
    rw [hlines, List.find?_cons_of_pos hcontains]
    dsimp only
    rw [fromText_toText _ hwritable, AuditLine.toJson, AuthzDecision.fromJson_record]
    rfl

/-- A decision with an id of its own is found in the log. -/
theorem findDecision_checkedLog {ds : List AuthzDecision} {d : AuthzDecision} (hd : d ∈ ds)
    (hunique : ∀ d' ∈ ds, d'.evidence.decisionId = d.evidence.decisionId → d' = d) :
    findDecision (checkedLog ds) d.evidence.decisionId = some d := by
  rw [findDecision, checkedLog_eq, readAuditRecords_auditLog, List.map_map]
  have hrecord : (AuditLine.toRecord ∘ fun d : AuthzDecision =>
      AuditLine.record (.fromDecision d 0)) = fun d => AuditRecord.fromDecision d 0 := rfl
  rw [hrecord, List.find?_map]
  have hfound : (ds.find? ((fun r : AuditRecord => decide (r.decisionId = d.evidence.decisionId)) ∘
      fun d => AuditRecord.fromDecision d 0)).isSome = true := by
    rw [List.find?_isSome]
    exact ⟨d, hd, decide_eq_true rfl⟩
  obtain ⟨d', hd'⟩ := Option.isSome_iff_exists.1 hfound
  have hid := List.find?_some hd'
  rw [Function.comp_apply, decide_eq_true_eq] at hid
  have hsame := hunique d' (List.mem_of_find?_eq_some hd') hid
  rw [hd', hsame]
  rfl

/-- `explain` agrees with `find_decision` about the decision. -/
def Explains (ds : List AuthzDecision) (d : AuthzDecision) : Prop :=
  explainCmd (checkedLog ds) d.evidence.decisionId = .ok d ∧
    findDecision (checkedLog ds) d.evidence.decisionId = some d

/-- **Nothing that was checked is explained**, though it is found. -/
theorem explain_never (ds : List AuthzDecision) (d : AuthzDecision) (hd : d ∈ ds)
    (hunique : ∀ d' ∈ ds, d'.evidence.decisionId = d.evidence.decisionId → d' = d) :
    ¬Explains ds d ∧ findDecision (checkedLog ds) d.evidence.decisionId = some d :=
  ⟨fun h => explain_fails ds _ d h.1, findDecision_checkedLog hd hunique⟩

namespace CheckedDecision

/-- Bob reads a document. -/
def request : AuthzRequest :=
  { principal := ⟨"bob", [], [], .empty⟩
    action := ⟨"READ"⟩
    resource := ⟨"DOC", none, .empty⟩
    subject := none
    context := ⟨.empty⟩
    relationships := []
    actingAs := none
    onBehalfOf := none }

/-- The decision that denies it. -/
def decision : AuthzDecision :=
  { effect := .deny
    evidence :=
      { decisionId := "5f0c"
        effect := .deny
        request
        matchedPolicies := []
        determiningPolicy := some ⟨"deny-by-default", .deny, none⟩
        policyRevision := "r1"
        policySignature := none
        engineVersion := "0.1.0"
        timestamp := "2023-11-14T22:13:20Z"
        notes := [] } }

end CheckedDecision

open CheckedDecision in
/-- The one decision of a log is found and not explained. -/
theorem explain_never_denied : ¬Explains [decision] decision ∧
    findDecision (checkedLog [decision]) "5f0c" = some decision := by
  have hunique : ∀ d' ∈ [decision],
      d'.evidence.decisionId = decision.evidence.decisionId → d' = decision := by simp
  exact explain_never [decision] decision List.mem_cons_self hunique

open CheckedDecision in
/-- A check is explained by an error: its line is no decision. -/
theorem explain_fails_denied :
    (∀ d' ∈ [decision], d'.evidence.decisionId = decision.evidence.decisionId → d' = decision) ∧
      explainCmd (checkedLog [decision]) decision.evidence.decisionId =
        .error (.json (.missingField "effect")) ∧ ¬Explains [decision] decision := by
  have hplain : decision.evidence.decisionId.toList.flatMap Json.escapeChar =
      decision.evidence.decisionId.toList := by decide
  exact ⟨by simp, explainCmd_only hplain, fun h => explain_fails _ _ _ h.1⟩

end Paac
