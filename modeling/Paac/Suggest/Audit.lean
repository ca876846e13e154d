import Paac.Core.Serde
import Paac.Library.JsonLines

set_option autoImplicit false

/-!
# The audit log

The log is a file with one JSON value a line, and only ever grows. A line is an audit record, or a
decision as earlier versions wrote it; the reader tries the one and then the other and skips a line
that is neither. No line is both, so the log is read as it was written.

That a record is not read as a decision, nor a decision as a record, rests on a required member that
the other encoding does not have. A printed value holds no line feed and is not blank, so each one
is a line of its own, and no line is skipped.

## Main results

- `AuditRecord.fromJson_toJson`: a record is read back from its encoding.
- `AuditRecord.fromJson_decision`, `AuthzDecision.fromJson_record`: neither kind of line is read as
  the other.
- `readAuditLine_toText`: so a line is read as what was written.
- `lines_auditLog`, `readAuditRecords_auditLog`: the lines of a log, and the records of it.
- `audit_log_round_trips`: every log is read as it was written; the recent decisions are the last of
  it, and a decision is found as the first record of its id.
-/

namespace Paac

open Serde

/-! ## Records -/

structure AuditRecord where
  decisionId : String
  principal : String
  action : String
  resource : String
  subject : Option String
  decision : DecisionEffect
  policyRevision : String
  signatureKeyId : Option String
  latencyMs : UInt64
  timestamp : String
  /-- The whole decision. -/
  decisionFull : AuthzDecision
  deriving DecidableEq

/-- `AuditRecord::from_decision`. -/
def AuditRecord.fromDecision (decision : AuthzDecision) (latencyMs : UInt64) : AuditRecord where
  decisionId := decision.evidence.decisionId
  principal := decision.evidence.request.principal.id
  action := decision.evidence.request.action.name
  resource := decision.evidence.request.resource.kind
  subject := decision.evidence.request.subject.map (·.id)
  decision := decision.effect
  policyRevision := decision.evidence.policyRevision
  signatureKeyId := decision.evidence.policySignature
  latencyMs := latencyMs
  timestamp := decision.evidence.timestamp
  decisionFull := decision

def AuditRecord.toJson (r : AuditRecord) : Json :=
  .obj [
    ("decision_id", .str r.decisionId),
    ("principal", .str r.principal),
    ("action", .str r.action),
    ("resource", .str r.resource),
    ("subject", ofOption Json.str r.subject),
    ("decision", r.decision.toJson),
    ("policy_revision", .str r.policyRevision),
    ("signature_key_id", ofOption Json.str r.signatureKeyId),
    ("latency_ms", ofU64 r.latencyMs),
    ("timestamp", .str r.timestamp),
    ("decision_full", r.decisionFull.toJson)]

def AuditRecord.fromJson (j : Json) : Decoded AuditRecord := do
  let ms ← fields ["decision_id", "principal", "action", "resource", "subject", "decision",
    "policy_revision", "signature_key_id", "latency_ms", "timestamp", "decision_full"] 11 j
  return {
    decisionId := ← required "decision_id" string ms
    principal := ← required "principal" string ms
    action := ← required "action" string ms
    resource := ← required "resource" string ms
    subject := ← optional "subject" string ms
    decision := ← required "decision" DecisionEffect.fromJson ms
    policyRevision := ← required "policy_revision" string ms
    signatureKeyId := ← optional "signature_key_id" string ms
    latencyMs := ← required "latency_ms" u64 ms
    timestamp := ← required "timestamp" string ms
    decisionFull := ← required "decision_full" AuthzDecision.fromJson ms }

/-! ## The file -/

/-- The text of the log; there is none before the first line. -/
abbrev AuditFile : Type := Option String

/-- A line at the end of the log. -/
def AuditFile.appendLine (file : AuditFile) (line : String) : AuditFile :=
  some (file.getD "" ++ line ++ "\n")

/-- `append_audit_record`. -/
def appendAuditRecord (file : AuditFile) (record : AuditRecord) : AuditFile :=
  file.appendLine record.toJson.toText

/-- `append_audit`. -/
def appendAudit (file : AuditFile) (decision : AuthzDecision) : AuditFile :=
  appendAuditRecord file (.fromDecision decision 0)

/-- A line of the log as a record: a record, or else a decision of an earlier version. -/
def readAuditLine (line : String) : Option AuditRecord :=
  if Text.trim line = "" then none
  else
    match fromText AuditRecord.fromJson line with
    | .ok r => some r
    | .error _ =>
        match fromText AuthzDecision.fromJson line with
        | .ok d => some (.fromDecision d 0)
        | .error _ => none

/-- `read_audit_records`. -/
def readAuditRecords (file : AuditFile) : List AuditRecord :=
  match file with
  | none => []
  | some data => (Text.lines data).filterMap readAuditLine

/-- `find_decision`. -/
def findDecision (file : AuditFile) (decisionId : String) : Option AuthzDecision :=
  ((readAuditRecords file).find? fun r => r.decisionId = decisionId).map (·.decisionFull)

/-- `recent_decisions`. -/
def recentDecisions (file : AuditFile) (limit : Nat) : List AuditRecord :=
  let all := readAuditRecords file
  all.drop (all.length - limit)

/-! ## Lines of both kinds -/

/-- What a line was written from. -/
inductive AuditLine where
  | record (r : AuditRecord)
  | legacy (d : AuthzDecision)

def AuditLine.toJson : AuditLine → Json
  | .record r => r.toJson
  | .legacy d => d.toJson

/-- The record of a line. -/
def AuditLine.toRecord : AuditLine → AuditRecord
  | .record r => r
  | .legacy d => .fromDecision d 0

/-- The log after the lines are appended one after the other. -/
def auditLog (ls : List AuditLine) : AuditFile :=
  ls.foldl (fun file l => file.appendLine l.toJson.toText) none

theorem AuditRecord.writable (r : AuditRecord) : r.toJson.Writable :=
  ⟨by simp, trivial, trivial, trivial, trivial, writable_optString _, trivial, trivial,
    writable_optString _, writable_u64 _, trivial, r.decisionFull.writable, trivial⟩

theorem AuditLine.writable (l : AuditLine) : l.toJson.Writable := by
  cases l with
  | record r => exact r.writable
  | legacy d => exact d.writable

/-- A record is read as it was written. -/
theorem AuditRecord.fromJson_toJson (r : AuditRecord) :
    AuditRecord.fromJson r.toJson = .ok r := by
  calc AuditRecord.fromJson r.toJson
      = (do
          let subject ← option string (ofOption Json.str r.subject)
          let decision ← DecisionEffect.fromJson r.decision.toJson
          let signatureKeyId ← option string (ofOption Json.str r.signatureKeyId)
          let latencyMs ← u64 (ofU64 r.latencyMs)
          let decisionFull ← AuthzDecision.fromJson r.decisionFull.toJson
          return ⟨r.decisionId, r.principal, r.action, r.resource, subject, decision,
            r.policyRevision, signatureKeyId, latencyMs, r.timestamp, decisionFull⟩) := rfl
    _ = .ok r := by
        rw [option_string, DecisionEffect.fromJson_toJson, option_string, u64_ofU64,
          AuthzDecision.fromJson_toJson]
        rfl

/-- A decision has no id of its own, so it is no record. -/
theorem AuditRecord.fromJson_decision (d : AuthzDecision) :
    AuditRecord.fromJson d.toJson = .error (.missingField "decision_id") := rfl

/-- A record has no effect of its own, so it is no decision. -/
theorem AuthzDecision.fromJson_record (r : AuditRecord) :
    AuthzDecision.fromJson r.toJson = .error (.missingField "effect") := rfl

/-- The text of a line is not blank. -/
theorem AuditLine.trim_toText (l : AuditLine) : Text.trim l.toJson.toText ≠ "" := by
  intro hblank
  have hspace := Text.isWhitespace_of_trim_eq_empty hblank
  have hopen : '\x7b' ∈ l.toJson.toText.toList := by
    cases l with
    | record r => simp [AuditLine.toJson, AuditRecord.toJson, Json.toText, String.toList_append]
    | legacy d => simp [AuditLine.toJson, AuthzDecision.toJson, Json.toText, String.toList_append]
  exact absurd (hspace _ hopen) (by decide)

/-- **Each line is read as what it was written from**: the two formats exclude each other. -/
theorem readAuditLine_toText (l : AuditLine) :
    readAuditLine l.toJson.toText = some l.toRecord := by
  rw [readAuditLine, if_neg l.trim_toText, fromText_toText _ l.writable,
    fromText_toText _ l.writable]
  cases l with
  | record r =>
      rw [AuditLine.toJson, AuditRecord.fromJson_toJson]
      rfl
  | legacy d =>
      rw [AuditLine.toJson, AuditRecord.fromJson_decision, AuthzDecision.fromJson_toJson]
      rfl

/-- The text of the log is that of its lines. -/
theorem getD_auditLog (ls : List AuditLine) :
    (auditLog ls).getD "" = Text.logText (ls.map fun l => l.toJson.toText) := by
  induction ls using List.reverseRecOn with
  | nil => rfl
  | append_singleton ls l ih =>
      rw [List.map_append, List.map_singleton, Text.logText_concat, ← ih, auditLog,
        List.foldl_append]
      rfl

theorem lines_auditLog (ls : List AuditLine) :
    Text.lines ((auditLog ls).getD "") = ls.map fun l => l.toJson.toText := by
  rw [getD_auditLog]
  apply Text.lines_logText
  intro text htext
  obtain ⟨l, -, rfl⟩ := List.mem_map.1 htext
  exact Json.toText_one_line l.writable

/-- The records of a log are read in order. -/
theorem readAuditRecords_auditLog (ls : List AuditLine) :
    readAuditRecords (auditLog ls) = ls.map AuditLine.toRecord := by
  have hfile : ∀ file : AuditFile,
      readAuditRecords file = (Text.lines (file.getD "")).filterMap readAuditLine := by
    intro file
    cases file with
    | none => rfl
    | some data => rfl
  rw [hfile, lines_auditLog, List.filterMap_map]
  have hread : readAuditLine ∘ (fun l : AuditLine => l.toJson.toText) = some ∘ AuditLine.toRecord :=
    funext readAuditLine_toText
  rw [hread, List.filterMap_eq_map]

/-- **The log round-trips.** Whatever records and decisions of earlier versions are appended, one
record a line is read, in order; the recent ones are the last of them, and a decision is found as
the first record of its id. -/
theorem audit_log_round_trips (ls : List AuditLine) :
    readAuditRecords (auditLog ls) = ls.map AuditLine.toRecord ∧
      (∀ limit, ∃ older, ls.map AuditLine.toRecord = older ++ recentDecisions (auditLog ls) limit ∧
        (recentDecisions (auditLog ls) limit).length = min limit ls.length) ∧
      ∀ id, findDecision (auditLog ls) id =
        ((ls.map AuditLine.toRecord).find? fun r => r.decisionId = id).map (·.decisionFull) := by
  have hread := readAuditRecords_auditLog ls
  refine ⟨hread, fun limit => ?_, fun id => ?_⟩
  · simp only [recentDecisions, hread]
    refine ⟨(ls.map AuditLine.toRecord).take ((ls.map AuditLine.toRecord).length - limit),
      (List.take_append_drop _ _).symm, ?_⟩
    rw [List.length_drop, List.length_map]
    omega
  · rw [findDecision, hread]

end Paac
