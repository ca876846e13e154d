import Paac.Core.Serde
import Paac.Library.Table

set_option autoImplicit false

/-!
# The audit tables

A decision becomes one row of `audit_log` and one of `decision_evidence`. The first is read back as
a list, the newest first; the second by decision id. The log is a table with an autoincrement id
(`Library/Table.lean`) in which the decision id is unique; the evidence has the decision id as its
key. So a second record of one id would replace the first.

The limit of a query is unsigned in the source and signed for the driver, and the latency of a
record is cast as well; both casts are modelled.

## Main results

- `insertAuditLog_some`: a row that is inserted is the newest one.
- `recentAudit_eq`: the newest rows, up to a limit.
- `getEvidence_stored`: evidence is found under the id it was stored with.
-/

namespace Paac

inductive StoreError where
  | sqlite (e : String)
  | msg (text : String)
  | serde (e : Serde.Error)
  deriving DecidableEq, Repr

/-! ## Rows -/

structure AuditWrite where
  decisionId : String
  principal : String
  action : String
  resource : String
  subject : Option String
  decision : String
  policyRevision : String
  signatureKeyId : Option String
  latencyMs : Int64
  timestamp : String
  evidenceJson : String
  deriving DecidableEq

/-- The record of `enqueue_audit`. The latency is cast to a signed number. -/
def AuditWrite.ofDecision (decision : AuthzDecision) (latencyMs : UInt64)
    (signatureKeyId : Option String) : AuditWrite where
  decisionId := decision.evidence.decisionId
  principal := decision.evidence.request.principal.id
  action := decision.evidence.request.action.name
  resource := decision.evidence.request.resource.kind
  subject := decision.evidence.request.subject.map Subject.id
  decision := decision.effect.upperText
  policyRevision := decision.evidence.policyRevision
  -- without a key id the signature takes its place
  signatureKeyId := signatureKeyId <|> decision.evidence.policySignature
  latencyMs := latencyMs.toInt64
  timestamp := decision.evidence.timestamp
  evidenceJson := decision.toJson.toText

/-- A row of `decision_evidence`; the decision id is its primary key. -/
structure StoredEvidence where
  evidenceJson : String
  createdAt : String
  deriving DecidableEq

/-- The two tables of the migration that the audit uses. -/
structure Database where
  auditLog : AutoTable AuditWrite
  decisionEvidence : IndexMap StoredEvidence

namespace Database

/-- The tables after the migration of a new file. -/
def new : Database := ⟨.empty, .empty⟩

/-! ## Statements -/

/-- `INSERT OR REPLACE INTO audit_log`; `decision_id` is unique. -/
def insertAuditLog (db : Database) (w : AuditWrite) : Option Database :=
  (db.auditLog.insertOrReplace AuditWrite.decisionId w).map fun table => { db with auditLog := table }

/-- `INSERT OR REPLACE INTO decision_evidence`. -/
def insertEvidence (db : Database) (w : AuditWrite) : Database :=
  { db with
    decisionEvidence := db.decisionEvidence.insert w.decisionId ⟨w.evidenceJson, w.timestamp⟩ }

/-- A row of `recent_audit`. What does not parse as JSON is reported as null. -/
def auditJson (w : AuditWrite) : Json :=
  .obj [
    ("decision_id", .str w.decisionId),
    ("principal", .str w.principal),
    ("action", .str w.action),
    ("resource", .str w.resource),
    ("subject", (w.subject.map Json.str).getD .null),
    ("decision", .str w.decision),
    ("policy_revision", .str w.policyRevision),
    ("signature_key_id", (w.signatureKeyId.map Json.str).getD .null),
    ("latency_ms", .num (toString w.latencyMs.toInt)),
    ("timestamp", .str w.timestamp),
    ("evidence", (Json.parse w.evidenceJson).getD .null)]

/-- `recent_audit`. The limit is cast to a signed number. -/
def recentAudit (db : Database) (limit : UInt64) : List Json :=
  (db.auditLog.recent limit.toInt64.toInt).map fun row => auditJson row.2

/-- `get_evidence`. -/
def getEvidence (db : Database) (decisionId : String) :
    Except StoreError (Option AuthzDecision) :=
  match db.decisionEvidence.get decisionId with
  | some row =>
      mapErr StoreError.serde (some <$> Serde.fromText AuthzDecision.fromJson row.evidenceJson)
  | none => .ok none

/-! ## What the statements do -/

variable {db db' : Database} {w : AuditWrite}

/-- A record with a new decision id becomes the last row. -/
theorem insertAuditLog_some (h : db.insertAuditLog w = some db')
    (hnew : w.decisionId ∉ db.auditLog.values.map AuditWrite.decisionId) :
    db'.auditLog.values = db.auditLog.values ++ [w] ∧
      db'.decisionEvidence = db.decisionEvidence := by
  obtain ⟨table, htable, rfl⟩ := Option.map_eq_some_iff.1 h
  exact ⟨AutoTable.values_insertOrReplace htable hnew, rfl⟩

/-- `recent_audit` gives the last rows, the newest first. -/
theorem recentAudit_eq (db : Database) (limit : UInt64) :
    recentAudit db limit =
      (db.auditLog.values.reverse.take limit.toNat).map (auditJson) := by
  rw [← AutoTable.values_recent_cast, List.map_map]
  rfl

/-- A decision whose evidence is stored is found. -/
theorem getEvidence_stored {db : Database} {d : AuthzDecision} {createdAt : String}
    (hrow : db.decisionEvidence.get d.evidence.decisionId = some ⟨d.toJson.toText, createdAt⟩) :
    getEvidence db d.evidence.decisionId = .ok (some d) := by
  simp only [getEvidence, hrow]
  rw [Serde.fromText_toText _ d.writable, AuthzDecision.fromJson_toJson]
  rfl

end Database

end Paac
