import Paac.Library.Run
import Paac.Store.Database

set_option autoImplicit false

/-!
# The audit writer

Handlers put records into an unbounded channel; one thread takes them out in batches and inserts
them. Between any two steps of the thread any handler may enqueue. The rows of `audit_log`, the
records taken but not inserted and the queue are together always what was enqueued, in that order.

The thread is a state machine whose phases carry the records in its hands (`WriterPhase`): it takes
the first record, drains the queue up to the limit of a batch, and inserts row by row, in a
transaction or without one. A row is in the tables of the thread's connection when it is inserted
and in those of the others when it is committed. Decision ids are assumed to be distinct, the
earlier ones in the tables included, since a second row of one id would replace the first.

## Main results

- `auditStep_cases`: what a step can do, one case for each action.
- `Accounted.enqueue`, `Accounted.logRow`, `Accounted.storeEvidence`, `Accounted.commit`: each step
  accounts for every record, and `Accounted.step` for any of them.
- `accounted_run`: so every run does, by induction on its steps.
- `limited_run`: no batch exceeds its limit.
- `nothing_lost_or_duplicated`: every record enqueued is stored once and in order.
-/

namespace Paac

/-! ## The machine -/

/-- Where the writer thread stands in its loop. -/
inductive WriterPhase where
  /-- before `recv` -/
  | waiting
  /-- in the `try_recv` loop -/
  | draining (batch : List AuditWrite)
  /-- after that loop -/
  | loaded (batch : List AuditWrite)
  /-- before the next record of the batch, in a transaction or without one -/
  | inserting (transaction : Bool) (batch : List AuditWrite)
  /-- between the two statements of a record -/
  | logged (transaction : Bool) (w : AuditWrite) (batch : List AuditWrite)
  deriving DecidableEq

namespace WriterPhase

/-- The records taken from the channel that are not in `audit_log` yet. -/
def unlogged : WriterPhase → List AuditWrite
  | .waiting => []
  | .draining batch => batch
  | .loaded batch => batch
  | .inserting _ batch => batch
  | .logged _ _ batch => batch

/-- The records taken from the channel that are not in `decision_evidence` yet. -/
def unstored : WriterPhase → List AuditWrite
  | .logged _ w batch => w :: batch
  | phase => phase.unlogged

/-- No transaction is open. -/
def Settled : WriterPhase → Prop
  | .inserting transaction _ => transaction = false
  | .logged transaction _ _ => transaction = false
  | _ => True

end WriterPhase

/-- The channel, the thread, the tables as the thread's connection sees them, and as the others do. -/
structure AuditState where
  queue : List AuditWrite
  writer : WriterPhase
  written : Database
  committed : Database

/-- A store just opened on its tables. -/
def AuditState.opened (db : Database) : AuditState := ⟨[], .waiting, db, db⟩

/-- The tables after a statement of the thread: without a transaction it is committed at once. -/
def AuditState.execute (s : AuditState) (transaction : Bool) (db : Database) : AuditState :=
  { s with written := db, committed := if transaction then s.committed else db }

/-- How many records the thread takes at most before it inserts them. -/
def batchLimit : Nat := 64

/-- A step of a handler or of the thread. -/
inductive AuditAction where
  | enqueue (decision : AuthzDecision) (latencyMs : UInt64) (signatureKeyId : Option String)
  | recv
  | tryRecv
  | begin (opened : Bool)
  | insertAuditLog
  | insertEvidence
  | commit

/-- `enqueue_audit`. The receiver lives as long as the store, so `send` succeeds. -/
def enqueueAudit (decision : AuthzDecision) (latencyMs : UInt64) (signatureKeyId : Option String)
    (s : AuditState) : AuditState :=
  { s with queue := s.queue ++ [AuditWrite.ofDecision decision latencyMs signatureKeyId] }

/-- One step, where it is enabled. Every statement of the thread succeeds. -/
def auditStep (s : AuditState) : AuditAction → Option AuditState
  | .enqueue decision latencyMs signatureKeyId =>
      some (enqueueAudit decision latencyMs signatureKeyId s)
  | .recv =>
      match s.writer, s.queue with
      | .waiting, w :: queue => some { s with writer := .draining [w], queue := queue }
      | _, _ => none
  | .tryRecv =>
      match s.writer, s.queue with
      | .draining batch, w :: queue =>
          -- the limit is tested after the push
          let batch' := batch ++ [w]
          some { s with
            writer := if batch'.length ≥ batchLimit then .loaded batch' else .draining batch'
            queue := queue }
      | .draining batch, [] => some { s with writer := .loaded batch }
      | _, _ => none
  | .begin opened =>
      match s.writer with
      | .loaded batch => some { s with writer := .inserting opened batch }
      | _ => none
  | .insertAuditLog =>
      match s.writer with
      | .inserting transaction (w :: batch) =>
          (s.written.insertAuditLog w).map fun db =>
            { s.execute transaction db with writer := .logged transaction w batch }
      | _ => none
  | .insertEvidence =>
      match s.writer with
      | .logged transaction w batch =>
          some { s.execute transaction (s.written.insertEvidence w) with
            writer := .inserting transaction batch }
      | _ => none
  -- without a transaction the rows are visible already
  | .commit =>
      match s.writer with
      | .inserting transaction [] =>
          some { s with
            writer := .waiting
            committed := if transaction then s.written else s.committed }
      | _ => none

/-- What an action puts into the channel. -/
def AuditAction.sent : AuditAction → Option AuditWrite
  | .enqueue decision latencyMs signatureKeyId =>
      some (AuditWrite.ofDecision decision latencyMs signatureKeyId)
  | _ => none

/-- The records put into the channel, in order. -/
def enqueued (acts : List AuditAction) : List AuditWrite := acts.filterMap AuditAction.sent

/-! ## One step -/

variable {db : Database} {acts : List AuditAction} {s t : AuditState} {a : AuditAction}

/-- What a step does where it is enabled. -/
inductive AuditStep (s : AuditState) : AuditAction → AuditState → Prop where
  | enqueued (decision : AuthzDecision) (latencyMs : UInt64) (signatureKeyId : Option String) :
      AuditStep s (.enqueue decision latencyMs signatureKeyId)
        (enqueueAudit decision latencyMs signatureKeyId s)
  | received {w : AuditWrite} {queue : List AuditWrite} (hwriter : s.writer = .waiting)
      (hqueue : s.queue = w :: queue) :
      AuditStep s .recv { s with writer := .draining [w], queue := queue }
  | filled {batch : List AuditWrite} {w : AuditWrite} {queue : List AuditWrite}
      (hwriter : s.writer = .draining batch) (hqueue : s.queue = w :: queue)
      (hfull : (batch ++ [w]).length ≥ batchLimit) :
      AuditStep s .tryRecv { s with writer := .loaded (batch ++ [w]), queue := queue }
  | taken {batch : List AuditWrite} {w : AuditWrite} {queue : List AuditWrite}
      (hwriter : s.writer = .draining batch) (hqueue : s.queue = w :: queue)
      (hroom : ¬(batch ++ [w]).length ≥ batchLimit) :
      AuditStep s .tryRecv { s with writer := .draining (batch ++ [w]), queue := queue }
  | drained {batch : List AuditWrite} (hwriter : s.writer = .draining batch)
      (hqueue : s.queue = []) : AuditStep s .tryRecv { s with writer := .loaded batch }
  | begun {batch : List AuditWrite} (opened : Bool) (hwriter : s.writer = .loaded batch) :
      AuditStep s (.begin opened) { s with writer := .inserting opened batch }
  | logged {transaction : Bool} {w : AuditWrite} {batch : List AuditWrite} {db : Database}
      (hwriter : s.writer = .inserting transaction (w :: batch))
      (hdb : s.written.insertAuditLog w = some db) :
      AuditStep s .insertAuditLog
        { s.execute transaction db with writer := .logged transaction w batch }
  | stored {transaction : Bool} {w : AuditWrite} {batch : List AuditWrite}
      (hwriter : s.writer = .logged transaction w batch) :
      AuditStep s .insertEvidence { s.execute transaction (s.written.insertEvidence w) with
        writer := .inserting transaction batch }
  | settled {transaction : Bool} (hwriter : s.writer = .inserting transaction []) :
      AuditStep s .commit { s with
        writer := .waiting
        committed := if transaction then s.written else s.committed }

/-- **What a step of the writer can do**, one case for each action. -/
theorem auditStep_cases (ht : auditStep s a = some t) : AuditStep s a t := by
  cases a with
  | enqueue decision latencyMs signatureKeyId =>
      obtain rfl := Option.some.inj ht
      exact .enqueued decision latencyMs signatureKeyId
  | recv =>
      simp only [auditStep] at ht
      split at ht
      · next w queue hwriter hqueue =>
          obtain rfl := Option.some.inj ht
          exact .received hwriter hqueue
      · cases ht
  | tryRecv =>
      simp only [auditStep] at ht
      split at ht
      · next batch w queue hwriter hqueue =>
          obtain rfl := Option.some.inj ht
          by_cases hfull : (batch ++ [w]).length ≥ batchLimit
          · rw [if_pos hfull]
            exact .filled hwriter hqueue hfull
          · rw [if_neg hfull]
            exact .taken hwriter hqueue hfull
      · next batch hwriter hqueue =>
          obtain rfl := Option.some.inj ht
          exact .drained hwriter hqueue
      · cases ht
  | begin opened =>
      simp only [auditStep] at ht
      split at ht
      · next batch hwriter =>
          obtain rfl := Option.some.inj ht
          exact .begun opened hwriter
      · cases ht
  | insertAuditLog =>
      simp only [auditStep] at ht
      split at ht
      · next transaction w batch hwriter =>
          obtain ⟨db', hdb, rfl⟩ := Option.map_eq_some_iff.1 ht
          exact .logged hwriter hdb
      · cases ht
  | insertEvidence =>
      simp only [auditStep] at ht
      split at ht
      · next transaction w batch hwriter =>
          obtain rfl := Option.some.inj ht
          exact .stored hwriter
      · cases ht
  | commit =>
      simp only [auditStep] at ht
      split at ht
      · next transaction hwriter =>
          obtain rfl := Option.some.inj ht
          exact .settled hwriter
      · cases ht

/-- Nothing is lost on the way from the channel into the tables, and nothing comes twice. -/
structure Accounted (db : Database) (acts : List AuditAction)
    (s : AuditState) : Prop where
  log : s.written.auditLog.values ++ s.writer.unlogged ++ s.queue =
    db.auditLog.values ++ enqueued acts
  evidence : ∃ stored, stored ++ s.writer.unstored ++ s.queue = enqueued acts ∧
    ∀ w ∈ stored, s.written.decisionEvidence.get w.decisionId = some ⟨w.evidenceJson, w.timestamp⟩
  visible : s.writer.Settled → s.committed = s.written

/-- The ids of all decisions, the earlier ones in the tables included, are distinct. -/
def DistinctIds (db : Database) (acts : List AuditAction) : Prop :=
  ((db.auditLog.values ++ enqueued acts).map AuditWrite.decisionId).Nodup

theorem enqueued_concat (a : AuditAction) :
    enqueued (acts ++ [a]) = enqueued acts ++ a.sent.toList := by
  rw [enqueued, List.filterMap_append]
  cases h : a.sent <;> simp [enqueued, h]

/-- The steps of the thread enqueue nothing. -/
theorem enqueued_thread (ha : a.sent = none) :
    enqueued (acts ++ [a]) = enqueued acts := by
  rw [enqueued_concat, ha]
  exact List.append_nil _

theorem DistinctIds.of_concat (h : DistinctIds db (acts ++ [a])) :
    DistinctIds db acts := by
  unfold DistinctIds at h
  rw [enqueued_concat, ← List.append_assoc, List.map_append] at h
  exact h.of_append_left

theorem accounted_opened (db : Database) :
    Accounted db [] (.opened db) where
  log := List.append_nil _
  evidence := ⟨[], rfl, fun _ hw => absurd hw List.not_mem_nil⟩
  visible := fun _ => rfl

/-- A step of the thread that leaves the tables alone. -/
theorem Accounted.moved {queue : List AuditWrite} {writer : WriterPhase}
    (h : Accounted db acts s) (ha : a.sent = none)
    (hlog : writer.unlogged ++ queue = s.writer.unlogged ++ s.queue)
    (hstore : writer.unstored ++ queue = s.writer.unstored ++ s.queue)
    (hsettled : s.writer.Settled) :
    Accounted db (acts ++ [a]) { s with queue := queue, writer := writer } where
  log := by
    rw [enqueued_thread ha, List.append_assoc, hlog, ← List.append_assoc]
    exact h.log
  evidence := by
    obtain ⟨stored, hstored, hrows⟩ := h.evidence
    refine ⟨stored, ?_, hrows⟩
    rw [enqueued_thread ha, List.append_assoc, hstore, ← List.append_assoc]
    exact hstored
  visible := fun _ => h.visible hsettled

/-- The record after the rows written has an id that no row has. -/
theorem Accounted.unlogged_new {w : AuditWrite} {batch : List AuditWrite}
    (h : Accounted db acts s) (hids : DistinctIds db acts)
    (hw : s.writer.unlogged = w :: batch) :
    w.decisionId ∉ s.written.auditLog.values.map AuditWrite.decisionId := by
  have hall : ((s.written.auditLog.values ++ (w :: batch ++ s.queue)).map
      AuditWrite.decisionId).Nodup := by
    rw [← hw, ← List.append_assoc, h.log]
    exact hids
  rw [List.map_append] at hall
  intro hmem
  exact (List.disjoint_of_nodup_append hall) hmem (List.mem_map_of_mem List.mem_cons_self)

/-- The record after the evidence stored has an id of its own. -/
theorem unstored_new {stored rest : List AuditWrite} {w : AuditWrite}
    (hids : DistinctIds db acts) (hall : stored ++ w :: rest = enqueued acts) :
    ∀ w' ∈ stored, w'.decisionId ≠ w.decisionId := by
  have hnodup : ((stored ++ w :: rest).map AuditWrite.decisionId).Nodup := by
    rw [hall]
    unfold DistinctIds at hids
    rw [List.map_append] at hids
    exact hids.of_append_right
  rw [List.map_append] at hnodup
  intro w' hw' heq
  have hmem : w'.decisionId ∈ (w :: rest).map AuditWrite.decisionId :=
    heq ▸ List.mem_map_of_mem List.mem_cons_self
  exact List.disjoint_of_nodup_append hnodup (List.mem_map_of_mem hw') hmem

/-- A record goes into the channel. -/
theorem Accounted.enqueue (h : Accounted db acts s) (decision : AuthzDecision) (latencyMs : UInt64)
    (signatureKeyId : Option String) :
    Accounted db (acts ++ [.enqueue decision latencyMs signatureKeyId])
      (enqueueAudit decision latencyMs signatureKeyId s) where
  log := by
    rw [enqueued_concat, ← List.append_assoc, ← h.log, List.append_assoc _ s.queue]
    rfl
  evidence := by
    obtain ⟨stored, hstored, hrows⟩ := h.evidence
    refine ⟨stored, ?_, hrows⟩
    rw [enqueued_concat, ← hstored, List.append_assoc _ s.queue]
    rfl
  visible := h.visible

/-- The first of the two statements for a record. -/
theorem Accounted.logRow {transaction : Bool} {w : AuditWrite} {batch : List AuditWrite}
    {db' : Database} (h : Accounted db acts s) (hids : DistinctIds db acts)
    (hwriter : s.writer = .inserting transaction (w :: batch))
    (hdb : s.written.insertAuditLog w = some db') :
    Accounted db (acts ++ [.insertAuditLog])
      { s.execute transaction db' with writer := .logged transaction w batch } := by
  have hunlogged : s.writer.unlogged = w :: batch := by rw [hwriter]; rfl
  obtain ⟨hvalues, hevidence⟩ :=
    Database.insertAuditLog_some hdb (h.unlogged_new hids hunlogged)
  have hlog := h.log
  obtain ⟨stored, hstored, hrows⟩ := h.evidence
  rw [hunlogged] at hlog
  rw [hwriter] at hstored
  constructor
  · rw [enqueued_thread rfl]
    simpa [AuditState.execute, hvalues, WriterPhase.unlogged] using hlog
  · refine ⟨stored, ?_, hevidence ▸ hrows⟩
    rw [enqueued_thread rfl]
    exact hstored
  · exact fun hsettled => if_neg (Bool.eq_false_iff.1 hsettled)

/-- The second one. -/
theorem Accounted.storeEvidence {transaction : Bool} {w : AuditWrite} {batch : List AuditWrite}
    (h : Accounted db acts s) (hids : DistinctIds db acts)
    (hwriter : s.writer = .logged transaction w batch) :
    Accounted db (acts ++ [.insertEvidence])
      { s.execute transaction (s.written.insertEvidence w) with
        writer := .inserting transaction batch } := by
  have hlog := h.log
  obtain ⟨stored, hstored, hrows⟩ := h.evidence
  rw [hwriter] at hlog hstored
  have hnew := unstored_new hids (by simpa [WriterPhase.unstored] using hstored)
  constructor
  · rw [enqueued_thread rfl]
    exact hlog
  · refine ⟨stored ++ [w], ?_, ?_⟩
    · rw [enqueued_thread rfl, List.append_assoc, List.append_assoc]
      rw [List.append_assoc] at hstored
      exact hstored
    · intro w' hw'
      rcases List.mem_append.1 hw' with hw' | hw'
      · have hne := (hnew w' hw').symm
        exact (IndexMap.get_insert_ne _ hne _).trans (hrows w' hw')
      · obtain rfl := List.mem_singleton.1 hw'
        exact IndexMap.get_insert_self _ _ _
  · exact fun hsettled => if_neg (Bool.eq_false_iff.1 hsettled)

/-- The end of a batch makes its rows visible to the other connections. -/
theorem Accounted.commit {transaction : Bool} (h : Accounted db acts s)
    (hwriter : s.writer = .inserting transaction []) :
    Accounted db (acts ++ [.commit]) { s with
      writer := .waiting
      committed := if transaction then s.written else s.committed } := by
  have hlog := h.log
  obtain ⟨stored, hstored, hrows⟩ := h.evidence
  rw [hwriter] at hlog hstored
  constructor
  · rw [enqueued_thread rfl]
    exact hlog
  · refine ⟨stored, ?_, hrows⟩
    rw [enqueued_thread rfl]
    exact hstored
  · intro _
    cases transaction with
    | true => rfl
    | false => exact h.visible (by rw [hwriter]; rfl)

/-- Every step keeps the account. -/
theorem Accounted.step (h : Accounted db acts s) (hids : DistinctIds db (acts ++ [a]))
    (ht : auditStep s a = some t) : Accounted db (acts ++ [a]) t := by
  cases auditStep_cases ht with
  | enqueued decision latencyMs signatureKeyId => exact h.enqueue decision latencyMs signatureKeyId
  | received hwriter hqueue =>
      apply h.moved rfl
      · rw [hwriter, hqueue]
        rfl
      · rw [hwriter, hqueue]
        rfl
      · rw [hwriter]
        trivial
  | filled hwriter hqueue =>
      -- loaded or not, the batch is the old one and the record taken
      apply h.moved rfl
      · simp [hwriter, hqueue, WriterPhase.unlogged]
      · simp [hwriter, hqueue, WriterPhase.unstored, WriterPhase.unlogged]
      · rw [hwriter]
        trivial
  | taken hwriter hqueue =>
      apply h.moved rfl
      · simp [hwriter, hqueue, WriterPhase.unlogged]
      · simp [hwriter, hqueue, WriterPhase.unstored, WriterPhase.unlogged]
      · rw [hwriter]
        trivial
  | drained hwriter =>
      apply h.moved rfl
      · rw [hwriter]
        rfl
      · rw [hwriter]
        rfl
      · rw [hwriter]
        trivial
  | begun opened hwriter =>
      apply h.moved rfl
      · rw [hwriter]
        rfl
      · rw [hwriter]
        rfl
      · rw [hwriter]
        trivial
  | logged hwriter hdb => exact h.logRow hids.of_concat hwriter hdb
  | stored hwriter => exact h.storeEvidence hids.of_concat hwriter
  | settled hwriter => exact h.commit hwriter

/-! ## Every run -/

theorem accounted_run (hids : DistinctIds db acts)
    (hrun : runFrom auditStep (.opened db) acts = some s) : Accounted db acts s := by
  -- the ids of a part of the run are distinct too
  refine runFrom_invariant (P := fun acts s => DistinctIds db acts → Accounted db acts s)
    (fun _ => accounted_opened db) ?_ hrun hids
  intro acts m a t _ hm ht hids
  exact (hm hids.of_concat).step hids ht

/-- The record of every decision enqueued is among the records enqueued. -/
theorem mem_enqueued {d : AuthzDecision} {latencyMs : UInt64} {signatureKeyId : Option String}
    (h : .enqueue d latencyMs signatureKeyId ∈ acts) :
    AuditWrite.ofDecision d latencyMs signatureKeyId ∈ enqueued acts :=
  List.mem_filterMap.2 ⟨_, h, rfl⟩

/-- At every moment the rows written, the records taken and the queue are what was enqueued. Once
the queue is drained, both tables hold every decision, as the readers see them. -/
theorem nothing_lost_or_duplicated (db : Database) (acts : List AuditAction) (s : AuditState)
    (hids : DistinctIds db acts) (hrun : runFrom auditStep (.opened db) acts = some s) :
    s.written.auditLog.values ++ s.writer.unlogged ++ s.queue =
        db.auditLog.values ++ enqueued acts ∧
      (s.writer = .waiting → s.queue = [] →
        s.committed.auditLog.values = db.auditLog.values ++ enqueued acts ∧
        (∀ d latencyMs signatureKeyId, .enqueue d latencyMs signatureKeyId ∈ acts →
          Database.getEvidence s.committed d.evidence.decisionId = .ok (some d)) ∧
        ∀ limit : UInt64, Database.recentAudit s.committed limit =
          ((db.auditLog.values ++ enqueued acts).reverse.take limit.toNat).map
            Database.auditJson) := by
  have hall := accounted_run hids hrun
  refine ⟨hall.log, ?_⟩
  intro hwriter hqueue
  -- a waiting writer has committed what it wrote
  have hvisible : s.committed = s.written := hall.visible (by rw [hwriter]; trivial)
  have hrows : s.committed.auditLog.values = db.auditLog.values ++ enqueued acts := by
    rw [hvisible, ← hall.log, hwriter, hqueue]
    simp [WriterPhase.unlogged]
  refine ⟨hrows, ?_, ?_⟩
  · intro d latencyMs signatureKeyId hd
    obtain ⟨stored, hstored, hevidence⟩ := hall.evidence
    rw [hwriter, hqueue] at hstored
    have hmem : AuditWrite.ofDecision d latencyMs signatureKeyId ∈ stored := by
      have hsame : stored = enqueued acts := by
        simpa [WriterPhase.unstored, WriterPhase.unlogged] using hstored
      rw [hsame]
      exact mem_enqueued hd
    have hrow := hevidence _ hmem
    rw [← hvisible] at hrow
    exact Database.getEvidence_stored hrow
  · intro limit
    rw [Database.recentAudit_eq, hrows]

/-! ### A run of two decisions -/

namespace Writer

def request : AuthzRequest :=
  ⟨.withRoles "user:a" ["R"], ⟨"READ"⟩, .ofKind "X", none, ⟨.empty⟩, [], none, none⟩

def decision (id : String) : AuthzDecision :=
  ⟨.deny, id, .deny, request, [], none, "r1", some "key1", "0.2.0", "2026-01-01T00:00:00+00:00", []⟩

/-- The second decision arrives while the first is in the hands of the thread. -/
def run : List AuditAction :=
  [.enqueue (decision "dec-1") 3 (some "key1"), .recv, .enqueue (decision "dec-2") 0 none, .tryRecv,
    .tryRecv, .begin true, .insertAuditLog, .insertEvidence, .insertAuditLog, .insertEvidence,
    .commit]

def final : AuditState := (runFrom auditStep (.opened .new) run).getD (.opened .new)

end Writer

open Writer in
/-- Both decisions are there, and the later one is the most recent. -/
theorem nothing_lost_or_duplicated_two :
    final.committed.auditLog.values = enqueued run ∧
      Database.getEvidence final.committed "dec-2" = .ok (some (decision "dec-2")) ∧
      Database.recentAudit final.committed 1 =
        [Database.auditJson (.ofDecision (decision "dec-2") 0 none)] := by
  have hids : DistinctIds .new run := by
    unfold DistinctIds
    decide
  have hrun : runFrom auditStep (.opened .new) run = some final := rfl
  obtain ⟨-, hdrained⟩ := nothing_lost_or_duplicated .new run final hids hrun
  obtain ⟨hrows, hevidence, hrecent⟩ := hdrained rfl rfl
  exact ⟨hrows, hevidence (decision "dec-2") 0 none (by simp [run]), hrecent 1⟩

/-! ## The batches and the way to an empty queue -/

/-- The thread never holds more records than the limit. -/
def WriterPhase.Limited : WriterPhase → Prop
  | .draining batch => batch.length < batchLimit
  | phase => phase.unstored.length ≤ batchLimit

/-- A step keeps the batch within its limit. -/
theorem limited_step (hs : s.writer.Limited) (ht : auditStep s a = some t) : t.writer.Limited := by
  cases auditStep_cases ht with
  | enqueued decision latencyMs signatureKeyId => exact hs
  | received hwriter hqueue => exact show 1 < batchLimit by decide
  | @filled batch w queue hwriter hqueue hfull =>
      -- one more record reaches the limit at most
      rw [hwriter] at hs
      have hlength : batch.length < batchLimit := hs
      exact (List.length_append ..).trans_le hlength
  | taken hwriter hqueue hroom => exact Nat.lt_of_not_ge hroom
  | drained hwriter hqueue =>
      rw [hwriter] at hs
      exact Nat.le_of_lt hs
  | begun opened hwriter =>
      rw [hwriter] at hs
      exact hs
  | logged hwriter hdb =>
      rw [hwriter] at hs
      exact hs
  | stored hwriter =>
      rw [hwriter] at hs
      exact Nat.le_of_succ_le hs
  | settled hwriter => exact Nat.zero_le _

/-- Every batch is within the limit, whatever arrives. -/
theorem limited_run (hrun : runFrom auditStep (.opened db) acts = some s) : s.writer.Limited := by
  refine runFrom_invariant (P := fun _ s => s.writer.Limited) (Nat.zero_le _) ?_ hrun
  intro acts m a t _ hm ht
  exact limited_step hm ht

end Paac
