import Paac.Board.Matrix
import Paac.Policy.Interleaved
import Paac.Suggest.Appends

set_option autoImplicit false

/-!
# The gateway server

The gateway answers checks from the deployed revision, which it reads anew for each of them, and
keeps every decision in memory and in the audit log. Requests are handled at the same time, beside
the processes of the command line that work on the same store. A request takes its UUID from its own
surroundings, so the decisions of two requests have different ids; what is stored under the id of a
request is left alone by the others, which is what makes an answer explainable for good.

Every process of the gateway or of the command line is a tree of atomic actions on one state: the
store, the writes to the audit log, and the decisions in memory. A record is two writes, its text
and the line feed, and another process may write between them. The processes on the store keep the
protocol of the store (`Policy/Interleaved.lean`); the requests add that the others neither remember
nor log anything under the id of a request.

## Main results

- `GatewaySound`: what holds of the gateway at every moment, and `gatewayProtocol`: what a process
  may rely on while the others act.
- `keeps_check`, `keeps_explain`, `keeps_boardMatrix`, `keeps`: every process keeps the protocol.
- `gatewayPool_keeps`: so every interleaving of any number of them is sound.
- `gateway_interleaved`: what a client gets: a decision that was taken on a released revision, stays
  in memory under its id, and is what an explanation shows.
- `audit_log_interleaved`: what a reader of the log gets.
- `gateway_follows_text`: every decision that is remembered is one by a released text.
-/

namespace Paac

open Cedar (Engine)

/-! ## State -/

/-- How a request or a process of the command line ends without an answer. -/
inductive GatewayHalt where
  | refused (status : Nat) (text : String)
  | panicked
  | stopped
  deriving DecidableEq, Repr

/-- The store, the writes to the audit log, and the decisions in memory. -/
structure GatewayWorld where
  store : StoreWorld
  log : List LogWrite
  decisions : IndexMap AuthzDecision

/-- A process on the gateway's state. -/
abbrev GatewayProc (α : Type) : Type 1 := Proc GatewayHalt GatewayWorld Empty α

/-- An atomic action on the gateway's state. -/
abbrev GatewayOp (α : Type) : Type := Eff GatewayHalt GatewayWorld Empty α

def GatewayWorld.storePart : Part StoreWorld GatewayWorld where
  get := GatewayWorld.store
  set store w := { w with store }
  get_set _ _ := rfl

/-- A failing store operation as a response with the status. -/
def StoreHalt.refuse (status : Nat) : StoreHalt → GatewayHalt
  | .error e => .refused status e.toText
  | .stopped => .stopped

/-- A failing evaluation as a response; a panic ends the request. -/
def refuseEvaluation : Halt AuthzError → GatewayHalt
  | .error e => .refused 400 e.toText
  | .panic _ => .panicked

section

variable {E : Engine} (env : StoreEnv E)

/-! ## Handlers -/

/-- The first `n` bytes of a text, or all of it; there are none inside a character. -/
def bytePrefix : Nat → List Char → Option (List Char)
  | 0, _ => some []
  | _, [] => some []
  | n + 1, c :: cs =>
      if c.utf8Size ≤ n + 1 then (bytePrefix (n + 1 - c.utf8Size) cs).map (c :: ·) else none

/-- The signature that a decision of the gateway names. -/
def signatureLabel (b : SignedBundle) : Option String :=
  (bytePrefix 16 b.signatureB64.toList).map fun cs => b.keyId ++ ":" ++ String.ofList cs

/-- The labels of a revision, of which there is none without a bundle; slicing may panic. -/
def revisionLabel (rev : PolicyRevision) : Except GatewayHalt (Option String) :=
  match rev.bundle with
  | none => .ok none
  | some b =>
      match signatureLabel b with
      | some label => .ok (some label)
      | none => .error .panicked

/-- A write to the audit log, which says whether it was made. -/
def writeAudit (write : LogWrite) : GatewayOp Bool := fun w =>
  let w' := { w with store.tick := w.store.tick + 1 }
  match env.fault w.store.tick with
  | some .stopped => ⟨.error .stopped, w', []⟩
  | some (.failed _) => ⟨.ok false, w', []⟩
  | none => ⟨.ok true, { w' with log := w.log ++ [write] }, []⟩

/-- `append_audit`, whose errors the gateway ignores: the record, and then the line feed. -/
def logDecision (d : AuthzDecision) : GatewayProc Unit := do
  let written ← .atom (writeAudit env (.record (.fromDecision d 0)))
  if written then
    let _ ← .atom (writeAudit env .lineFeed)
  return ()

/-- Put a decision into memory. -/
def rememberDecision (d : AuthzDecision) : GatewayOp Unit := Eff.modify fun w =>
  { w with decisions := w.decisions.insert d.evidence.decisionId d }

namespace Gateway

/-- `check`. -/
def check (fresh : Fresh) (req : AuthzRequest) : GatewayProc AuthzDecision := do
  let found ← (InTurns.policySetFromDeployed env).within GatewayWorld.storePart (StoreHalt.refuse 503)
  let rev := found.2
  let label ← .done (revisionLabel rev)
  let decision ← .done
    (mapErr refuseEvaluation (evaluate E fresh req ⟨found.1, rev.revision, label, .empty⟩))
  logDecision env decision
  .atom (rememberDecision decision)
  return decision

/-- `explain`. -/
def explain (id : String) : GatewayProc AuthzDecision := .atom fun w =>
  match w.decisions.get id with
  | some d => ⟨.ok d, w, []⟩
  | none => ⟨.error (.refused 404 "decision not found"), w, []⟩

/-- `board_matrix`. -/
def boardMatrix : GatewayProc PolicyMatrix := do
  let dsl ← (InTurns.readActiveDsl env).within GatewayWorld.storePart (StoreHalt.refuse 500)
  return buildMatrix ((parseDsl dsl).toOption.getD [])

end Gateway

end

/-! ## Tasks -/

/-- What a process does: one of the command line, or a request to the gateway. -/
inductive GatewayTask where
  | store (task : StoreTask)
  | check (req : AuthzRequest)
  | explain (id : String)
  | boardMatrix

namespace GatewayTask

def Answer (E : Engine) : GatewayTask → Type
  | .store task => task.Answer E
  | .check _ => AuthzDecision
  | .explain _ => AuthzDecision
  | .boardMatrix => PolicyMatrix

def proc {E : Engine} (env : StoreEnv E) (fresh : Fresh) :
    (task : GatewayTask) → GatewayProc (task.Answer E)
  | .store task => (task.proc env).within GatewayWorld.storePart (StoreHalt.refuse 500)
  | .check req => Gateway.check env fresh req
  | .explain id => Gateway.explain id
  | .boardMatrix => Gateway.boardMatrix env

end GatewayTask

section

variable {E : Engine} {env : StoreEnv E} {texts : Set String} {signers : Set BundleSigner}
  {ι : Type} {fresh : ι → Fresh} {tasks : ι → GatewayTask}

/-- The decision was taken on the policies of a released revision, which it names. -/
def DecidedOnReleased (env : StoreEnv E) (texts : Set String) (signers : Set BundleSigner)
    (fresh : Fresh) (req : AuthzRequest) (d : AuthzDecision) : Prop :=
  ∃ (rev : PolicyRevision) (policies : List DslPolicy) (set : E.PolicySet) (label : Option String),
    rev.Released env texts signers ∧ validateDsl E rev.dsl = .ok policies ∧
      cedarPolicySetFromDsl E policies = .ok set ∧
        evaluate E fresh req ⟨set, rev.revision, label, .empty⟩ = .ok d

/-- Some request took the decision. -/
def Taken (env : StoreEnv E) (texts : Set String) (signers : Set BundleSigner) (fresh : ι → Fresh)
    (tasks : ι → GatewayTask) (d : AuthzDecision) : Prop :=
  ∃ i req, tasks i = .check req ∧ DecidedOnReleased env texts signers (fresh i) req d

/-- **What holds of the gateway at every moment.** -/
structure GatewaySound (env : StoreEnv E) (texts : Set String) (signers : Set BundleSigner)
    (fresh : ι → Fresh) (tasks : ι → GatewayTask) (w : GatewayWorld) : Prop where
  store : Governed env texts signers w.store.disk
  remembered : ∀ id d, w.decisions.get id = some d →
    d.evidence.decisionId = id ∧ Taken env texts signers fresh tasks d
  logged : ∀ r, .record r ∈ w.log →
    ∃ d, r = .fromDecision d 0 ∧ Taken env texts signers fresh tasks d

/-- The others neither remember nor log anything under the id of a request. -/
def gatewayProtocol (env : StoreEnv E) (texts : Set String) (signers : Set BundleSigner)
    (fresh : ι → Fresh) (tasks : ι → GatewayTask) : Protocol ι GatewayWorld where
  Inv := GatewaySound env texts signers fresh tasks
  Step w w' := (storeProtocol ι env texts signers).Step w.store w'.store
  Own i w w' := w'.decisions.get (fresh i).uuid = w.decisions.get (fresh i).uuid ∧
    w'.log.filter (LogWrite.ofId (fresh i).uuid) = w.log.filter (LogWrite.ofId (fresh i).uuid)
  step_refl w := (storeProtocol ι env texts signers).step_refl w.store
  step_trans h h' := (storeProtocol ι env texts signers).step_trans h h'
  own_refl _ _ := ⟨rfl, rfl⟩
  own_trans h h' := ⟨h'.1.trans h.1, h'.2.trans h.2⟩

/-! ## Every process keeps the protocol -/

variable {α : Type} {i : ι} {w : GatewayWorld}

/-- Process `i` keeps the protocol of the gateway. -/
abbrev KeepsGateway (env : StoreEnv E) (texts : Set String) (signers : Set BundleSigner)
    (fresh : ι → Fresh) (tasks : ι → GatewayTask) (i : ι) (Q : α → GatewayWorld → Prop)
    (p : GatewayProc α) (w : GatewayWorld) : Prop :=
  p.Keeps (gatewayProtocol env texts signers fresh tasks) i Q w

/-- No record of the id is in the log. -/
def Unlogged (id : String) (w : GatewayWorld) : Prop := w.log.filter (LogWrite.ofId id) = []

/-- The others write no record of the id of a process. -/
theorem Unlogged.later {w' : GatewayWorld} (h : Unlogged (fresh i).uuid w)
    (hw' : (gatewayProtocol env texts signers fresh tasks).Later i w w') :
    Unlogged (fresh i).uuid w' :=
  hw'.2.2.trans h

/-- A process of the store is one of the gateway. -/
theorem keeps_within {Q : α → StoreWorld → Prop} {p : StoreProc α} (refuse : StoreHalt → GatewayHalt)
    (h : KeepsStore env texts signers i Q p w.store) (hunlogged : Unlogged (fresh i).uuid w) :
    KeepsGateway env texts signers fresh tasks i
      (fun a w' => Q a w'.store ∧ Unlogged (fresh i).uuid w')
      (p.within GatewayWorld.storePart refuse) w := by
  refine Proc.Keeps.within (gatewayProtocol env texts signers fresh tasks) GatewayWorld.storePart
    refuse ?_ ?_ ?_ ?_ h hunlogged
  · exact fun s t ht => ⟨⟨ht.1.1, ht.inv.store⟩, trivial⟩
  · exact fun t u ht hu => ⟨⟨hu.since.1, hu.since.2, ht.remembered, ht.logged⟩,
      fun _ _ => ⟨rfl, rfl⟩⟩
  · exact fun s t ht hs => hs.later ht
  · exact fun s u hs => hs

/-- An evaluation names its decision after the UUID of its surroundings. -/
theorem evaluate_decisionId {fresh : Fresh} {req : AuthzRequest} {cfg : EvaluatorConfig E}
    {d : AuthzDecision} (h : evaluate E fresh req cfg = .ok d) : d.evidence.decisionId = fresh.uuid := by
  obtain ⟨es, q, p, a, r, c, -, -, -, rfl⟩ := evaluate_ok h
  rfl

/-- An evaluation records its request. -/
theorem evaluate_request {fresh : Fresh} {req : AuthzRequest} {cfg : EvaluatorConfig E}
    {d : AuthzDecision} (h : evaluate E fresh req cfg = .ok d) : d.evidence.request = req := by
  obtain ⟨es, q, p, a, r, c, -, -, -, rfl⟩ := evaluate_ok h
  rfl

/-- Without faults the write is made, and later the log has it for the id. -/
def Written (env : StoreEnv E) (id : String) (write : LogWrite) (w : GatewayWorld) (made : Bool)
    (w' : GatewayWorld) : Prop :=
  (∀ n, env.fault n = none) → made = true ∧
    w'.log.filter (LogWrite.ofId id) = (w.log ++ [write]).filter (LogWrite.ofId id)

/-- A write changes the log only, and that at its end. -/
theorem keeps_writeAudit {write : LogWrite}
    (hwrite : ∀ k, k ≠ i → write.ofId (fresh k).uuid = false)
    (htaken : ∀ r, write = .record r →
      ∃ d, r = .fromDecision d 0 ∧ Taken env texts signers fresh tasks d) :
    KeepsGateway env texts signers fresh tasks i
      (Written env (fresh i).uuid write w) (.atom (writeAudit env write)) w := by
  refine Proc.Keeps.atom fun t ht => ?_
  unfold writeAudit
  cases hfault : env.fault t.store.tick with
  | some f =>
      have hallows : (gatewayProtocol env texts signers fresh tasks).Allows i t
          { t with store.tick := t.store.tick + 1 } :=
        ⟨⟨fun _ h => h, ht.inv.store, ht.inv.remembered, ht.inv.logged⟩, fun _ _ => ⟨rfl, rfl⟩⟩
      cases f with
      | stopped => exact ⟨hallows, fun a ha => by cases ha⟩
      | failed e =>
          refine ⟨hallows, fun _ _ u _ hnone => ?_⟩
          rw [hnone] at hfault
          cases hfault
  | none =>
      have hallows : (gatewayProtocol env texts signers fresh tasks).Allows i t
          { t with store.tick := t.store.tick + 1, log := t.log ++ [write] } := by
        refine ⟨⟨fun _ h => h, ht.inv.store, ht.inv.remembered, fun r hr => ?_⟩, fun k hk => ?_⟩
        · rcases List.mem_append.1 hr with hr | hr
          · exact ht.inv.logged r hr
          · exact htaken r (List.mem_singleton.1 hr).symm
        · refine ⟨rfl, ?_⟩
          change (t.log ++ [write]).filter _ = _
          simp [hwrite k hk]
      refine ⟨hallows, fun made hmade u hu _ => ⟨(Except.ok.inj hmade).symm, hu.2.2.trans ?_⟩⟩
      change (t.log ++ [write]).filter _ = _
      rw [List.filter_append, List.filter_append, ht.2.2]

/-- The log gets the record of the decision, which the others do not take away. -/
theorem keeps_logDecision {d : AuthzDecision}
    (huuid : ∀ i j, (fresh i).uuid = (fresh j).uuid → i = j)
    (hid : d.evidence.decisionId = (fresh i).uuid) (htaken : Taken env texts signers fresh tasks d)
    (hw : (gatewayProtocol env texts signers fresh tasks).Inv w)
    (hunlogged : Unlogged (fresh i).uuid w) :
    KeepsGateway env texts signers fresh tasks i
      (fun _ w' => (∀ n, env.fault n = none) →
        w'.log.filter (LogWrite.ofId (fresh i).uuid) = [.record (.fromDecision d 0)])
      (logDecision env d) w := by
  have hfirst : KeepsGateway env texts signers fresh tasks i
      (Written env (fresh i).uuid (.record (.fromDecision d 0)) w)
      (.atom (writeAudit env (.record (.fromDecision d 0)))) w := by
    refine keeps_writeAudit (fun k hk => decide_eq_false fun h => hk ?_) fun r hr => ?_
    · exact huuid k i (h.symm.trans hid)
    · exact ⟨d, (LogWrite.record.inj hr).symm, htaken⟩
  refine hfirst.bind hw fun written w₁ h₁ hwritten => ?_
  cases written with
  | false => exact Proc.Keeps.pure fun t ht hnone => absurd (hwritten hnone).1 (by decide)
  | true =>
      have hsecond : KeepsGateway env texts signers fresh tasks i
          (Written env (fresh i).uuid .lineFeed w₁) (.atom (writeAudit env .lineFeed)) w₁ :=
        keeps_writeAudit (fun _ _ => rfl) fun r hr => by cases hr
      refine hsecond.bind h₁.2 fun made w₂ h₂ hmade => ?_
      refine Proc.Keeps.pure fun t ht hnone => ht.2.2.trans ((hmade hnone).2.trans ?_)
      rw [List.filter_append, (hwritten hnone).2, List.filter_append, hunlogged]
      simp [LogWrite.ofId, AuditRecord.fromDecision, hid]

/-- The memory grows by a decision of the process, which stays there. -/
theorem keeps_rememberDecision {d : AuthzDecision}
    (huuid : ∀ i j, (fresh i).uuid = (fresh j).uuid → i = j)
    (hid : d.evidence.decisionId = (fresh i).uuid)
    (htaken : Taken env texts signers fresh tasks d) :
    KeepsGateway env texts signers fresh tasks i
      (fun _ w' => w'.decisions.get (fresh i).uuid = some d ∧
        w'.log.filter (LogWrite.ofId (fresh i).uuid) =
          w.log.filter (LogWrite.ofId (fresh i).uuid))
      (.atom (rememberDecision d)) w := by
  refine Proc.Keeps.atom fun t ht => ?_
  have hget : (rememberDecision d t).state.decisions.get (fresh i).uuid = some d := by
    rw [← hid]
    exact IndexMap.get_insert_self _ _ _
  refine ⟨⟨⟨fun _ h => h, ht.inv.store, ?_, ht.inv.logged⟩, ?_⟩, ?_⟩
  · intro id d' hd'
    change (t.decisions.insert d.evidence.decisionId d).get id = some d' at hd'
    by_cases h : id = d.evidence.decisionId
    · subst h
      rw [IndexMap.get_insert_self] at hd'
      obtain rfl := Option.some.inj hd'
      exact ⟨rfl, htaken⟩
    · rw [IndexMap.get_insert_ne _ (Ne.symm h)] at hd'
      exact ht.inv.remembered id d' hd'
  · intro k hk
    have hne : (fresh k).uuid ≠ d.evidence.decisionId := fun h => hk (huuid k i (h.trans hid))
    exact ⟨IndexMap.get_insert_ne _ hne.symm _, rfl⟩
  · intro _ _ u hu
    exact ⟨hu.2.1.trans hget, hu.2.2.trans ht.2.2⟩

namespace GatewayTask

/-- What an answer is worth, then and later. -/
def Promised (env : StoreEnv E) (texts : Set String) (signers : Set BundleSigner)
    (fresh : ι → Fresh) (tasks : ι → GatewayTask) (i : ι) :
    (task : GatewayTask) → task.Answer E → GatewayWorld → Prop
  | .store task, a, w => task.Promised env texts signers a w.store
  | .check req, d, w => DecidedOnReleased env texts signers (fresh i) req d ∧
      w.decisions.get d.evidence.decisionId = some d ∧
        ((∀ n, env.fault n = none) →
          w.log.filter (LogWrite.ofId d.evidence.decisionId) = [.record (.fromDecision d 0)])
  | .explain id, d, _ => d.evidence.decisionId = id ∧ Taken env texts signers fresh tasks d
  | .boardMatrix, matrix, _ =>
      ∃ dsl, (dsl = "" ∨ dsl ∈ texts) ∧ matrix = buildMatrix ((parseDsl dsl).toOption.getD [])

/-- What is promised of a check, without its type. -/
theorem promised_of_check {req : AuthzRequest} (htask : tasks i = .check req)
    {a : (tasks i).Answer E} (h : (tasks i).Promised env texts signers fresh tasks i a w) :
    ∃ d, d.evidence.decisionId = (fresh i).uuid ∧ w.decisions.get (fresh i).uuid = some d ∧
      ((∀ n, env.fault n = none) →
        w.log.filter (LogWrite.ofId (fresh i).uuid) = [.record (.fromDecision d 0)]) := by
  generalize tasks i = task at htask a h
  subst htask
  obtain ⟨⟨rev, policies, set, label, -, -, -, hd⟩, hget, hlog⟩ := h
  have hid := evaluate_decisionId hd
  rw [hid] at hget hlog
  exact ⟨a, hid, hget, hlog⟩

/-- **A check is decided on a released revision, and stays explainable.** -/
theorem keeps_check (huuid : ∀ i j, (fresh i).uuid = (fresh j).uuid → i = j) {req : AuthzRequest}
    (htask : tasks i = .check req)
    (hw : (gatewayProtocol env texts signers fresh tasks).Inv w)
    (hunlogged : Unlogged (fresh i).uuid w) :
    KeepsGateway env texts signers fresh tasks i
      ((GatewayTask.check req).Promised env texts signers fresh tasks i)
      (Gateway.check env (fresh i) req) w := by
  have hset : KeepsGateway env texts signers fresh tasks i _
      ((InTurns.policySetFromDeployed env).within GatewayWorld.storePart (StoreHalt.refuse 503)) w :=
    keeps_within (StoreHalt.refuse 503)
      (InTurns.keeps_policySetFromDeployed (i := i) (w := w.store) hw.store) hunlogged
  refine hset.bind hw fun found w₁ h₁ hfound => ?_
  obtain ⟨⟨hreleased, hparsed⟩, hunlogged₁⟩ := hfound
  have hlabel : KeepsGateway env texts signers fresh tasks i
      (fun _ w' => Unlogged (fresh i).uuid w') (.done (revisionLabel found.2)) w₁ :=
    Proc.Keeps.done fun _ _ t ht => hunlogged₁.later ht
  refine hlabel.bind h₁.2 fun label w₂ h₂ hunlogged₂ => ?_
  have hevaluate : KeepsGateway env texts signers fresh tasks i
      (fun d w' => evaluate E (fresh i) req ⟨found.1, found.2.revision, label, .empty⟩ = .ok d ∧
        Unlogged (fresh i).uuid w')
      (.done (mapErr refuseEvaluation
        (evaluate E (fresh i) req ⟨found.1, found.2.revision, label, .empty⟩))) w₂ :=
    Proc.Keeps.done fun _ hd t ht => ⟨(mapErr_eq_ok _ _ _).1 hd, hunlogged₂.later ht⟩
  refine hevaluate.bind h₂.2 fun d w₃ h₃ hd => ?_
  obtain ⟨hd, hunlogged₃⟩ := hd
  have hid := evaluate_decisionId hd
  have hdecided : DecidedOnReleased env texts signers (fresh i) req d := by
    obtain ⟨-, policies, hvalid, hcedar⟩ := hreleased.1
    refine ⟨found.2, policies, found.1, label, hreleased, hvalid, ?_, hd⟩
    rw [cedarPolicySetFromDsl, ← hcedar, hparsed]
  have htaken : Taken env texts signers fresh tasks d := ⟨i, req, htask, hdecided⟩
  refine (keeps_logDecision huuid hid htaken h₃.2 hunlogged₃).bind h₃.2 fun _ w₄ h₄ hlogged => ?_
  refine (keeps_rememberDecision huuid hid htaken).bind h₄.2 fun _ w₅ h₅ hkept => ?_
  refine Proc.Keeps.pure fun t ht => ⟨hdecided, ?_, fun hnone => ?_⟩
  · rw [hid]
    exact ht.2.1.trans hkept.1
  · rw [hid]
    exact ht.2.2.trans (hkept.2.trans (hlogged hnone))

/-- An explanation is a decision that was taken. -/
theorem keeps_explain (id : String) :
    KeepsGateway env texts signers fresh tasks i
      ((GatewayTask.explain id).Promised env texts signers fresh tasks i) (Gateway.explain id) w := by
  refine Proc.Keeps.atom fun t ht => ?_
  have hidle : (gatewayProtocol env texts signers fresh tasks).Allows i t t :=
    ⟨.refl ht.inv, fun _ _ => ⟨rfl, rfl⟩⟩
  cases hget : t.decisions.get id with
  | none => exact ⟨hidle, fun a ha => by cases ha⟩
  | some d =>
      refine ⟨hidle, fun d' hd' _ _ => ?_⟩
      obtain rfl := Except.ok.inj hd'
      exact ht.inv.remembered id d hget

/-- The board request keeps the protocol of the gateway. -/
theorem keeps_boardMatrix (hw : (gatewayProtocol env texts signers fresh tasks).Inv w)
    (hunlogged : Unlogged (fresh i).uuid w) :
    KeepsGateway env texts signers fresh tasks i
      (GatewayTask.boardMatrix.Promised env texts signers fresh tasks i)
      (Gateway.boardMatrix env) w := by
  have hread : KeepsGateway env texts signers fresh tasks i _
      ((InTurns.readActiveDsl env).within GatewayWorld.storePart (StoreHalt.refuse 500)) w :=
    keeps_within (StoreHalt.refuse 500)
      (InTurns.keeps_readActiveDsl (i := i) (w := w.store) hw.store) hunlogged
  refine hread.bind hw fun dsl _ _ hdsl => ?_
  exact Proc.Keeps.pure fun _ _ => ⟨dsl, hdsl.1, rfl⟩

/-- Every task keeps the protocol. -/
theorem keeps (hjson : ∀ rev, env.fromJson (env.toJson rev) = .ok rev)
    (hbase64 : ∀ bs, env.crypto.base64Decode (env.crypto.base64Encode bs) = .ok bs)
    (huuid : ∀ i j, (fresh i).uuid = (fresh j).uuid → i = j)
    (hw : (gatewayProtocol env texts signers fresh tasks).Inv w)
    (hunlogged : Unlogged (fresh i).uuid w) (task : GatewayTask) (htask : tasks i = task)
    (hwrite : ∀ dsl, task = .store (.writeActiveDsl dsl) → dsl ∈ texts)
    (hsign : ∀ signer, task = .store (.signHead signer) →
      signer ∈ signers ∧ signer.Genuine env.crypto) :
    KeepsGateway env texts signers fresh tasks i
      (task.Promised env texts signers fresh tasks i) (task.proc env (fresh i)) w := by
  cases task with
  | store task =>
      have hkeeps := StoreTask.keeps (i := i) hjson hbase64 hw.store task
        (fun dsl h => hwrite dsl (congrArg _ h)) fun signer h => hsign signer (congrArg _ h)
      have hwithin : KeepsGateway env texts signers fresh tasks i _
          ((task.proc env).within GatewayWorld.storePart (StoreHalt.refuse 500)) w :=
        keeps_within (StoreHalt.refuse 500) hkeeps hunlogged
      exact hwithin.mono fun _ _ h => h.1
  | check req => exact keeps_check huuid htask hw hunlogged
  | explain id => exact keeps_explain id
  | boardMatrix => exact keeps_boardMatrix hw hunlogged

end GatewayTask

/-! ## Runs -/

/-- The texts of a seeded store and of the tasks that write one. -/
def gatewayTexts (seed : Option String) (tasks : ι → GatewayTask) : Set String :=
  {text | seed = some text ∨ ∃ i, tasks i = .store (.writeActiveDsl text)}

/-- The signers of the tasks. -/
def gatewaySigners (tasks : ι → GatewayTask) : Set BundleSigner :=
  {signer | ∃ i, tasks i = .store (.signHead signer)}

/-- The processes of the tasks, before any decision was taken. -/
def gatewayPool (env : StoreEnv E) (fresh : ι → Fresh) (seed : Option String) (start : Nat)
    (tasks : ι → GatewayTask) : Pool GatewayHalt GatewayWorld Empty fun i => (tasks i).Answer E :=
  ⟨fun i => (tasks i).proc env (fresh i),
    ⟨⟨fun | .active => seed | _ => none, start⟩, [], .empty⟩⟩

/-- The protocol is kept in every state of a run. -/
theorem gatewayPool_keeps [DecidableEq ι] {seed : Option String} {start : Nat} {turns : List ι}
    (hjson : ∀ rev, env.fromJson (env.toJson rev) = .ok rev)
    (hbase64 : ∀ bs, env.crypto.base64Decode (env.crypto.base64Encode bs) = .ok bs)
    (hgenuine : ∀ i signer, tasks i = .store (.signHead signer) → signer.Genuine env.crypto)
    (huuid : ∀ i j, (fresh i).uuid = (fresh j).uuid → i = j)
    {pool : Pool GatewayHalt GatewayWorld Empty fun i => (tasks i).Answer E}
    (hrun : runFrom Pool.step (gatewayPool env fresh seed start tasks) turns = some pool) :
    pool.Keeps
      (gatewayProtocol env (gatewayTexts seed tasks) (gatewaySigners tasks) fresh tasks)
      fun i => (tasks i).Promised env (gatewayTexts seed tasks) (gatewaySigners tasks) fresh tasks
        i := by
  have hsound : GatewaySound env (gatewayTexts seed tasks) (gatewaySigners tasks) fresh tasks
      (gatewayPool env fresh seed start tasks).state := by
    refine ⟨governed_seed fun text h => Or.inl h, fun id d h => ?_, fun r hr => ?_⟩
    · cases h
    · exact absurd hr List.not_mem_nil
  refine (Pool.keeps_run ⟨hsound, fun i => ?_⟩ hrun).1
  refine GatewayTask.keeps hjson hbase64 huuid hsound rfl (tasks i) rfl ?_ ?_
  · exact fun dsl h => Or.inr ⟨i, h⟩
  · exact fun signer h => ⟨⟨i, h⟩, hgenuine i signer h⟩

/-- **Every answer of the gateway holds up.** Whatever the interleaving of its requests with the
processes of the command line, with faults at any accesses: what it remembers and logs was decided
on released revisions, and every request that ends keeps its promise. -/
theorem gateway_interleaved [DecidableEq ι] (env : StoreEnv E) (fresh : ι → Fresh)
    (seed : Option String) (start : Nat) (tasks : ι → GatewayTask) (turns : List ι)
    (hjson : ∀ rev, env.fromJson (env.toJson rev) = .ok rev)
    (hbase64 : ∀ bs, env.crypto.base64Decode (env.crypto.base64Encode bs) = .ok bs)
    (hgenuine : ∀ i signer, tasks i = .store (.signHead signer) → signer.Genuine env.crypto)
    (huuid : ∀ i j, (fresh i).uuid = (fresh j).uuid → i = j)
    {pool : Pool GatewayHalt GatewayWorld Empty fun i => (tasks i).Answer E}
    (hrun : runFrom Pool.step (gatewayPool env fresh seed start tasks) turns = some pool) :
    GatewaySound env (gatewayTexts seed tasks) (gatewaySigners tasks) fresh tasks pool.state ∧
      ∀ i a, (pool.procs i).answer? = some a →
        (tasks i).Promised env (gatewayTexts seed tasks) (gatewaySigners tasks) fresh tasks i a
          pool.state := by
  have hkeeps := gatewayPool_keeps hjson hbase64 hgenuine huuid hrun
  exact ⟨hkeeps.inv, fun i a h => hkeeps.answer h⟩

/-- **What the audit log shows.** In any interleaving a reader of the log gets only records of
decisions that were taken. Without faults it finds the decision of a check that answered exactly
when no other process wrote on the line of its record. -/
theorem audit_log_interleaved [DecidableEq ι] (env : StoreEnv E) (fresh : ι → Fresh)
    (seed : Option String) (start : Nat) (tasks : ι → GatewayTask) (turns : List ι)
    (hjson : ∀ rev, env.fromJson (env.toJson rev) = .ok rev)
    (hbase64 : ∀ bs, env.crypto.base64Decode (env.crypto.base64Encode bs) = .ok bs)
    (hgenuine : ∀ i signer, tasks i = .store (.signHead signer) → signer.Genuine env.crypto)
    (huuid : ∀ i j, (fresh i).uuid = (fresh j).uuid → i = j)
    {pool : Pool GatewayHalt GatewayWorld Empty fun i => (tasks i).Answer E}
    (hrun : runFrom Pool.step (gatewayPool env fresh seed start tasks) turns = some pool) :
    (∀ r ∈ readAuditRecords (writtenLog pool.state.log), ∃ d, r = .fromDecision d 0 ∧
      Taken env (gatewayTexts seed tasks) (gatewaySigners tasks) fresh tasks d) ∧
    ∀ i req, tasks i = .check req → (pool.procs i).answer?.isSome = true →
      (∀ n, env.fault n = none) →
      ∃ d, pool.state.decisions.get (fresh i).uuid = some d ∧
        findDecision (writtenLog pool.state.log) (fresh i).uuid =
          if [.fromDecision d 0] ∈ auditLines pool.state.log then some d else none := by
  have hkeeps := gatewayPool_keeps hjson hbase64 hgenuine huuid hrun
  have hsound : GatewaySound env (gatewayTexts seed tasks) (gatewaySigners tasks) fresh tasks
      pool.state := hkeeps.inv
  refine ⟨fun r hr => hsound.logged r (mem_readAuditRecords hr), fun i req htask hi hnone => ?_⟩
  obtain ⟨a, ha⟩ := Option.isSome_iff_exists.1 hi
  obtain ⟨d, hid, hget, hlog⟩ := GatewayTask.promised_of_check htask (hkeeps.answer ha)
  exact ⟨d, hget, findDecision_writtenLog (hlog hnone)⟩

/-- **The gateway decides by what was released.** Every decision it remembers, in any interleaving,
evaluates a request by the policies of a text that was written and validated, in a revision that one
of the signers signed. Where the request sets no built-in attribute and no name needs an escape, it
is allowed exactly when those policies grant its facts. -/
theorem gateway_follows_text [DecidableEq ι] (hE : E.Lawful) (env : StoreEnv E)
    (fresh : ι → Fresh) (seed : Option String) (start : Nat) (tasks : ι → GatewayTask)
    (turns : List ι) (hjson : ∀ rev, env.fromJson (env.toJson rev) = .ok rev)
    (hbase64 : ∀ bs, env.crypto.base64Decode (env.crypto.base64Encode bs) = .ok bs)
    (hgenuine : ∀ i signer, tasks i = .store (.signHead signer) → signer.Genuine env.crypto)
    (huuid : ∀ i j, (fresh i).uuid = (fresh j).uuid → i = j)
    {pool : Pool GatewayHalt GatewayWorld Empty fun i => (tasks i).Answer E}
    (hrun : runFrom Pool.step (gatewayPool env fresh seed start tasks) turns = some pool)
    {id : String} {d : AuthzDecision} (hd : pool.state.decisions.get id = some d) :
    ∃ i req rev policies set label, tasks i = .check req ∧ d.evidence.request = req ∧
      PolicyRevision.Released env (gatewayTexts seed tasks) (gatewaySigners tasks) rev ∧
      validateDsl E rev.dsl = .ok policies ∧ cedarPolicySetFromDsl E policies = .ok set ∧
      evaluate E (fresh i) req ⟨set, rev.revision, label, .empty⟩ = .ok d ∧
      (AvoidsBuiltins req → Cedar.isPlain req.action.name = true →
        Cedar.isPlain req.resource.kind = true → policies.all DslPolicy.plainNames = true →
          (d.effect = .allow ↔ Grants policies (Facts.of req))) := by
  have hsound : GatewaySound env (gatewayTexts seed tasks) (gatewaySigners tasks) fresh tasks
      pool.state := (gatewayPool_keeps hjson hbase64 hgenuine huuid hrun).inv
  obtain ⟨-, i, req, htask, rev, policies, set, label, hreleased, hvalid, hset, hd⟩ :=
    hsound.remembered id d hd
  refine ⟨i, req, rev, policies, set, label, htask, evaluate_request hd, hreleased, hvalid, hset,
    hd, fun havoid haction hkind hplain => ?_⟩
  exact evaluate_compiled hE hplain (cedarPolicySetFromDsl_ok hset) havoid haction hkind hd

end

/-! ## A deployment while requests come in -/

namespace KnownGateway

def request : AuthzRequest :=
  { principal := ⟨"user:ada", [], [], .empty⟩
    action := ⟨"READ"⟩
    resource := ⟨"GENERAL_CHAT", none, .empty⟩
    subject := none
    context := ⟨.empty⟩
    relationships := []
    actingAs := none
    onBehalfOf := none }

def fresh (i : Fin 5) : Fresh := ⟨toString i.val, "2023-11-14T22:13:20+00:00"⟩

def tasks : Fin 5 → GatewayTask
  | 0 => .store (.commit "first")
  | 1 => .store (.signHead KnownRevision.signer)
  | 2 => .store .deployHead
  | 3 => .check request
  | 4 => .explain "3"

/-- The revision goes live, and the check is explained. -/
def turns : List (Fin 5) := [0, 0, 0, 0, 0, 0, 1, 1, 1, 1, 1, 2, 2, 2, 2, 3, 3, 3, 3, 3, 4]

/-- The check was allowed, and the explanation agrees with it and with the memory. -/
def answered (w : GatewayWorld) (checked explained : Option AuthzDecision) : Bool :=
  checked.any fun d =>
    decide (explained = some d ∧ w.decisions.get "3" = some d ∧ d.effect = .allow)

theorem exists_of_answered {w : GatewayWorld} {checked explained : Option AuthzDecision}
    (h : answered w checked explained = true) : ∃ d, checked = some d ∧ explained = some d ∧
      w.decisions.get "3" = some d ∧ d.effect = .allow := by
  obtain ⟨d, hd, h⟩ := (Option.any_eq_true _ _).1 h
  exact ⟨d, hd, of_decide_eq_true h⟩

/-- Where the turns end, with what is answered there. -/
def ranTurns : { pool : Option (Pool GatewayHalt GatewayWorld Empty fun i =>
    (tasks i).Answer Cedar.Engine.reference) //
      pool = runFrom Pool.step
        (gatewayPool KnownStore.env fresh (some KnownRevision.dsl) 0 tasks) turns ∧
      (pool.any fun pool =>
        answered pool.state (pool.procs 3).answer? (pool.procs 4).answer?) = true } :=
  ⟨runFrom Pool.step (gatewayPool KnownStore.env fresh (some KnownRevision.dsl) 0 tasks) turns,
    rfl, by
    rw [KnownStore.env_written]
    decide +kernel⟩

/-- The check is allowed by the revision that just went live, and explained. -/
theorem live : ∃ pool d,
    runFrom Pool.step (gatewayPool KnownStore.env fresh (some KnownRevision.dsl) 0 tasks) turns =
        some pool ∧
      (pool.procs 3).answer? = some d ∧ (pool.procs 4).answer? = some d ∧
      pool.state.decisions.get "3" = some d ∧ d.effect = .allow := by
  obtain ⟨hrun, hany⟩ := ranTurns.2
  rw [hrun] at hany
  obtain ⟨pool, hpool, hanswers⟩ := (Option.any_eq_true _ _).1 hany
  obtain ⟨d, hd⟩ := exists_of_answered hanswers
  exact ⟨pool, d, hpool, hd⟩

theorem genuine (i : Fin 5) (signer : BundleSigner) (h : tasks i = .store (.signHead signer)) :
    signer.Genuine KnownStore.env.crypto := by
  fin_cases i
  · cases h
  · obtain rfl := StoreTask.signHead.inj (GatewayTask.store.inj h)
    exact KnownRevision.genuine
  · cases h
  · cases h
  · cases h

theorem uuid_injective : ∀ i j, (fresh i).uuid = (fresh j).uuid → i = j := by decide +kernel

end KnownGateway

/-- A run in which a signed revision decides a check that is explained later. -/
theorem gateway_interleaved_live : ∃ pool d,
    runFrom Pool.step (gatewayPool KnownStore.env KnownGateway.fresh (some KnownRevision.dsl) 0
        KnownGateway.tasks) KnownGateway.turns = some pool ∧
      (pool.procs 4).answer? = some d ∧
      GatewaySound KnownStore.env (gatewayTexts (some KnownRevision.dsl) KnownGateway.tasks)
        (gatewaySigners KnownGateway.tasks) KnownGateway.fresh KnownGateway.tasks pool.state ∧
      (GatewayTask.check KnownGateway.request).Promised KnownStore.env
        (gatewayTexts (some KnownRevision.dsl) KnownGateway.tasks)
        (gatewaySigners KnownGateway.tasks) KnownGateway.fresh KnownGateway.tasks 3 d
        pool.state := by
  obtain ⟨pool, d, hpool, hd, hexplained, -⟩ := KnownGateway.live
  obtain ⟨hsound, hpromised⟩ := gateway_interleaved KnownStore.env KnownGateway.fresh
    (some KnownRevision.dsl) 0 KnownGateway.tasks KnownGateway.turns KnownStore.fromJson_toJson
    KnownRevision.base64 KnownGateway.genuine KnownGateway.uuid_injective hpool
  exact ⟨pool, d, hpool, hexplained, hsound, hpromised 3 d hd⟩

/-- The run leaves one record of the decision in the log. -/
theorem audit_log_interleaved_live : ∃ pool d,
    runFrom Pool.step (gatewayPool KnownStore.env KnownGateway.fresh (some KnownRevision.dsl) 0
        KnownGateway.tasks) KnownGateway.turns = some pool ∧
      pool.state.decisions.get "3" = some d ∧
      findDecision (writtenLog pool.state.log) "3" =
        if [.fromDecision d 0] ∈ auditLines pool.state.log then some d else none := by
  obtain ⟨pool, d, hpool, hd, -⟩ := KnownGateway.live
  obtain ⟨-, hfound⟩ := audit_log_interleaved KnownStore.env KnownGateway.fresh
    (some KnownRevision.dsl) 0 KnownGateway.tasks KnownGateway.turns KnownStore.fromJson_toJson
    KnownRevision.base64 KnownGateway.genuine KnownGateway.uuid_injective hpool
  have hanswered : (pool.procs 3).answer?.isSome = true := by rw [hd]; rfl
  obtain ⟨d', hd', hfound⟩ := hfound 3 KnownGateway.request rfl hanswered fun _ => rfl
  exact ⟨pool, d', hpool, hd', hfound⟩

/-- The remembered check rests on the revision that went live, and follows its text. -/
theorem gateway_follows_text_live : ∃ pool d,
    runFrom Pool.step (gatewayPool KnownStore.env KnownGateway.fresh (some KnownRevision.dsl) 0
        KnownGateway.tasks) KnownGateway.turns = some pool ∧
      pool.state.decisions.get "3" = some d ∧ d.effect = .allow ∧
      ∃ rev policies, PolicyRevision.Released KnownStore.env
          (gatewayTexts (some KnownRevision.dsl) KnownGateway.tasks)
          (gatewaySigners KnownGateway.tasks) rev ∧
        validateDsl Engine.reference rev.dsl = .ok policies ∧
        (policies.all DslPolicy.plainNames = true →
          (d.effect = .allow ↔ Grants policies (Facts.of KnownGateway.request))) := by
  obtain ⟨pool, d, hpool, -, -, hd, hallow⟩ := KnownGateway.live
  obtain ⟨i, req, rev, policies, set, label, htask, -, hreleased, hvalid, -, -, hgrants⟩ :=
    gateway_follows_text Cedar.Engine.reference_lawful KnownStore.env KnownGateway.fresh
      (some KnownRevision.dsl) 0 KnownGateway.tasks KnownGateway.turns KnownStore.fromJson_toJson
      KnownRevision.base64 KnownGateway.genuine KnownGateway.uuid_injective hpool hd
  obtain rfl : req = KnownGateway.request := by
    fin_cases i
    · cases htask
    · cases htask
    · cases htask
    · exact (GatewayTask.check.inj htask).symm
    · cases htask
  exact ⟨pool, d, hpool, hd, hallow, rev, policies, hreleased, hvalid,
    hgrants (fun k hk => absurd hk List.not_mem_nil) (by decide) (by decide)⟩

end Paac
