import Paac.Library.Log
import Paac.Proxy.SignedOnly

set_option autoImplicit false

/-!
# The audit trail

The engine puts a record of each decision into the queue of the audit store. What counts in the end
is that every decision a client is told of, or that a tool call hangs on, is on record once. It is
when the engine makes it; the endpoints that evaluate on their own leave no record.

Decisions and records are events of a log, and that the decisions made are the ones recorded, in the
same order, is a property of logs that composes (`Library/Log.lean`): it is checked for the engine
and then holds of every handler that makes its decisions there. A run is any number of calls, each
with its own readings of the surroundings, whose logs interleave in any way; since records are
counted, the order of the whole does not matter.

## Main results

- `check_recorded`: a check of the engine records its decision.
- `run_recorded`: an endpoint that asks the engine records its decisions, in order.
- `run_unrecorded`: the two others record nothing, whatever they decide.
- `audit_complete_iff`: in a run of any calls, however their logs interleave, every decision that
  surfaces is recorded exactly when no call that evaluates on its own gets as far as a decision.
- `a2a_off_record`: the answer to an agent is not on record.
-/

namespace Paac

open Cedar (Engine)

/-! ## Decisions and records -/

/-- The decision in an audit record. -/
def Event.record : Event → Option AuthzDecision
  | .audited d _ _ => some d
  | _ => none

/-- The decisions made in a log. -/
def decisionsIn (log : List Event) : List AuthzDecision := log.filterMap Event.decision

/-- The decisions on record in a log. -/
def recordsIn (log : List Event) : List AuthzDecision := log.filterMap Event.record

/-- The decisions made are the ones recorded, in the same order. -/
def Recorded (log : List Event) : Prop := recordsIn log = decisionsIn log

theorem composes_recorded : Composes Recorded where
  nil := rfl
  append := by
    intro es es' h h'
    show recordsIn (es ++ es') = decisionsIn (es ++ es')
    rw [recordsIn, decisionsIn, List.filterMap_append, List.filterMap_append]
    exact congrArg₂ (· ++ ·) h h'

/-- Nothing is recorded. -/
def Unrecorded (log : List Event) : Prop := recordsIn log = []

theorem composes_unrecorded : Composes Unrecorded where
  nil := rfl
  append := by
    intro es es' h h'
    show recordsIn (es ++ es') = []
    rw [recordsIn, List.filterMap_append]
    exact List.append_eq_nil_iff.2 ⟨h, h'⟩

section

variable {E : Engine} {env : ProxyEnv E} {st : AppState}

/-- With a store, a check records its decision. -/
theorem check_recorded (hstore : st.engine.hasStore = true) (req : AuthzRequest) :
    (st.engine.check env req).Logs Recorded := by
  intro w
  cases h : st.engine.decide (env.bundle w.tick) (env.fresh w.tick) req with
  | error err =>
      rw [check_error h]
      exact composes_recorded.nil
  | ok d =>
      rw [check_ok h, AuthzEngine.auditEvents, if_pos hstore]
      rfl

/-- **The endpoints that ask the engine record every decision**, once and in order. -/
theorem run_recorded (hstore : st.engine.hasStore = true) {call : Call}
    (h : call.asksEngine = true) : (call.run env st).Logs Recorded :=
  Call.logs_run composes_recorded (check_recorded hstore) (fun _ => rfl) (fun _ _ _ => rfl) h

/-- A call that evaluates on its own records nothing. -/
theorem run_unrecorded {call : Call} {headers : HeaderMap} {request : Principal → AuthzRequest}
    (h : call.bare st = some (headers, request)) : (call.run env st).Logs Unrecorded := by
  have hP := composes_unrecorded
  have hevaluate : ∀ req, (evaluateOnCache env req).Logs Unrecorded := by
    intro req w
    show recordsIn (evaluateOnCache env req w).events = []
    simp only [evaluateOnCache]
    split
    · rfl
    · rfl
  have hexecute : ∀ call, (executeCall env call).Logs Unrecorded := fun _ _ => rfl
  -- the other calls go through the engine, which records
  cases call with
  | check req => cases h
  | chat headers' body => cases h
  | retrieve headers' body => cases h
  | mcp headers' params =>
      apply Eff.logs_bind hP ?_ fun _ => Eff.logs_pure hP _
      apply Eff.logs_bind hP fun _ => hP.nil
      intro principal
      apply Eff.logs_bind hP (hevaluate _)
      intro d
      split
      · -- an id, the executed call and the answer
        apply Eff.logs_bind hP fun _ => hP.nil
        intro id
        apply Eff.logs_bind hP (hexecute _)
        intro data
        exact Eff.logs_bind hP (Eff.logs_lift hP _) fun _ => Eff.logs_pure hP _
      · exact Eff.logs_fail hP _
  | a2a headers' msg =>
      apply Eff.logs_bind hP ?_ fun _ => Eff.logs_pure hP _
      apply Eff.logs_bind hP fun _ => hP.nil
      intro principal
      exact Eff.logs_bind hP (hevaluate _) fun _ => Eff.logs_pure hP _

/-! ## What a client is told -/

/-- The id of the decision that an error names. -/
def namedInError : Halt ProxyError → List String
  | .error (.forbidden _ id _) => [id]
  | _ => []

/-- The ids of decisions in the answer to a call. -/
def Call.answeredIds (env : ProxyEnv E) (st : AppState) (w : World) : Call → List String
  | .check req =>
      match (checkRoute env st req w).result with
      | .ok d => [d.evidence.decisionId]
      | .error e => namedInError e
  | .chat headers body =>
      match (chatCompletions env st headers body w).result with
      | .ok _ => []
      | .error e => namedInError e
  | .retrieve headers body =>
      match (Paac.retrieve env st headers body w).result with
      | .ok _ => []
      | .error e => namedInError e
  | .mcp headers params =>
      match (mcpToolsCall env st headers params w).result with
      | .ok answer => ((answer.get "decision_id").bind Json.asStr).toList
      | .error e => namedInError e
  | .a2a headers msg =>
      match (a2aAuthorize env st headers msg w).result with
      | .ok answer => [answer.decision.evidence.decisionId]
      | .error e => namedInError e

/-- The decisions on tool calls: those of a chat after it has sent the body, and those of an MCP
call. -/
def Call.toolDecisions (log : List Event) : Call → List AuthzDecision
  | .chat _ _ => decisionsIn (log.dropWhile fun e => !e.isSend)
  | .mcp _ _ => decisionsIn log
  | _ => []

/-- What a call emits. -/
def Running.log (st : AppState) (rc : Running E) : List Event :=
  (rc.call.run rc.env st rc.world).events

/-- The call makes the decision, and tells its id or lets a tool call hang on it. -/
def Running.Surfaces (st : AppState) (rc : Running E) (d : AuthzDecision) : Prop :=
  d ∈ decisionsIn (rc.log st) ∧
    (d.evidence.decisionId ∈ rc.call.answeredIds rc.env st rc.world ∨
      d ∈ rc.call.toolDecisions (rc.log st))

/-- Every decision that surfaces in one of the calls is recorded as often as it is made. -/
def AuditComplete (st : AppState) (calls : List (Running E)) (log : List Event) : Prop :=
  ∀ rc ∈ calls, ∀ d, rc.Surfaces st d → (recordsIn log).count d = (decisionsIn log).count d

/-- A decision made once is recorded once. -/
theorem AuditComplete.once {calls : List (Running E)} {log : List Event}
    (h : AuditComplete st calls log) (hnodup : (decisionsIn log).Nodup) {rc : Running E}
    (hrc : rc ∈ calls) {d : AuthzDecision} (hd : rc.Surfaces st d) (hlog : d ∈ decisionsIn log) :
    (recordsIn log).count d = 1 :=
  (h rc hrc d hd).trans (List.count_eq_one_of_mem hnodup hlog)

theorem mem_decisionsIn {log : List Event} {d : AuthzDecision} :
    d ∈ decisionsIn log ↔ ∃ e ∈ log, e.decision = some d := List.mem_filterMap

/-- What the hook for agents answers. -/
theorem a2aAuthorize_decides {headers : HeaderMap} {msg : A2aMessage} {w : World} {p : Principal}
    {d : AuthzDecision} (hp : (resolve env st headers w).result = .ok p)
    (hd : evaluate E (env.fresh (w.tick + 1)) (a2aRequest p msg)
      (env.bundle (w.tick + 1)).toEvaluatorConfig = .ok d) :
    (a2aAuthorize env st headers msg w).result = .ok ⟨d.effect = .allow, d⟩ := by
  have hcache : (evaluateOnCache env (a2aRequest p msg) (resolve env st headers w).state).result =
      .ok d := congrArg (mapErr _) hd
  unfold a2aAuthorize
  rw [Eff.bind_ok hp, Eff.after, Eff.bind_ok hcache]
  rfl

/-- What a call decides that evaluates on its own surfaces. -/
theorem bare_surfaces {rc : Running E} {headers : HeaderMap} {request : Principal → AuthzRequest}
    (h : rc.call.bare st = some (headers, request)) {p : Principal} {d : AuthzDecision}
    (hp : (resolve rc.env st headers rc.world).result = .ok p)
    (hd : evaluate E (rc.env.fresh (rc.world.tick + 1)) (request p)
      (rc.env.bundle (rc.world.tick + 1)).toEvaluatorConfig = .ok d) : rc.Surfaces st d := by
  have hmade : d ∈ decisionsIn (rc.log st) :=
    mem_decisionsIn.2 ((bare_decides h).2 ⟨p, hp, hd⟩)
  refine ⟨hmade, ?_⟩
  rcases rc with ⟨call, env, w⟩
  cases call with
  | check req => cases h
  | chat headers' body => cases h
  | retrieve headers' body => cases h
  | mcp headers' params => exact Or.inr hmade
  | a2a headers' msg =>
      obtain ⟨rfl, rfl⟩ := Prod.mk.inj (Option.some.inj h)
      refine Or.inl ?_
      show d.evidence.decisionId ∈ Call.answeredIds env st w (.a2a headers' msg)
      rw [Call.answeredIds, a2aAuthorize_decides hp hd]
      exact List.mem_singleton_self _

/-! ## Whole runs -/

/-- How often a decision occurs in a log does not depend on how the logs interleave. -/
theorem count_run (f : Event → Option AuthzDecision) {calls : List (Running E)} {log : List Event}
    (hlog : log.Perm (calls.flatMap (Running.log st))) (d : AuthzDecision) :
    (log.filterMap f).count d = (calls.map fun rc => ((rc.log st).filterMap f).count d).sum := by
  rw [(hlog.filterMap f).count_eq, List.filterMap_flatMap, List.count_flatMap]
  rfl

/-- A call records no decision more often than it makes it. -/
theorem count_records_le (hstore : st.engine.hasStore = true) (rc : Running E) (d : AuthzDecision) :
    (recordsIn (rc.log st)).count d ≤ (decisionsIn (rc.log st)).count d := by
  cases hasks : rc.call.asksEngine with
  | true => exact (congrArg (List.count d) (run_recorded hstore hasks rc.world)).le
  | false =>
      obtain ⟨headers, request, hbare⟩ := @bare_of_not_asksEngine st _ hasks
      have hnone : recordsIn (rc.log st) = [] := run_unrecorded hbare rc.world
      rw [hnone, List.count_nil]
      exact Nat.zero_le _

variable {calls : List (Running E)} {log : List Event}

/-- A decision of a call that evaluates on its own is missing from the records. -/
theorem not_auditComplete_of_bare (hstore : st.engine.hasStore = true)
    (hlog : log.Perm (calls.flatMap (Running.log st))) {rc : Running E} (hrc : rc ∈ calls)
    {headers : HeaderMap} {request : Principal → AuthzRequest}
    (h : rc.call.bare st = some (headers, request)) {p : Principal} {d : AuthzDecision}
    (hp : (resolve rc.env st headers rc.world).result = .ok p)
    (hd : evaluate E (rc.env.fresh (rc.world.tick + 1)) (request p)
      (rc.env.bundle (rc.world.tick + 1)).toEvaluatorConfig = .ok d) :
    ¬AuditComplete st calls log := by
  have hsurfaces := bare_surfaces h hp hd
  -- this call makes the decision and records nothing, and no other call makes up for it
  have hless : (recordsIn log).count d < (decisionsIn log).count d := by
    rw [recordsIn, decisionsIn, count_run _ hlog, count_run _ hlog]
    refine List.sum_lt_sum _ _ (fun rc _ => count_records_le hstore rc d) ⟨rc, hrc, ?_⟩
    have hnone : recordsIn (rc.log st) = [] := run_unrecorded h rc.world
    rw [← recordsIn, hnone, List.count_nil]
    exact List.count_pos_iff.2 hsurfaces.1
  intro hcomplete
  exact hless.ne (hcomplete rc hrc d hsurfaces)

end

/-- **Which runs are audited.** With a store, every decision that surfaces in a run is recorded
exactly when no call that evaluates on its own gets as far as a decision. -/
theorem audit_complete_iff {E : Engine} (st : AppState) (calls : List (Running E))
    (log : List Event) (hstore : st.engine.hasStore = true)
    (hlog : log.Perm (calls.flatMap (Running.log st))) :
    AuditComplete st calls log ↔
      ∀ rc ∈ calls, ∀ headers request, rc.call.bare st = some (headers, request) →
        ∀ p, (resolve rc.env st headers rc.world).result = .ok p →
          ∀ d, evaluate E (rc.env.fresh (rc.world.tick + 1)) (request p)
            (rc.env.bundle (rc.world.tick + 1)).toEvaluatorConfig ≠ .ok d := by
  constructor
  · intro hcomplete rc hrc headers request hbare p hp d hd
    exact not_auditComplete_of_bare hstore hlog hrc hbare hp hd hcomplete
  · intro hundecided _ _ d _
    rw [recordsIn, decisionsIn, count_run _ hlog, count_run _ hlog]
    refine congrArg List.sum (List.map_congr_left fun rc hrc => ?_)
    cases hasks : rc.call.asksEngine with
    | true => exact congrArg (List.count d) (run_recorded hstore hasks rc.world)
    | false =>
        obtain ⟨headers, request, hbare⟩ := @bare_of_not_asksEngine st _ hasks
        have hrecords : recordsIn (rc.log st) = [] := run_unrecorded hbare rc.world
        -- a bare call records nothing, so it must decide nothing
        have hdecisions : decisionsIn (rc.log st) = [] := by
          refine List.eq_nil_iff_forall_not_mem.2 fun d' hd' => ?_
          obtain ⟨p, hp, hd⟩ := (bare_decides hbare).1 (mem_decisionsIn.1 hd')
          exact hundecided rc hrc headers request hbare p hp d' hd
        rw [← recordsIn, ← decisionsIn, hrecords, hdecisions]

/-! ## A decision off the record -/

namespace AuditedChat

/-- The proxy for general chat, with a store. -/
def state : AppState :=
  { GeneralChat.state with engine := { GeneralChat.state.engine with hasStore := true } }

/-- Somebody has a request checked. -/
def checkCall : Running Cedar.Engine.reference :=
  ⟨.check (a2aRequest GeneralChat.bob ⟨"planner", "mailer", "send", []⟩),
    GeneralChat.env GeneralChat.emptyReply, GeneralChat.world⟩

/-- Bob chats. -/
def chatCall : Running Cedar.Engine.reference :=
  ⟨.chat GeneralChat.headers (GeneralChat.chat [GeneralChat.said (.str "hi")]),
    GeneralChat.env GeneralChat.emptyReply, GeneralChat.world⟩

/-- Bob retrieves documents. -/
def retrieveCall : Running Cedar.Engine.reference :=
  ⟨.retrieve GeneralChat.headers ⟨"handbook", none, some "leave", none⟩,
    GeneralChat.env GeneralChat.emptyReply, GeneralChat.world⟩

/-- Bob asks whether one agent may write to another. -/
def a2aCall : Running Cedar.Engine.reference :=
  ⟨.a2a GeneralChat.headers ⟨"planner", "mailer", "send", []⟩,
    GeneralChat.env GeneralChat.emptyReply, GeneralChat.world⟩

/-- Somebody without an identity asks the same. -/
def strangerCall : Running Cedar.Engine.reference :=
  ⟨.a2a [] ⟨"planner", "mailer", "send", []⟩, GeneralChat.env GeneralChat.emptyReply,
    GeneralChat.world⟩

/-- A stranger is turned away before a decision. -/
theorem resolve_stranger (p : Principal) :
    (resolve (GeneralChat.env GeneralChat.emptyReply) state [] GeneralChat.world).result ≠ .ok p := by
  have hnone : bearerToken [] = none := by decide
  have hheader : ∃ e, headerPrincipal [] state.cfg = .error e := ⟨_, rfl⟩
  obtain ⟨e, he⟩ := hheader
  intro h
  simp only [resolve, resolvePrincipal, hnone, he] at h
  cases h

/-- Calls of four endpoints. -/
def calls : List (Running Cedar.Engine.reference) :=
  [checkCall, chatCall, retrieveCall, strangerCall]

end AuditedChat

/-- A check, a chat and a retrieval are on record, in whichever order they come, next to a stranger
who is turned away. -/
theorem audit_complete_check :
    AuditComplete AuditedChat.state AuditedChat.calls
      (AuditedChat.calls.reverse.flatMap (Running.log AuditedChat.state)) := by
  refine (audit_complete_iff AuditedChat.state AuditedChat.calls _ rfl ?_).2 ?_
  · exact (List.reverse_perm AuditedChat.calls).flatMap_right _
  · intro rc hrc headers request hbare p hp
    -- only the stranger evaluates on its own
    simp only [AuditedChat.calls, List.mem_cons, List.not_mem_nil, or_false] at hrc
    rcases hrc with rfl | rfl | rfl | rfl
    · cases hbare
    · cases hbare
    · cases hbare
    · obtain ⟨rfl, -⟩ := Prod.mk.inj (Option.some.inj hbare)
      exact absurd hp (AuditedChat.resolve_stranger p)

/-- The answer to the agents is not. -/
theorem a2a_off_record :
    ¬AuditComplete AuditedChat.state [AuditedChat.checkCall, AuditedChat.a2aCall]
      (AuditedChat.checkCall.log AuditedChat.state ++
        AuditedChat.a2aCall.log AuditedChat.state) := by
  obtain ⟨d, hd⟩ := @evaluate_reference
    (a2aRequest GeneralChat.bob ⟨"planner", "mailer", "send", []⟩)
    (by decide +kernel) (by decide +kernel) ⟨"u", "t"⟩ GeneralChat.bundle.toEvaluatorConfig
  refine not_auditComplete_of_bare rfl ?_ (List.mem_cons_of_mem _ List.mem_cons_self)
    (rfl : AuditedChat.a2aCall.call.bare AuditedChat.state = some (_, _))
    (GeneralChat.resolve_bob GeneralChat.emptyReply) hd
  rw [List.flatMap_cons, List.flatMap_singleton]

end Paac
