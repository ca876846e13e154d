import Paac.Proxy.ToolGate

set_option autoImplicit false

/-!
# Tool calls in turn

The filter takes the tool calls of a reply one after the other, choice after choice. At its turn a
call is checked, executed when tools are to be executed and it is allowed, and kept or dropped; the
first check that fails ends the filter. A turn is a call with the reading at which its check begins,
and a handler follows a list of calls when it does what their turns say.

`Follows` is one statement about the answer, the state and the events of a handler, so a result
about the filter needs no look at its loops: the log is `turnLog`, the calls that are kept are
`allowedCalls`, and whether the filter succeeds is `AllDecided`.

## Main results

- `turnLog_append`, `turnLog_eq`, `turnLog_of_not_decided`: the events of turns, up to the first
  check that fails.
- `exists_first_failure`: calls that are not all decided have a first one that is not.
- `Follows.bind`: handlers in sequence follow their calls in sequence.
- `filterToolCall_follows`, `filterEach_follows`, `filterChoice_follows`, `filterReply_follows`: the
  filter follows the calls of a reply, from one call to all of them.
-/

namespace Paac

open Cedar (Engine)

/-- A call, and the reading of the surroundings at which its check begins. -/
structure Turn where
  call : Json
  tick : Nat

section

variable {E : Engine} (env : ProxyEnv E) (st : AppState) (principal : Principal)

namespace Turn

variable (t : Turn)

/-- The request that the call is checked with. -/
def request : AuthzRequest :=
  st.engine.catalog.authzForTool principal (toolCallName t.call) (toolCallArgs env.readJson t.call)

def decision : Except (Halt ProxyError) AuthzDecision :=
  st.engine.decide (env.bundle t.tick) (env.fresh t.tick) (t.request env st principal)

/-- The check comes to a decision. -/
def Decided : Prop := ∃ d, t.decision env st principal = .ok d

def allowed : Bool :=
  match t.decision env st principal with
  | .ok d => d.effect = .allow
  | .error _ => false

/-- The call is handed to the connector. -/
def executes : Bool := st.cfg.connectors.executeTools && t.allowed env st principal

/-- The reading after the turn: the check reads once, and an execution once more. -/
def next : Nat := t.tick + 1 + if t.executes env st principal then 1 else 0

/-- What the turn emits. -/
def events : List Event :=
  match t.decision env st principal with
  | .ok d =>
      st.engine.auditEvents d (env.latencyMs t.tick) (env.bundle t.tick).signatureKeyId ++
        [.checked (t.request env st principal) d] ++
        if t.executes env st principal then [.executed (connectorCall env.readJson t.call)] else []
  | .error _ => []

end Turn

/-- The turns of the calls, from a reading on. -/
def turns : List Json → Nat → List Turn
  | [], _ => []
  | tc :: tcs, n => ⟨tc, n⟩ :: turns tcs (Turn.next env st principal ⟨tc, n⟩)

/-- The reading after all turns. -/
def endTick : List Json → Nat → Nat
  | [], n => n
  | tc :: tcs, n => endTick tcs (Turn.next env st principal ⟨tc, n⟩)

/-- Every check comes to a decision. -/
def AllDecided (ts : List Turn) : Prop := ∀ t ∈ ts, t.Decided env st principal

/-- The calls that are allowed, in order. -/
def allowedCalls (ts : List Turn) : List Json :=
  (ts.filter (Turn.allowed env st principal)).map Turn.call

/-- What the turns emit, up to the first check that fails. -/
def turnLog : List Turn → List Event
  | [] => []
  | t :: ts =>
      t.events env st principal ++
        match t.decision env st principal with
        | .ok _ => turnLog ts
        | .error _ => []

variable {env st principal}

/-! ## Turns -/

theorem Turn.allowed_iff {t : Turn} {d : AuthzDecision} (h : t.decision env st principal = .ok d) :
    t.allowed env st principal = true ↔ d.effect = .allow := by
  rw [Turn.allowed, h]
  exact decide_eq_true_iff

theorem Turn.decided_of_allowed {t : Turn} (h : t.allowed env st principal = true) :
    t.Decided env st principal := by
  cases hd : t.decision env st principal with
  | ok d => exact ⟨d, hd⟩
  | error e =>
      rw [Turn.allowed, hd] at h
      cases h

theorem Turn.events_of_not_decided {t : Turn} (h : ¬t.Decided env st principal) :
    t.events env st principal = [] := by
  cases hd : t.decision env st principal with
  | ok d => exact absurd ⟨d, hd⟩ h
  | error e => rw [Turn.events, hd]

/-- What is executed at a turn is its call. -/
theorem Turn.executed_mem_events {t : Turn} {call : ToolCall} :
    .executed call ∈ t.events env st principal ↔
      t.executes env st principal = true ∧ call = connectorCall env.readJson t.call := by
  by_cases hdecided : t.Decided env st principal
  · obtain ⟨d, hd⟩ := hdecided
    have hevents : t.events env st principal =
        st.engine.auditEvents d (env.latencyMs t.tick) (env.bundle t.tick).signatureKeyId ++
          [.checked (t.request env st principal) d] ++
          if t.executes env st principal then [.executed (connectorCall env.readJson t.call)]
          else [] := by
      rw [Turn.events, hd]
    -- the audit of the decision is no execution
    have haudit : .executed call ∉ st.engine.auditEvents d (env.latencyMs t.tick)
        (env.bundle t.tick).signatureKeyId := by
      unfold AuthzEngine.auditEvents
      split
      · exact fun h => nomatch List.mem_singleton.1 h
      · exact List.not_mem_nil
    rw [hevents, List.mem_append, List.mem_append]
    constructor
    · rintro ((h | h) | h)
      · exact absurd h haudit
      · exact nomatch List.mem_singleton.1 h
      · split at h
        · rename_i hexecutes
          exact ⟨hexecutes, Event.executed.inj (List.mem_singleton.1 h)⟩
        · cases h
    · rintro ⟨hexecutes, rfl⟩
      rw [if_pos hexecutes]
      exact Or.inr List.mem_cons_self
  · rw [Turn.events_of_not_decided hdecided]
    constructor
    · exact fun h => absurd h List.not_mem_nil
    · rintro ⟨hexecutes, -⟩
      rw [Turn.executes, Bool.and_eq_true] at hexecutes
      exact absurd (Turn.decided_of_allowed hexecutes.2) hdecided

theorem turns_append (tcs tcs' : List Json) :
    ∀ n, turns env st principal (tcs ++ tcs') n =
      turns env st principal tcs n ++
        turns env st principal tcs' (endTick env st principal tcs n) := by
  induction tcs with
  | nil => exact fun _ => rfl
  | cons tc tcs ih => exact fun n => congrArg (_ :: ·) (ih _)

theorem endTick_append (tcs tcs' : List Json) :
    ∀ n, endTick env st principal (tcs ++ tcs') n =
      endTick env st principal tcs' (endTick env st principal tcs n) := by
  induction tcs with
  | nil => exact fun _ => rfl
  | cons tc tcs ih => exact fun n => ih _

theorem allDecided_append {ts ts' : List Turn} :
    AllDecided env st principal (ts ++ ts') ↔
      AllDecided env st principal ts ∧ AllDecided env st principal ts' :=
  List.forall_mem_append

theorem allowedCalls_append (ts ts' : List Turn) :
    allowedCalls env st principal (ts ++ ts') =
      allowedCalls env st principal ts ++ allowedCalls env st principal ts' := by
  rw [allowedCalls, List.filter_append, List.map_append]
  rfl

/-- An allowed call is that of an allowed turn. -/
theorem mem_allowedCalls {ts : List Turn} {tc : Json} :
    tc ∈ allowedCalls env st principal ts ↔
      ∃ t ∈ ts, t.allowed env st principal = true ∧ t.call = tc := by
  rw [allowedCalls, List.mem_map]
  constructor
  · rintro ⟨t, ht, rfl⟩
    obtain ⟨hmem, hallowed⟩ := List.mem_filter.1 ht
    exact ⟨t, hmem, hallowed, rfl⟩
  · rintro ⟨t, hmem, hallowed, rfl⟩
    exact ⟨t, List.mem_filter.2 ⟨hmem, hallowed⟩, rfl⟩

/-- What decided turns emit comes before what the others emit. -/
theorem turnLog_append {ts : List Turn} (h : AllDecided env st principal ts) (ts' : List Turn) :
    turnLog env st principal (ts ++ ts') =
      ts.flatMap (Turn.events env st principal) ++ turnLog env st principal ts' := by
  induction ts with
  | nil => rfl
  | cons t ts ih =>
      rw [AllDecided, List.forall_mem_cons] at h
      obtain ⟨⟨d, hd⟩, hrest⟩ := h
      rw [List.cons_append, turnLog, hd, List.flatMap_cons, List.append_assoc, ← ih hrest]

theorem turnLog_eq {ts : List Turn} (h : AllDecided env st principal ts) :
    turnLog env st principal ts = ts.flatMap (Turn.events env st principal) := by
  have happend := turnLog_append h []
  rwa [List.append_nil, turnLog, List.append_nil] at happend

/-- After a failed check nothing is logged. -/
theorem turnLog_of_not_decided {ts : List Turn} (h : ¬AllDecided env st principal ts)
    (ts' : List Turn) : turnLog env st principal (ts ++ ts') = turnLog env st principal ts := by
  induction ts with
  | nil => exact absurd (fun _ ht => absurd ht List.not_mem_nil) h
  | cons t ts ih =>
      rw [List.cons_append, turnLog, turnLog]
      cases hd : t.decision env st principal with
      | error e => rfl
      | ok d =>
          have hrest : ¬AllDecided env st principal ts := fun hall =>
            h (List.forall_mem_cons.2 ⟨⟨d, hd⟩, hall⟩)
          exact congrArg (_ ++ ·) (ih hrest)

/-- Where not all checks come to a decision, there is a first that does not. -/
theorem exists_first_failure {ts : List Turn} (h : ¬AllDecided env st principal ts) :
    ∃ earlier t later, ts = earlier ++ t :: later ∧ AllDecided env st principal earlier ∧
      ¬t.Decided env st principal := by
  induction ts with
  | nil => exact absurd (fun t ht => absurd ht List.not_mem_nil) h
  | cons t ts ih =>
      by_cases hd : t.Decided env st principal
      · have hrest : ¬AllDecided env st principal ts := fun hall =>
          h (List.forall_mem_cons.2 ⟨hd, hall⟩)
        obtain ⟨earlier, u, later, rfl, hearlier, hu⟩ := ih hrest
        exact ⟨t :: earlier, u, later, rfl, List.forall_mem_cons.2 ⟨hd, hearlier⟩, hu⟩
      · exact ⟨[], t, ts, rfl, fun u hu => absurd hu List.not_mem_nil, hd⟩

/-! ## Following the turns -/

/-- From the world on, the handler emits what the turns of the calls emit; it gives the answer when
every check comes to a decision, and an error otherwise. -/
structure Follows {α : Type} (m : Handler α) (w : World) (env : ProxyEnv E) (st : AppState)
    (principal : Principal) (tcs : List Json) (a : α) : Prop where
  events : (m w).events = turnLog env st principal (turns env st principal tcs w.tick)
  decided : AllDecided env st principal (turns env st principal tcs w.tick) →
    (m w).result = .ok a ∧ (m w).state.tick = endTick env st principal tcs w.tick
  failed : ¬AllDecided env st principal (turns env st principal tcs w.tick) →
    ∃ e, (m w).result = .error e

theorem follows_pure {α : Type} (a : α) (w : World) :
    Follows (pure a : Handler α) w env st principal [] a where
  events := rfl
  decided := fun _ => ⟨rfl, rfl⟩
  failed := fun h => absurd (fun _ ht => absurd ht List.not_mem_nil) h

/-- A handler that maps its result follows the same calls. -/
theorem Follows.map {α β : Type} {m : Handler α} {w : World} {tcs : List Json} {a : α}
    (h : Follows m w env st principal tcs a) (f : α → β) :
    Follows (m >>= fun a => (pure (f a) : Handler β)) w env st principal tcs (f a) := by
  have hsame : ∀ b, (m w).result = .ok b → (m >>= fun a => (pure (f a) : Handler β)) w =
      ⟨.ok (f b), (m w).state, (m w).events⟩ := by
    intro b hb
    rw [Eff.bind_ok hb]
    exact congrArg (Outcome.mk _ _) (List.append_nil _)
  refine ⟨?_, fun hall => ?_, fun hnot => ?_⟩
  · cases hresult : (m w).result with
    | ok b => rw [hsame b hresult]; exact h.events
    | error e => rw [Eff.bind_error hresult]; exact h.events
  · obtain ⟨hok, htick⟩ := h.decided hall
    rw [hsame a hok]
    exact ⟨rfl, htick⟩
  · obtain ⟨e, he⟩ := h.failed hnot
    rw [Eff.bind_error he]
    exact ⟨e, rfl⟩

/-- **One handler after the other follows one list of calls after the other.** -/
theorem Follows.bind {α β : Type} {m : Handler α} {f : α → Handler β} {w : World}
    {tcs tcs' : List Json} {a : α} {b : β} (h : Follows m w env st principal tcs a)
    (h' : ∀ w' : World, w'.tick = endTick env st principal tcs w.tick →
      Follows (f a) w' env st principal tcs' b) :
    Follows (m >>= f) w env st principal (tcs ++ tcs') b := by
  -- the second part runs only where every call of the first is decided
  by_cases hall : AllDecided env st principal (turns env st principal tcs w.tick)
  · obtain ⟨hok, htick⟩ := h.decided hall
    obtain ⟨hevents, hdecided, hfailed⟩ := h' (m w).state htick
    rw [htick] at hevents hdecided hfailed
    have hrun := Eff.bind_ok hok f
    refine ⟨?_, fun hboth => ?_, fun hnot => ?_⟩
    · rw [hrun, turns_append, turnLog_append hall, ← turnLog_eq hall, ← h.events, ← hevents]
      rfl
    · rw [turns_append, allDecided_append] at hboth
      rw [hrun, endTick_append]
      exact hdecided hboth.2
    · rw [turns_append, allDecided_append] at hnot
      rw [hrun]
      exact hfailed fun hrest => hnot ⟨hall, hrest⟩
  · obtain ⟨e, he⟩ := h.failed hall
    have hrun := Eff.bind_error he f
    refine ⟨?_, fun hboth => ?_, fun _ => ?_⟩
    · rw [hrun, turns_append, turnLog_of_not_decided hall]
      exact h.events
    · rw [turns_append, allDecided_append] at hboth
      exact absurd hboth.1 hall
    · rw [hrun]
      exact ⟨e, rfl⟩

/-! ## The filter follows the turns -/

/-- An allowed call is executed when tools are to be executed. -/
theorem executeAllowed_run (tc : Json) (w : World) :
    executeAllowed env st tc w =
      if st.cfg.connectors.executeTools then
        ⟨.ok (), { w with tick := w.tick + 1 }, [.executed (connectorCall env.readJson tc)]⟩
      else ⟨.ok (), w, []⟩ := by
  unfold executeAllowed
  split
  · rfl
  · rfl

/-- A call whose check fails ends the filter. -/
theorem filterToolCall_error {tc : Json} {w : World} {e : Halt ProxyError}
    (h : Turn.decision env st principal ⟨tc, w.tick⟩ = .error e) :
    (filterToolCall env st principal tc w).result = .error e ∧
      (filterToolCall env st principal tc w).events = [] := by
  have hcheck := fun m : Metrics =>
    @check_error _ env st.engine (st.engine.catalog.authzForTool principal (toolCallName tc)
      (toolCallArgs env.readJson tc)) { w with metrics := m } _ h
  unfold filterToolCall
  rw [count_bind, Eff.bind_error (congrArg Outcome.result (hcheck _))]
  exact ⟨rfl, congrArg Outcome.events (hcheck _)⟩

/-- A call whose check comes to a decision is kept when it is allowed. -/
theorem filterToolCall_decided {tc : Json} {w : World} {d : AuthzDecision}
    (h : Turn.decision env st principal ⟨tc, w.tick⟩ = .ok d) :
    (filterToolCall env st principal tc w).result =
        .ok (if Turn.allowed env st principal ⟨tc, w.tick⟩ then [tc] else []) ∧
      (filterToolCall env st principal tc w).events = Turn.events env st principal ⟨tc, w.tick⟩ ∧
      (filterToolCall env st principal tc w).state.tick =
        Turn.next env st principal ⟨tc, w.tick⟩ := by
  -- the counter is raised before the check, which does not read it
  have hcheck := fun m : Metrics =>
    @check_ok _ env st.engine (st.engine.catalog.authzForTool principal (toolCallName tc)
      (toolCallArgs env.readJson tc)) { w with metrics := m } _ h
  unfold filterToolCall
  rw [count_bind, Eff.bind_ok (congrArg Outcome.result (hcheck _)), Turn.next, Turn.events, h,
    Turn.executes]
  by_cases hallow : d.effect = .allow
  · rw [(Turn.allowed_iff h).2 hallow, if_pos hallow, count_bind,
      Eff.bind_ok (executeAllowed_ok _ _ _ _), executeAllowed_run, hcheck, Bool.and_true]
    cases st.cfg.connectors.executeTools with
    | true => exact ⟨rfl, rfl, rfl⟩
    | false => exact ⟨rfl, rfl, rfl⟩
  · rw [Bool.eq_false_iff.2 fun hallowed => hallow ((Turn.allowed_iff h).1 hallowed),
      if_neg hallow, count_bind, hcheck, Bool.and_false]
    exact ⟨rfl, rfl, rfl⟩

/-- **One call.** -/
theorem filterToolCall_follows (tc : Json) (w : World) :
    Follows (filterToolCall env st principal tc) w env st principal [tc]
      (allowedCalls env st principal (turns env st principal [tc] w.tick)) := by
  have hturns : turns env st principal [tc] w.tick = [⟨tc, w.tick⟩] := rfl
  cases hd : Turn.decision env st principal ⟨tc, w.tick⟩ with
  | error e =>
      obtain ⟨hresult, hevents⟩ := filterToolCall_error hd
      have hnot : ¬Turn.Decided env st principal ⟨tc, w.tick⟩ := by
        rintro ⟨d, hd'⟩
        rw [hd] at hd'
        cases hd'
      refine ⟨?_, fun hall => absurd (hall _ List.mem_cons_self) hnot, fun _ => ⟨e, hresult⟩⟩
      rw [hevents, hturns, turnLog, hd, Turn.events_of_not_decided hnot]
      rfl
  | ok d =>
      obtain ⟨hresult, hevents, htick⟩ := filterToolCall_decided hd
      refine ⟨?_, fun _ => ⟨hresult.trans ?_, htick⟩, fun hnot => absurd ?_ hnot⟩
      · rw [hevents, hturns, turnLog, hd, turnLog, List.append_nil]
      · rw [hturns, allowedCalls, List.filter_cons, List.filter_nil]
        split
        · rfl
        · rfl
      · exact List.forall_mem_singleton.2 ⟨d, hd⟩

/-- **A list of calls**, by induction on it. -/
theorem filterEach_follows (tcs : List Json) : ∀ w : World,
    Follows (filterEach env st principal tcs) w env st principal tcs
      (allowedCalls env st principal (turns env st principal tcs w.tick)) := by
  induction tcs with
  | nil => exact follows_pure []
  | cons tc tcs ih =>
      intro w
      have hsplit : turns env st principal (tc :: tcs) w.tick =
          turns env st principal [tc] w.tick ++
            turns env st principal tcs (endTick env st principal [tc] w.tick) :=
        turns_append [tc] tcs w.tick
      rw [hsplit, allowedCalls_append]
      apply (filterToolCall_follows tc w).bind
      intro w' hw'
      rw [← hw']
      exact (ih w').map _

/-- `filter_tool_calls`; what is no array has no calls. -/
theorem filterToolCalls_follows (tcs : Json) (w : World) :
    Follows (filterToolCalls env st principal tcs) w env st principal (tcs.asArray.getD [])
      (allowedCalls env st principal (turns env st principal (tcs.asArray.getD []) w.tick)) := by
  cases tcs with
  | arr items => exact filterEach_follows items w
  | null => exact follows_pure [] w
  | bool b => exact follows_pure [] w
  | num t => exact follows_pure [] w
  | str s => exact follows_pure [] w
  | obj ms => exact follows_pure [] w

/-- A choice with the calls that are left. -/
def rewriteChoice (choice : Json) (kept : List Json) : Json :=
  match choice.get "message" with
  | none => choice
  | some msg =>
      match msg.get "tool_calls" with
      | none => choice
      | some _ => choice.setMember "message" (replaceToolCalls msg kept)

/-- **One choice.** -/
theorem filterChoice_follows (choice : Json) (w : World) :
    Follows (filterChoice env st principal choice) w env st principal (choiceEntries choice)
      (rewriteChoice choice (allowedCalls env st principal
        (turns env st principal (choiceEntries choice) w.tick))) := by
  unfold filterChoice rewriteChoice choiceEntries choiceMessage
  cases choice.get "message" with
  | none => exact follows_pure choice w
  | some msg =>
      dsimp only [Option.getD_some]
      unfold messageEntries
      cases msg.get "tool_calls" with
      | none => exact follows_pure choice w
      | some tcs => exact (filterToolCalls_follows tcs w).map _

variable (env st principal) in
/-- The choices with the calls that are left, from a reading on. -/
def rewriteChoices : List Json → Nat → List Json
  | [], _ => []
  | choice :: choices, n =>
      rewriteChoice choice (allowedCalls env st principal
          (turns env st principal (choiceEntries choice) n)) ::
        rewriteChoices choices (endTick env st principal (choiceEntries choice) n)

/-- **The choices in a row**, by induction on them. -/
theorem filterChoices_follows (choices : List Json) : ∀ w : World,
    Follows (filterChoices env st principal choices) w env st principal
      (choices.flatMap choiceEntries) (rewriteChoices env st principal choices w.tick) := by
  induction choices with
  | nil => exact follows_pure []
  | cons choice choices ih =>
      intro w
      rw [List.flatMap_cons]
      apply (filterChoice_follows choice w).bind
      intro w' hw'
      have hrest := (ih w').map (rewriteChoice choice (allowedCalls env st principal
        (turns env st principal (choiceEntries choice) w.tick)) :: ·)
      rw [hw'] at hrest
      exact hrest

/-- The tool calls of a reply, choice after choice. -/
def replyCalls (reply : Json) : List Json := (replyChoices reply).flatMap choiceEntries

variable (env st principal) in
/-- The reply with the calls that are left. -/
def rewriteReply (reply : Json) (n : Nat) : Json :=
  match (reply.get "choices").bind Json.asArray with
  | some choices => reply.setMember "choices" (.arr (rewriteChoices env st principal choices n))
  | none => reply

/-- **The filter of a reply follows the turns of its tool calls.** -/
theorem filterReply_follows (reply : Json) (w : World) :
    Follows (filterReply env st principal reply) w env st principal (replyCalls reply)
      (rewriteReply env st principal reply w.tick) := by
  unfold filterReply rewriteReply replyCalls replyChoices
  cases (reply.get "choices").bind Json.asArray with
  | none => exact follows_pure reply w
  | some choices => exact (filterChoices_follows choices w).map _

end

end Paac
