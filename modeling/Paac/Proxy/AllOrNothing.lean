import Paac.Proxy.Forwarded

set_option autoImplicit false

/-!
# Errors behind executed calls

The filter checks and executes in one pass over the calls of a reply, so an error at one call finds
the calls before it checked and, where tools are executed, the allowed ones among them executed. The
client gets the error and no word of these calls.

The log of a filtered reply is the log of its turns up to the first one that is not decided
(`Turns.lean`), so the question is which calls stand before that one. Readings of the surroundings
count: whether a call is decided is a question about the reading at which its check begins.

## Main results

- `turnLog_first_failure`: the log of a reply with a check that fails is that of the calls before
  it.
- `executed_before_failure`: what was executed then: the allowed calls among them.
- `all_or_nothing_iff`: a reply that ends in an error has executed nothing exactly when tools are
  not executed or no call that is allowed comes before the first check that fails.
- `executed_before_error`: a reply with a prompt over two lines in its second call has executed the
  first one.
-/

namespace Paac

open Cedar (Engine)

section

variable {E : Engine}

/-- When the filter of the reply fails, no call of the reply has been executed. -/
def AllOrNothing (env : ProxyEnv E) (st : AppState) (principal : Principal) (reply : Json)
    (w : World) : Prop :=
  ∀ e, (filterReply env st principal reply w).result = .error e →
    ∀ call, .executed call ∉ (filterReply env st principal reply w).events

variable {env : ProxyEnv E} {st : AppState} {principal : Principal}

/-- What is emitted up to a first failure is what the turns before it emit. -/
theorem turnLog_first_failure {earlier later : List Turn} {t : Turn}
    (hearlier : AllDecided env st principal earlier) (ht : ¬t.Decided env st principal) :
    turnLog env st principal (earlier ++ t :: later) =
      earlier.flatMap (Turn.events env st principal) := by
  rw [turnLog_append hearlier, turnLog, Turn.events_of_not_decided ht, List.nil_append]
  cases hd : t.decision env st principal with
  | ok d => exact absurd ⟨d, hd⟩ ht
  | error e => exact List.append_nil _

/-- A call allowed before the first failure is executed. -/
theorem executed_before_failure {reply : Json} {w : World} {earlier later : List Turn} {t u : Turn}
    (hexecute : st.cfg.connectors.executeTools = true)
    (hturns : turns env st principal (replyCalls reply) w.tick = earlier ++ t :: later)
    (hearlier : AllDecided env st principal earlier) (ht : ¬t.Decided env st principal)
    (hu : u ∈ earlier) (hallowed : u.allowed env st principal = true) :
    ¬AllOrNothing env st principal reply w := by
  have hfollows := @filterReply_follows _ env st principal reply w
  have hnot : ¬AllDecided env st principal
      (turns env st principal (replyCalls reply) w.tick) := by
    rw [hturns]
    exact fun hall => ht (hall t (List.mem_append_right _ List.mem_cons_self))
  obtain ⟨e, he⟩ := hfollows.failed hnot
  intro h
  apply h e he (connectorCall env.readJson u.call)
  rw [hfollows.events, hturns, turnLog_first_failure hearlier ht]
  refine List.mem_flatMap.2 ⟨u, hu, Turn.executed_mem_events.2 ⟨?_, rfl⟩⟩
  rw [Turn.executes, hexecute, hallowed, Bool.and_true]

end

/-- **When an error leaves nothing executed**: exactly when tools are not executed or no call that is
allowed comes before the first check that fails. -/
theorem all_or_nothing_iff {E : Engine} (env : ProxyEnv E) (st : AppState) (principal : Principal)
    (reply : Json) (w : World) :
    AllOrNothing env st principal reply w ↔
      (st.cfg.connectors.executeTools = true →
        ∀ earlier t later,
          turns env st principal (replyCalls reply) w.tick = earlier ++ t :: later →
            AllDecided env st principal earlier → ¬t.Decided env st principal →
              ∀ u ∈ earlier, u.allowed env st principal = false) := by
  constructor
  · intro h hexecute earlier t later hturns hearlier ht u hu
    apply Bool.eq_false_iff.2
    exact fun hallowed => executed_before_failure hexecute hturns hearlier ht hu hallowed h
  · intro h e he call hcall
    have hfollows := @filterReply_follows _ env st principal reply w
    have hnot : ¬AllDecided env st principal
        (turns env st principal (replyCalls reply) w.tick) := by
      intro hall
      obtain ⟨hok, -⟩ := hfollows.decided hall
      rw [hok] at he
      cases he
    obtain ⟨earlier, t, later, hturns, hearlier, ht⟩ := exists_first_failure hnot
    rw [hfollows.events, hturns, turnLog_first_failure hearlier ht] at hcall
    -- the executed call belongs to a turn before the failure
    obtain ⟨u, hu, hcall⟩ := List.mem_flatMap.1 hcall
    obtain ⟨hexecutes, -⟩ := Turn.executed_mem_events.1 hcall
    rw [Turn.executes, Bool.and_eq_true] at hexecutes
    rw [h hexecutes.1 earlier t later hturns hearlier ht u hu] at hexecutes
    cases hexecutes.2

/-! ## An executed call before a failing check -/

namespace Sandbox

/-- A call whose argument has two lines. -/
def twoLines : Json := call "\x7b\"note\": \"a\\nb\"\x7d"

/-- The reply with a harmless call and that one. -/
def reply : Json :=
  .obj [("choices", .arr [.obj [("message", .obj [("tool_calls",
    .arr [call "\x7b\x7d", twoLines])])]])]

/-- The context of the second call cannot be read. -/
theorem twoLines_undecided {n : Nat} : ¬Turn.Decided env state GeneralChat.bob ⟨twoLines, n⟩ := by
  rintro ⟨d, hd⟩
  have hdecide : ∀ req, state.engine.decide (env.bundle n) (env.fresh n) req =
      mapErr (Halt.mapError fun e => .badRequest e.toText)
        (evaluate Engine.reference ⟨"u", "t"⟩ req bundle.toEvaluatorConfig) := fun _ => rfl
  rw [Turn.decision, hdecide, mapErr_eq_ok] at hd
  have hclean := evaluate_clean Engine.reference_lawful hd
  have hcontrol : (splicedMembers (Turn.request env state GeneralChat.bob ⟨twoLines, n⟩)).all
      Json.memberClean = false := by
    have hrequest : Turn.request env state GeneralChat.bob ⟨twoLines, n⟩ =
        Turn.request env state GeneralChat.bob ⟨twoLines, 0⟩ := rfl
    rw [hrequest]
    decide +kernel
  rw [hcontrol] at hclean
  cases hclean

end Sandbox

/-- The first call of a reply is executed, and the second one ends the filter with an error. -/
theorem executed_before_error :
    ¬AllOrNothing Sandbox.env Sandbox.state GeneralChat.bob Sandbox.reply GeneralChat.world := by
  have hallowed : Turn.allowed Sandbox.env Sandbox.state GeneralChat.bob
      ⟨Sandbox.call "\x7b\x7d", 0⟩ = true := Sandbox.allowed rfl rfl
  have hturns : turns Sandbox.env Sandbox.state GeneralChat.bob (replyCalls Sandbox.reply)
      GeneralChat.world.tick = [⟨Sandbox.call "\x7b\x7d", 0⟩] ++
        [⟨Sandbox.twoLines, Turn.next Sandbox.env Sandbox.state GeneralChat.bob
          ⟨Sandbox.call "\x7b\x7d", 0⟩⟩] := rfl
  exact executed_before_failure rfl hturns
    (List.forall_mem_singleton.2 (Turn.decided_of_allowed hallowed)) Sandbox.twoLines_undecided
    List.mem_cons_self hallowed

end Paac
