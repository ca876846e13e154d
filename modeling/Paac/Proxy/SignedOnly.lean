import Paac.Proxy.PromptGate
import Paac.Proxy.Routes

set_option autoImplicit false

/-!
# Decisions and the bundles they rest on

Calls run side by side with stores into the bundle cache. A trace says in which order stores happen
and calls read, so a call sees at each reading the bundle stored last. Every decision rests on one
bundle that the call has seen, and carries its revision and signature.

An engine that requires signatures checks the bundle that it has loaded and evaluates on that one,
so it does not matter what is stored meanwhile. The hooks for MCP and for agents load the bundle
without the check. The main result is for any number of calls, each with its own readings, and any
trace of stores between them.

## Main results

- `check_fromSigned`, `run_fromSigned`: the endpoints that ask the engine decide on signed bundles
  only.
- `bare_decides`: the two others decide on whichever bundle their second reading finds.
- `signed_decide_iff`: so every decision of every call rests on a signed bundle exactly when these
  two read signed bundles whenever they decide.
- `signed_decide_unswapped`: a bundle that is replaced by another signed one under a call.
- `unsigned_bundle_decides`: an unsigned bundle that is stored while a call runs decides.
-/

namespace Paac

open Cedar (Engine)

section

variable {E : Engine}

/-! ## Bundles over time -/

/-- A step of the system: a bundle is stored, or the call of that number reads its surroundings. -/
inductive BundleStep (E : Engine) where
  | store (hot : HotBundle E)
  | read (call : Nat)

/-- The bundle in the cache at reading number `n` of the call. -/
def seen (hot : HotBundle E) (call : Nat) : List (BundleStep E) → Nat → HotBundle E
  | [], _ => hot
  | .store hot' :: trace, n => seen hot' call trace n
  | .read c :: trace, n =>
      if c = call then
        match n with
        | 0 => hot
        | n + 1 => seen hot call trace n
      else seen hot call trace n

/-- A call sees the first bundle or one that was stored. -/
theorem seen_stored (call : Nat) (trace : List (BundleStep E)) :
    ∀ (hot : HotBundle E) (n : Nat),
      seen hot call trace n = hot ∨ .store (seen hot call trace n) ∈ trace := by
  induction trace with
  | nil => exact fun hot n => Or.inl rfl
  | cons step trace ih =>
      intro hot n
      cases step with
      | store hot' =>
          simp only [seen]
          rcases ih hot' n with h | h
          · exact Or.inr (by rw [h]; exact List.mem_cons_self)
          · exact Or.inr (List.mem_cons_of_mem _ h)
      | read c =>
          have hrest : ∀ m, seen hot call trace m = hot ∨
              .store (seen hot call trace m) ∈ BundleStep.read c :: trace :=
            fun m => (ih hot m).imp id (List.mem_cons_of_mem _)
          simp only [seen]
          split
          · cases n with
            | zero => exact Or.inl rfl
            | succ n => exact hrest n
          · exact hrest n

/-! ## Calls -/

/-- A call of one of the deciding endpoints; tool calls are filtered inside `chat`. -/
inductive Call where
  | check (req : AuthzRequest)
  | chat (headers : HeaderMap) (body : ChatCompletionRequest)
  | retrieve (headers : HeaderMap) (body : RetrieveRequest)
  | mcp (headers : HeaderMap) (params : McpCallParams)
  | a2a (headers : HeaderMap) (msg : A2aMessage)

/-- The handler of a call, without its answer. -/
def Call.run (env : ProxyEnv E) (st : AppState) : Call → Handler Unit
  | .check req => do
      let _ ← checkRoute env st req
      return ()
  | .chat headers body => do
      let _ ← chatCompletions env st headers body
      return ()
  | .retrieve headers body => do
      let _ ← Paac.retrieve env st headers body
      return ()
  | .mcp headers params => do
      let _ ← mcpToolsCall env st headers params
      return ()
  | .a2a headers msg => do
      let _ ← a2aAuthorize env st headers msg
      return ()

/-- A call under way: what it reads besides the bundle, and the state it begins in. -/
structure Running (E : Engine) where
  call : Call
  env : ProxyEnv E
  world : World

/-- The surroundings of a call in a trace. -/
def Running.surroundings (rc : Running E) (hot : HotBundle E) (number : Nat)
    (trace : List (BundleStep E)) : ProxyEnv E :=
  { rc.env with bundle := fun n => seen hot number trace (n - rc.world.tick) }

/-- The decision in an event. -/
def Event.decision : Event → Option AuthzDecision
  | .checked _ d => some d
  | .evaluated _ d => some d
  | _ => none

/-- The decision is one on the bundle, and carries its revision and signature. -/
def DecidedOn (hot : HotBundle E) (d : AuthzDecision) : Prop :=
  (∃ fresh req, evaluate E fresh req hot.toEvaluatorConfig = .ok d) ∧
    d.evidence.policyRevision = hot.policyRevision ∧
    d.evidence.policySignature = hot.policySignature

theorem decidedOn_of_evaluate {hot : HotBundle E} {fresh : Fresh} {req : AuthzRequest}
    {d : AuthzDecision} (h : evaluate E fresh req hot.toEvaluatorConfig = .ok d) :
    DecidedOn hot d := by
  refine ⟨⟨fresh, req, h⟩, ?_⟩
  obtain ⟨es, q, p, a, r, c, -, -, -, rfl⟩ := evaluate_ok h
  exact ⟨rfl, rfl⟩

/-- Every decision the call makes is one on a signed bundle that the call has seen. -/
def DecidesOnSigned (st : AppState) (hot : HotBundle E) (trace : List (BundleStep E))
    (calls : List (Running E)) : Prop :=
  ∀ number rc, calls[number]? = some rc →
    ∀ e ∈ (rc.call.run (rc.surroundings hot number trace) st rc.world).events,
      ∀ d, e.decision = some d →
        ∃ n, DecidedOn (seen hot number trace n) d ∧
          (seen hot number trace n).policySignature.isSome = true

/-! ## Where decisions come from -/

variable {env : ProxyEnv E} {st : AppState}

/-- A decision on a signed bundle of the surroundings. -/
def FromSigned (env : ProxyEnv E) (e : Event) : Prop :=
  ∀ d, e.decision = some d →
    ∃ n, DecidedOn (env.bundle n) d ∧ (env.bundle n).policySignature.isSome = true

/-- **A check of an engine that requires signatures decides on a signed bundle.** -/
theorem check_fromSigned (hsigned : st.engine.requireSigned = true) (req : AuthzRequest) :
    (st.engine.check env req).Emits (FromSigned env) := by
  intro w e he d hd
  cases hdecide : st.engine.decide (env.bundle w.tick) (env.fresh w.tick) req with
  | error err =>
      rw [check_error hdecide] at he
      cases he
  | ok d' =>
      rw [check_ok hdecide, AuthzEngine.auditEvents] at he
      -- audit records carry no decision of their own
      have hchecked : e = .checked req d' := by
        rcases List.mem_append.1 he with he | he
        · split at he
          · rw [List.mem_singleton.1 he] at hd
            cases hd
          · cases he
        · exact List.mem_singleton.1 he
      subst hchecked
      obtain rfl := Option.some.inj hd
      -- the engine refuses a bundle without a signature before it evaluates
      unfold AuthzEngine.decide at hdecide
      rw [hsigned, Bool.true_and] at hdecide
      split at hdecide
      · cases hdecide
      · rename_i hnone
        rw [mapErr_eq_ok] at hdecide
        refine ⟨w.tick, decidedOn_of_evaluate hdecide, ?_⟩
        cases hsig : (env.bundle w.tick).policySignature with
        | none => rw [hsig] at hnone; exact absurd rfl hnone
        | some sig => rfl

/-- The endpoints that ask the engine. -/
def Call.asksEngine : Call → Bool
  | .mcp _ _ => false
  | .a2a _ _ => false
  | _ => true

/-- A call that asks the engine emits what checks emit, executed calls, and what it sends. -/
theorem Call.logs_run {P : List Event → Prop} (hP : Composes P)
    (hcheck : ∀ req, (st.engine.check env req).Logs P) (hexecuted : ∀ call, P [.executed call])
    (hsent : ∀ url body key, P [.sentUpstream url body key]) {call : Call}
    (h : call.asksEngine = true) : (call.run env st).Logs P := by
  cases call with
  | check req =>
      apply Eff.logs_bind hP ?_ fun _ => Eff.logs_pure hP _
      apply Eff.logs_bind hP (Eff.logs_modify hP _)
      intro _
      apply Eff.logs_bind hP (hcheck req)
      intro d
      dsimp only
      split
      · exact Eff.logs_bind hP (Eff.logs_modify hP _) fun _ => Eff.logs_pure hP _
      · exact Eff.logs_bind hP (Eff.logs_modify hP _) fun _ => Eff.logs_pure hP _
  | chat headers body =>
      apply Eff.logs_bind hP (logs_chatCompletions hP hcheck hexecuted hsent headers body)
      exact fun _ => Eff.logs_pure hP _
  | retrieve headers body =>
      apply Eff.logs_bind hP ?_ fun _ => Eff.logs_pure hP _
      -- resolving the principal emits nothing
      apply Eff.logs_bind hP fun _ => hP.nil
      intro principal
      apply Eff.logs_bind hP ?_ fun _ => Eff.logs_pure hP _
      apply Eff.logs_bind hP (hcheck _)
      intro d
      split
      · exact Eff.logs_pure hP _
      · exact Eff.logs_fail hP _
  | mcp headers params => cases h
  | a2a headers msg => cases h

/-- **The endpoints that ask the engine decide on signed bundles only.** -/
theorem run_fromSigned (hsigned : st.engine.requireSigned = true) {call : Call}
    (h : call.asksEngine = true) : (call.run env st).Emits (FromSigned env) := by
  have hother : ∀ {e : Event}, e.decision = none → ∀ e' ∈ [e], FromSigned env e' := by
    intro e he e' he' d hd
    rw [List.mem_singleton.1 he', he] at hd
    cases hd
  exact Call.logs_run (composes_all _) (fun req => check_fromSigned hsigned req)
    (fun _ => hother rfl) (fun _ _ _ => hother rfl) h

/-! ## Endpoints past the engine -/

/-- Dropping a result drops no event. -/
theorem events_discard {α : Type} (m : Handler α) (w : World) :
    ((m >>= fun _ => (pure () : Handler Unit)) w).events = (m w).events := by
  cases h : (m w).result with
  | error err => rw [Eff.bind_error h]
  | ok a =>
      rw [Eff.bind_ok h]
      exact List.append_nil _

/-- The headers and the request of a call that evaluates on its own. -/
def Call.bare (st : AppState) : Call → Option (HeaderMap × (Principal → AuthzRequest))
  | .mcp headers params => some (headers, fun principal =>
      st.engine.catalog.authzForTool principal params.name params.arguments)
  | .a2a headers msg => some (headers, fun principal => a2aRequest principal msg)
  | _ => none

/-- Evaluating on the cache decides what `evaluate` does, if nothing behind it decides. -/
theorem evaluateOnCache_decides {α : Type} {req : AuthzRequest} {f : AuthzDecision → Handler α}
    (hf : ∀ d, (f d).Emits fun e => e.decision = none) {w : World} {d : AuthzDecision} :
    (∃ e ∈ ((evaluateOnCache env req >>= f) w).events, e.decision = some d) ↔
      evaluate E (env.fresh w.tick) req (env.bundle w.tick).toEvaluatorConfig = .ok d := by
  cases hd : evaluate E (env.fresh w.tick) req (env.bundle w.tick).toEvaluatorConfig with
  | error err =>
      have hcache : evaluateOnCache env req w = ⟨mapErr (Halt.mapError fun e =>
          ProxyError.badRequest e.toText) (.error err), { w with tick := w.tick + 1 }, []⟩ := by
        simp only [evaluateOnCache, hd, mapErr]
      rw [Eff.bind_error (by rw [hcache]; rfl), hcache]
      simp
  | ok d' =>
      have hcache : evaluateOnCache env req w =
          ⟨.ok d', { w with tick := w.tick + 1 }, [.evaluated req d']⟩ := by
        simp only [evaluateOnCache, hd, mapErr]
      rw [Eff.bind_ok (by rw [hcache]), hcache]
      constructor
      · rintro ⟨e, he, hdec⟩
        -- what follows the evaluation decides nothing
        rcases List.mem_cons.1 he with rfl | he
        · rw [Option.some.inj hdec]
        · have hnone : e.decision = none := hf d' _ e he
          rw [hnone] at hdec
          cases hdec
      · intro h
        rw [Except.ok.inj h]
        exact ⟨_, List.mem_cons_self, rfl⟩

/-- **What a call decides that evaluates on its own**: what `evaluate` gives on the bundle it reads
after its principal. -/
theorem bare_decides {call : Call} {headers : HeaderMap} {request : Principal → AuthzRequest}
    (h : call.bare st = some (headers, request)) {w : World} {d : AuthzDecision} :
    (∃ e ∈ (call.run env st w).events, e.decision = some d) ↔
      ∃ p, (resolve env st headers w).result = .ok p ∧
        evaluate E (env.fresh (w.tick + 1)) (request p)
          (env.bundle (w.tick + 1)).toEvaluatorConfig = .ok d := by
  have hresolved : ∀ {α : Type} (f : Principal → AuthzDecision → Handler α),
      (∀ p d, (f p d).Emits fun e => e.decision = none) →
      ((∃ e ∈ ((resolve env st headers >>= fun p => evaluateOnCache env (request p) >>= f p)
          w).events, e.decision = some d) ↔
        ∃ p, (resolve env st headers w).result = .ok p ∧
          evaluate E (env.fresh (w.tick + 1)) (request p)
            (env.bundle (w.tick + 1)).toEvaluatorConfig = .ok d) := by
    intro α f hf
    cases hp : (resolve env st headers w).result with
    | error err =>
        rw [Eff.bind_error hp]
        have hsilent : (resolve env st headers w).events = [] := rfl
        rw [hsilent]
        simp
    | ok p =>
        rw [Eff.bind_ok hp]
        have hsilent : (resolve env st headers w).events = [] := rfl
        rw [hsilent, Eff.after_nil, evaluateOnCache_decides (hf p)]
        simp only [Except.ok.injEq, exists_eq_left']
        rfl
  -- only the two surfaces without an upstream ask the engine on the cache
  cases call with
  | check req => cases h
  | chat headers' body => cases h
  | retrieve headers' body => cases h
  | mcp headers' params =>
      obtain ⟨rfl, rfl⟩ := Prod.mk.inj (Option.some.inj h)
      simp only [Call.run, events_discard, mcpToolsCall]
      refine hresolved _ fun p d => ?_
      split
      · refine Eff.Emits.bind (fun w e he => absurd he List.not_mem_nil) fun id => ?_
        refine Eff.Emits.bind ?_ fun data => ?_
        · intro w e he
          rw [List.mem_singleton.1 he]
          rfl
        · exact Eff.Emits.bind (Eff.emits_lift _) fun _ => Eff.emits_pure _
      · exact Eff.emits_fail _
  | a2a headers' msg =>
      obtain ⟨rfl, rfl⟩ := Prod.mk.inj (Option.some.inj h)
      simp only [Call.run, events_discard]
      unfold a2aAuthorize
      simp only at hresolved
      apply hresolved
      exact fun p d => Eff.emits_pure _

/-! ## Interleaved runs -/

/-- A call that evaluates on its own does not ask the engine. -/
theorem bare_of_not_asksEngine {call : Call} (h : call.asksEngine = false) :
    ∃ headers request, call.bare st = some (headers, request) := by
  cases call with
  | check req => cases h
  | chat headers body => cases h
  | retrieve headers body => cases h
  | mcp headers params => exact ⟨_, _, rfl⟩
  | a2a headers msg => exact ⟨_, _, rfl⟩

/-- At its second reading a call sees the bundle of the trace there. -/
theorem surroundings_second (rc : Running E) (hot : HotBundle E) (number : Nat)
    (trace : List (BundleStep E)) :
    (rc.surroundings hot number trace).bundle (rc.world.tick + 1) = seen hot number trace 1 := by
  simp only [Running.surroundings, Nat.add_sub_cancel_left]

/-- The calls that evaluate on their own read a signed bundle whenever they decide. -/
def BareReadsSigned (st : AppState) (hot : HotBundle E) (trace : List (BundleStep E))
    (calls : List (Running E)) : Prop :=
  ∀ number rc, calls[number]? = some rc →
    ∀ headers request, rc.call.bare st = some (headers, request) →
      ∀ p d, (resolve (rc.surroundings hot number trace) st headers rc.world).result = .ok p →
        evaluate E (rc.env.fresh (rc.world.tick + 1)) (request p)
          (seen hot number trace 1).toEvaluatorConfig = .ok d →
        (seen hot number trace 1).policySignature.isSome = true

variable {hot : HotBundle E} {trace : List (BundleStep E)} {calls : List (Running E)}

theorem bareReadsSigned_of_decidesOnSigned (h : DecidesOnSigned st hot trace calls) :
    BareReadsSigned st hot trace calls := by
  intro number rc hrc headers request hbare p d hp hd
  obtain ⟨e, he, hdecision⟩ := (@bare_decides _ (rc.surroundings hot number trace) _ _ _ _ hbare
    rc.world d).2 ⟨p, hp, by rw [surroundings_second]; exact hd⟩
  obtain ⟨n, hon, hsome⟩ := h number rc hrc e he d hdecision
  rw [← (decidedOn_of_evaluate hd).2.2, hon.2.2]
  exact hsome

/-- **Which bundles decide.** For an engine that requires signatures, every decision of every call
rests on a signed bundle exactly when the calls that evaluate on their own read signed bundles
whenever they decide. -/
theorem signed_decide_iff (st : AppState) (hot : HotBundle E) (trace : List (BundleStep E))
    (calls : List (Running E)) (hsigned : st.engine.requireSigned = true) :
    DecidesOnSigned st hot trace calls ↔ BareReadsSigned st hot trace calls := by
  refine ⟨bareReadsSigned_of_decidesOnSigned, ?_⟩
  intro h number rc hrc e he d hdecision
  cases hasks : rc.call.asksEngine with
  | true =>
      obtain ⟨n, hon, hsome⟩ := run_fromSigned hsigned hasks rc.world e he d hdecision
      exact ⟨n - rc.world.tick, hon, hsome⟩
  | false =>
      obtain ⟨headers, request, hbare⟩ := @bare_of_not_asksEngine st _ hasks
      obtain ⟨p, hp, hd⟩ := (bare_decides hbare).1 ⟨e, he, hdecision⟩
      rw [surroundings_second] at hd
      exact ⟨1, decidedOn_of_evaluate hd, h number rc hrc headers request hbare p d hp hd⟩

end

/-! ## A bundle swapped under a call -/

namespace SignedChat

/-- The proxy for general chat, with an engine that requires signatures. -/
def state : AppState :=
  { GeneralChat.state with
    engine := { GeneralChat.state.engine with requireSigned := true } }

def signedBundle : HotBundle Cedar.Engine.reference :=
  { GeneralChat.bundle with policySignature := some "c2ln", signatureKeyId := some "k1" }

/-- The next revision of that bundle, signed with another key. -/
def resignedBundle : HotBundle Cedar.Engine.reference :=
  { GeneralChat.bundle with
    policyRevision := "r2"
    policySignature := some "c2lnMg"
    signatureKeyId := some "k2" }

/-- A signed bundle is stored between the two readings of a call. -/
def resignedTrace : List (BundleStep Cedar.Engine.reference) :=
  [.read 0, .store resignedBundle, .read 0]

/-- Bob asks whether one agent may write to another. -/
def call : Running Cedar.Engine.reference :=
  ⟨.a2a GeneralChat.headers ⟨"planner", "mailer", "send", []⟩,
    GeneralChat.env GeneralChat.emptyReply, GeneralChat.world⟩

end SignedChat

/-- When one signed bundle takes the place of another under a call, it decides on a signed one. -/
theorem signed_decide_unswapped :
    DecidesOnSigned SignedChat.state SignedChat.signedBundle SignedChat.resignedTrace
      [SignedChat.call] := by
  apply (signed_decide_iff SignedChat.state SignedChat.signedBundle SignedChat.resignedTrace
    [SignedChat.call] rfl).2
  intro number rc _ headers request _ p d _ _
  -- whatever is read is the bundle of the start or the one stored, and both are signed
  rcases seen_stored number SignedChat.resignedTrace SignedChat.signedBundle 1 with hseen | hseen
  · rw [hseen]
    rfl
  · have hstored : seen SignedChat.signedBundle number SignedChat.resignedTrace 1 =
        SignedChat.resignedBundle := by
      simpa [SignedChat.resignedTrace] using hseen
    rw [hstored]
    rfl

/-- An unsigned bundle stored while the call runs decides. -/
theorem unsigned_bundle_decides :
    ¬DecidesOnSigned SignedChat.state SignedChat.signedBundle
      [.read 0, .store GeneralChat.bundle, .read 0] [SignedChat.call] := by
  intro h
  have hp : (resolve (SignedChat.call.surroundings SignedChat.signedBundle 0
      [.read 0, .store GeneralChat.bundle, .read 0]) SignedChat.state GeneralChat.headers
      GeneralChat.world).result = .ok GeneralChat.bob :=
    GeneralChat.resolve_bob GeneralChat.emptyReply
  obtain ⟨d, hd⟩ := @evaluate_reference
    (a2aRequest GeneralChat.bob ⟨"planner", "mailer", "send", []⟩)
    (by decide +kernel) (by decide +kernel) ⟨"u", "t"⟩ GeneralChat.bundle.toEvaluatorConfig
  have hsigned := bareReadsSigned_of_decidesOnSigned h 0 SignedChat.call rfl _ _ rfl _ d hp hd
  cases hsigned

end Paac
