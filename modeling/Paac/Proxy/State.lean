import Paac.Catalog.Resources
import Paac.Core.HotCache
import Paac.Library.Effect
import Paac.Proxy.Auth
import Paac.Proxy.OpenAi

set_option autoImplicit false

/-!
# The state of the proxy and its surroundings

A handler runs over the mutable state of the proxy and emits what leaves it: checks of the engine,
decisions made past it, audit records, bodies sent upstream and executed tool calls. Whatever a
handler reads from outside is a function of a counter that every reading advances, so that readings
at different moments may differ: the bundle that other tasks may replace, the reply of the upstream,
the clock and fresh ids.

So one run of a handler is a function of its input, of the state, and of these functions, and
statements that quantify over all of them hold for every behaviour of the surroundings. How runs of
several handlers meet is a matter of which functions they are given (`SignedOnly.lean`).

## Main results

- `check_result`, `check_ok`, `check_error`: the check of the engine decides on the bundle that it
  loads, records the decision, and fails without a record.
- `emits_check`: what it emits.
-/

namespace Paac

open Cedar (Engine)

/-- `Metrics`. The counters are `u64` in the source and have no bound here, so what is said of them
holds of the source as long as none of them has reached `2 ^ 64`. -/
structure Metrics where
  checksTotal : Nat
  deniesTotal : Nat
  allowsTotal : Nat
  upstreamCalls : Nat
  deriving DecidableEq, Repr

structure ToolCall where
  id : String
  name : String
  arguments : Json

/-- What a handler does that others can see. -/
inductive Event where
  | checked (req : AuthzRequest) (d : AuthzDecision)
  | evaluated (req : AuthzRequest) (d : AuthzDecision)
  | audited (d : AuthzDecision) (latencyMs : Nat) (keyId : Option String)
  | sentUpstream (url : String) (body : ChatCompletionRequest) (apiKey : Option String)
  | executed (call : ToolCall)

/-- The mutable state of the proxy; `tick` counts the readings of the surroundings. -/
structure World where
  tick : Nat
  cache : IdentityCache
  metrics : Metrics

/-- An HTTP status. -/
abbrev StatusCode : Type := { n : Nat // 100 ≤ n ∧ n ≤ 999 }

structure UpstreamReply where
  status : StatusCode
  text : String

/-- The surroundings: the libraries, the clock, the active bundle, which other tasks may replace at
any moment, the upstream and the connector. -/
structure ProxyEnv (E : Engine) where
  jwt : JwtLibrary
  captures : String → String → Option String
  readJson : String → Except String Json
  clock : Nat → Clock
  fresh : Nat → Fresh
  latencyMs : Nat → Nat
  bundle : Nat → HotBundle E
  upstream : Nat → ChatCompletionRequest → Except String UpstreamReply
  execute : Nat → ToolCall → Except String Json

/-- A handler of the proxy. -/
abbrev Handler (α : Type) : Type := Eff (Halt ProxyError) World Event α

/-- The decision engine. -/
structure AuthzEngine where
  catalog : ResourceCatalog
  hasStore : Bool
  requireSigned : Bool
  mode : RunMode
  deriving DecidableEq

structure AppState where
  cfg : ProxyConfig
  engine : AuthzEngine
  jwt : JwtOidcAdapter
  deriving DecidableEq

/-- `AppState::new`. -/
def AppState.new (cfg : ProxyConfig) (engine : AuthzEngine) : AppState :=
  { cfg, engine
    jwt := ⟨cfg.identity.jwtHmacSecret, cfg.identity.jwksUrl, cfg.mode = .production⟩ }

variable {E : Engine}

/-- Fail with an error of the proxy. -/
def Handler.error {α : Type} (e : ProxyError) : Handler α := Eff.fail (.error e)

/-- Change the metrics. -/
def Handler.count (f : Metrics → Metrics) : Handler Unit :=
  Eff.modify fun w => { w with metrics := f w.metrics }

@[simp] theorem count_tick (f : Metrics → Metrics) (w : World) :
    (Handler.count f w).state.tick = w.tick := rfl

theorem count_bind {α : Type} (f : Metrics → Metrics) (m : Handler α) (w : World) :
    (Handler.count f >>= fun _ => m) w = m { w with metrics := f w.metrics } := rfl

/-- `resolve_principal` in a handler. -/
def resolve (env : ProxyEnv E) (st : AppState) (headers : HeaderMap) : Handler Principal := fun w =>
  let r := resolvePrincipal env.jwt headers st.cfg st.jwt w.cache (env.clock w.tick)
  ⟨mapErr .error r.1, { w with tick := w.tick + 1, cache := r.2 }, []⟩

/-- The decision on a loaded bundle. -/
def AuthzEngine.decide (eng : AuthzEngine) (hot : HotBundle E) (fresh : Fresh)
    (req : AuthzRequest) : Except (Halt ProxyError) AuthzDecision :=
  if eng.requireSigned && hot.policySignature.isNone then
    .error (.error (.notReady "unsigned policy bundle rejected"))
  else mapErr (Halt.mapError fun e => .badRequest e.toText)
    (evaluate E fresh req hot.toEvaluatorConfig)

/-- The record that a decision leaves in the store, if there is one. -/
def AuthzEngine.auditEvents (eng : AuthzEngine) (d : AuthzDecision) (latencyMs : Nat)
    (keyId : Option String) : List Event :=
  if eng.hasStore then [.audited d latencyMs keyId] else []

/-- `AuthzEngine::check`. -/
def AuthzEngine.check (env : ProxyEnv E) (eng : AuthzEngine) (req : AuthzRequest) :
    Handler AuthzDecision := fun w =>
  let hot := env.bundle w.tick
  let r := eng.decide hot (env.fresh w.tick) req
  let events := match r with
    | .ok d => eng.auditEvents d (env.latencyMs w.tick) hot.signatureKeyId ++ [.checked req d]
    | .error _ => []
  ⟨r, { w with tick := w.tick + 1 }, events⟩

theorem check_result (env : ProxyEnv E) (eng : AuthzEngine) (req : AuthzRequest) (w : World) :
    (eng.check env req w).result = eng.decide (env.bundle w.tick) (env.fresh w.tick) req := rfl

/-- A check that fails emits nothing. -/
theorem check_error {env : ProxyEnv E} {eng : AuthzEngine} {req : AuthzRequest} {w : World}
    {e : Halt ProxyError}
    (h : eng.decide (env.bundle w.tick) (env.fresh w.tick) req = .error e) :
    eng.check env req w = ⟨.error e, { w with tick := w.tick + 1 }, []⟩ := by
  simp only [AuthzEngine.check, h]

/-- A check that decides leaves its record first. -/
theorem check_ok {env : ProxyEnv E} {eng : AuthzEngine} {req : AuthzRequest} {w : World}
    {d : AuthzDecision} (h : eng.decide (env.bundle w.tick) (env.fresh w.tick) req = .ok d) :
    eng.check env req w = ⟨.ok d, { w with tick := w.tick + 1 },
      eng.auditEvents d (env.latencyMs w.tick) (env.bundle w.tick).signatureKeyId ++
        [.checked req d]⟩ := by
  simp only [AuthzEngine.check, h]

/-- What a check emits is audit records and checks. -/
theorem emits_check (env : ProxyEnv E) (eng : AuthzEngine) (req : AuthzRequest) :
    (eng.check env req).Emits fun e =>
      (∃ d, e = .checked req d) ∨ ∃ d ms key, e = .audited d ms key := by
  intro w e he
  cases h : eng.decide (env.bundle w.tick) (env.fresh w.tick) req with
  | error err =>
      rw [check_error h] at he
      cases he
  | ok d =>
      rw [check_ok h, AuthzEngine.auditEvents] at he
      rcases List.mem_append.1 he with he | he
      · split at he
        · exact Or.inr ⟨d, _, _, List.mem_singleton.1 he⟩
        · cases he
      · exact Or.inl ⟨d, List.mem_singleton.1 he⟩

end Paac
