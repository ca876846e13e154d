import Paac.Policy.Lifecycle
import Paac.Proxy.State

set_option autoImplicit false

/-!
# Start-up

`AuthzEngine::from_config` loads the deployed revision. Where a signature is demanded, the revision
needs a bundle, and the bundle is verified if the key file gives a key. The result of the
verification is dropped unless it is an error, and the text that is evaluated is the one of the
revision, not the one of the bundle.

Start-up is a program on the store, with faults at any access, whose success is characterised stage
by stage. A revision is unguarded when its check passes although no trusted signature covers its
text: there is no key, or the verification answers that the bundle is not valid, or the revision
outside the bundle has another id or another Cedar text. The gate holds exactly when no such
revision is loaded.

## Main results

- `loadDeployed_ok`, `policySetFromDeployed_ok`: what each stage of the start succeeds with.
- `fromConfig_ok`: when the engine starts, and with which policies.
- `starts_unguarded`, `not_unguarded_of_gate`: what the start checks of a revision and what not.
- `integrity_gate_iff`: for every disk and key file, when the gate keeps out what it should.
- `tampered_revision_starts`: a revision whose Cedar text was replaced starts.
-/

namespace Paac

open Cedar (Engine)

/-! ## The surroundings -/

/-- The store, and what start-up reads besides. -/
structure StartEnv (E : Engine) where
  store : StoreEnv E
  /-- `read_to_string` of `data/keys/signing.json` -/
  keyFile : Except String String
  /-- `serde_json::from_str` of a key pair -/
  parseKeyPair : String → Except String SigningKeyPair
  /-- `load_catalog` -/
  loadCatalog : String → Except String ResourceCatalog
  /-- `PaacStore::open` -/
  openSqlite : String → Except String Unit

/-- A step of start-up. -/
abbrev Startup (α : Type) : Type := Eff (Abort ProxyError) StoreWorld Empty α

/-- The result of an operation of the store; a stop is passed on. -/
def Startup.attempt {α : Type} (m : StoreOp α) : Startup (Except PolicyError α) := fun w =>
  match m w with
  | ⟨.ok a, w', es⟩ => ⟨.ok (.ok a), w', es⟩
  | ⟨.error (.error e), w', es⟩ => ⟨.ok (.error e), w', es⟩
  | ⟨.error .stopped, w', es⟩ => ⟨.error .stopped, w', es⟩

/-- Fail with an error of the proxy. -/
def Startup.ofResult {α : Type} (r : Except ProxyError α) : Startup α := Eff.lift (mapErr .error r)

/-- An error of the policy crate means that the proxy is not ready. -/
def notReady {α : Type} (r : Except PolicyError α) : Except ProxyError α :=
  mapErr (fun e => .notReady e.toText) r

section

variable {E : Engine} (env : StartEnv E)

/-! ## The checks -/

/-- A signed bundle is demanded. -/
def ProxyConfig.demandsSignature (cfg : ProxyConfig) : Bool :=
  cfg.requireSignedBundle || cfg.mode = .production

/-- The public key of the key file, if it can be read and parsed and holds a secret key. -/
def StartEnv.trustedKey : Option Bytes :=
  match env.keyFile with
  | .error _ => none
  | .ok keyData =>
      match env.parseKeyPair keyData with
      | .error _ => none
      | .ok pair =>
          match LocalEd25519Signer.fromKeypair env.store.crypto pair with
          | .error _ => none
          | .ok s => some (s.signer env.store.crypto).verifyingKeyBytes

/-- The check of the deployed revision; without a key nothing is verified. -/
def checkDeployed (cfg : ProxyConfig) (rev : PolicyRevision) : Except ProxyError Unit :=
  if cfg.demandsSignature then
    match rev.bundle with
    | none => .error (.notReady "deployed revision has no signature")
    | some bundle =>
        match env.trustedKey with
        | none => .ok ()
        | some key =>
            match verifyBundle env.store.crypto bundle key with
            -- also when the digest in the bundle is not the one of its text
            | .ok _ => .ok ()
            | .error e => .error (.notReady ("bundle signature invalid: " ++ e.toText))
  else .ok ()

/-- The catalog, or an empty one. -/
def StartEnv.catalog (cfg : ProxyConfig) : ResourceCatalog :=
  match env.loadCatalog cfg.catalogPath with
  | .ok catalog => catalog
  | .error _ => ⟨"", [], []⟩

/-- Is a store for records opened? -/
def StartEnv.openRecords : Option String → Except ProxyError Bool
  | none => .ok false
  | some path => mapErr .internal (env.openSqlite path >>= fun _ => .ok true)

/-- The bundle made from the deployed revision. -/
def hotBundle (set : E.PolicySet) (rev : PolicyRevision) : HotBundle E :=
  { policySet := set
    policyRevision := rev.revision
    policySignature := rev.bundle.map (·.keyId)
    signatureKeyId := rev.bundle.map (·.keyId)
    contentSha256 := rev.bundle.map (·.contentSha256)
    groupMembers := IndexMap.empty }

/-- The start from the active text, for development. -/
def devFallback (cfg : ProxyConfig) (sqlitePath : Option String) :
    Startup (AuthzEngine × HotBundle E) := do
  let dsl ← Startup.attempt (readActiveDsl env.store)
  let dsl ← Startup.ofResult (notReady dsl)
  let policies ← Startup.ofResult (notReady (validateDsl E dsl))
  let set ← Startup.ofResult (notReady (cedarPolicySetFromDsl E policies))
  -- here such an error is dropped
  let hasStore := match env.openRecords sqlitePath with
    | .ok opened => opened
    | .error _ => false
  return (⟨env.catalog cfg, hasStore, false, cfg.mode⟩,
    ⟨set, "dev-unsigned", none, none, none, IndexMap.empty⟩)

/-- `AuthzEngine::from_config`, with the bundle the cache begins with. The row that is written to
the store for records, and whose errors are dropped, is left out. -/
def fromConfig (cfg : ProxyConfig) (sqlitePath : Option String) :
    Startup (AuthzEngine × HotBundle E) := do
  let opened ← Startup.attempt (openStore env.store)
  Startup.ofResult (notReady opened)
  match ← Startup.attempt (policySetFromDeployed env.store) with
  | .error e =>
      -- where a signature is demanded the active text is no substitute
      if cfg.demandsSignature then
        Eff.fail (.error (.notReady ("signed deployed bundle required: " ++ e.toText)))
      else devFallback env cfg sqlitePath
  | .ok (set, rev) => do
      Startup.ofResult (checkDeployed env cfg rev)
      -- an error of the store for records ends the start
      let hasStore ← Startup.ofResult (env.openRecords sqlitePath)
      return (⟨env.catalog cfg, hasStore, cfg.requireSignedBundle, cfg.mode⟩, hotBundle set rev)

/-! ## What start-up loads -/

section

variable {env} {cfg : ProxyConfig} {sqlitePath : Option String} {w : StoreWorld}

theorem attempt_ok_ok {α : Type} {m : StoreOp α} {a : α} :
    (Startup.attempt m w).result = .ok (.ok a) ↔ (m w).result = .ok a := by
  unfold Startup.attempt
  rcases m w with ⟨r, w', es⟩
  cases r with
  | ok b => simp
  | error e => cases e <;> simp

theorem attempt_state {α : Type} (m : StoreOp α) : (Startup.attempt m w).state = (m w).state := by
  unfold Startup.attempt
  rcases m w with ⟨r, w', es⟩
  cases r with
  | ok b => rfl
  | error e => cases e <;> rfl

theorem access_ok {store : StoreEnv E} {u : Unit} :
    (access store w).result = .ok u ↔ store.fault w.tick = none := by
  unfold access
  cases store.fault w.tick <;> simp

theorem access_state {store : StoreEnv E} :
    (access store w).state = { w with tick := w.tick + 1 } := by
  unfold access
  cases store.fault w.tick <;> rfl

/-- The store opens when none of three accesses fails. -/
theorem openStore_ok {store : StoreEnv E} :
    (openStore store w).result = .ok () ↔ ∀ k < 3, store.fault (w.tick + k) = none := by
  simp only [openStore, Eff.bind_result_ok, access_ok, access_state, exists_const]
  constructor
  · rintro ⟨h₀, h₁, h₂⟩ k hk
    interval_cases k
    · exact h₀
    · exact h₁
    · exact h₂
  · intro h
    exact ⟨h 0 (by decide), h 1 (by decide), h 2 (by decide)⟩

theorem openStore_state {store : StoreEnv E} (h : (openStore store w).result = .ok ()) :
    (openStore store w).state = { w with tick := w.tick + 3 } := by
  have hfault := openStore_ok.1 h
  have hstep : ∀ w' : StoreWorld, store.fault w'.tick = none →
      access store w' = ⟨.ok (), { w' with tick := w'.tick + 1 }, []⟩ := by
    intro w' hw'
    simp only [access, hw']
  have h₀ := hstep w (hfault 0 (by decide))
  have h₁ := hstep ⟨w.disk, w.tick + 1⟩ (hfault 1 (by decide))
  have h₂ := hstep ⟨w.disk, w.tick + 1 + 1⟩ (hfault 2 (by decide))
  simp only [openStore, Eff.bind_apply, h₀, h₁, h₂, Eff.after_nil]

theorem fileExists_ok {store : StoreEnv E} {path : StorePath} :
    (fileExists store path w).result = .ok true ↔
      store.fault w.tick = none ∧ (w.disk path).isSome = true := by
  unfold fileExists
  cases store.fault w.tick with
  | some f => cases f <;> simp
  | none => simp

theorem fileExists_state {store : StoreEnv E} {path : StorePath} :
    (fileExists store path w).state = { w with tick := w.tick + 1 } := by
  unfold fileExists
  cases store.fault w.tick with
  | some f => cases f <;> rfl
  | none => rfl

/-- A text is read when it is there and the access does not fail. -/
theorem readToString_ok {store : StoreEnv E} {path : StorePath} {text : String} :
    (readToString store path w).result = .ok text ↔
      store.fault w.tick = none ∧ w.disk path = some text := by
  rw [readToString, Eff.bind_result_ok]
  simp only [access_ok, access_state, exists_const, fileText, Disk.text]
  refine and_congr_right fun _ => ?_
  split
  · rename_i text' htext
    rw [htext, Except.ok.injEq, Option.some.injEq]
  · rename_i hnone
    rw [hnone]
    simp

/-- When a deployed revision is loaded. -/
theorem loadDeployed_ok {store : StoreEnv E} {rev : PolicyRevision} :
    (loadDeployed store w).result = .ok (some rev) ↔
      store.fault w.tick = none ∧ store.fault (w.tick + 1) = none ∧
        ∃ text, w.disk .deployed = some text ∧ store.fromJson text = .ok rev := by
  -- the second access reads the text
  have hread : ∀ w' : StoreWorld, ((do
      let data ← readToString store .deployed
      let rev ← StoreOp.ofResult (mapErr .store (store.fromJson data))
      return some rev : StoreOp (Option PolicyRevision)) w').result = .ok (some rev) ↔
        store.fault w'.tick = none ∧
          ∃ text, w'.disk .deployed = some text ∧ store.fromJson text = .ok rev := by
    intro w'
    simp only [Eff.bind_result_ok, readToString_ok, StoreOp.ofResult, Eff.lift_apply,
      mapErr_eq_ok, Eff.pure_apply, Except.ok.injEq, Option.some.injEq, exists_eq_right,
      and_assoc, exists_and_left]
  rw [loadDeployed, Eff.bind_result_ok]
  constructor
  · rintro ⟨found, hfound, h⟩
    cases found with
    | false => cases h
    | true =>
        rw [if_pos rfl, hread, fileExists_state] at h
        exact ⟨(fileExists_ok.1 hfound).1, h⟩
  · rintro ⟨h₀, h⟩
    obtain ⟨text, htext, -⟩ := h.2
    refine ⟨true, fileExists_ok.2 ⟨h₀, by rw [htext]; rfl⟩, ?_⟩
    rw [if_pos rfl, hread, fileExists_state]
    exact h

/-- The deployed policies are the ones compiled from the Cedar text of the deployed file. -/
theorem policySetFromDeployed_ok {store : StoreEnv E} {set : E.PolicySet} {rev : PolicyRevision} :
    (policySetFromDeployed store w).result = .ok (set, rev) ↔
      (store.fault w.tick = none ∧ store.fault (w.tick + 1) = none ∧
        ∃ text, w.disk .deployed = some text ∧ store.fromJson text = .ok rev) ∧
        E.policySetFromStr rev.cedar = .ok set := by
  rw [policySetFromDeployed, Eff.bind_result_ok, ← loadDeployed_ok]
  constructor
  · rintro ⟨loaded, hloaded, h⟩
    cases loaded with
    | none => cases h
    | some rev' =>
        simp only [Eff.bind_result_ok, StoreOp.ofResult, Eff.lift_apply, mapErr_eq_ok,
          Eff.pure_apply, Except.ok.injEq, Prod.mk.injEq] at h
        obtain ⟨set', hset, rfl, rfl⟩ := h
        exact ⟨hloaded, hset⟩
  · rintro ⟨hloaded, hset⟩
    refine ⟨some rev, hloaded, ?_⟩
    simp only [Eff.bind_result_ok, StoreOp.ofResult, Eff.lift_apply, mapErr_eq_ok,
      Eff.pure_apply]
    exact ⟨set, hset, rfl⟩

/-- Start-up loads this revision: no access to the disk fails, the deployed file holds the revision
and its Cedar text is a policy set. -/
def LoadsDeployed (store : StoreEnv E) (w : StoreWorld) (set : E.PolicySet)
    (rev : PolicyRevision) : Prop :=
  (∀ k < 5, store.fault (w.tick + k) = none) ∧
    (∃ text, w.disk .deployed = some text ∧ store.fromJson text = .ok rev) ∧
    E.policySetFromStr rev.cedar = .ok set

theorem ofResult_ok {α : Type} {r : Except ProxyError α} {a : α} :
    (Startup.ofResult r w).result = .ok a ↔ r = .ok a := mapErr_eq_ok _ _ _

theorem ofResult_state {α : Type} (r : Except ProxyError α) :
    (Startup.ofResult r w).state = w := rfl

/-- The part of start-up behind the opened store. -/
theorem fromConfig_opened {r : AuthzEngine × HotBundle E} :
    (fromConfig env cfg sqlitePath w).result = .ok r ↔
      (∀ k < 3, env.store.fault (w.tick + k) = none) ∧
        ∃ loaded, (Startup.attempt (policySetFromDeployed env.store)
          { w with tick := w.tick + 3 }).result = .ok loaded ∧
          ((match loaded with
            | .error e =>
                if cfg.demandsSignature then
                  Eff.fail (.error (.notReady ("signed deployed bundle required: " ++ e.toText)))
                else devFallback env cfg sqlitePath
            | .ok (set, rev) => do
                Startup.ofResult (checkDeployed env cfg rev)
                let hasStore ← Startup.ofResult (env.openRecords sqlitePath)
                return (⟨env.catalog cfg, hasStore, cfg.requireSignedBundle, cfg.mode⟩,
                  hotBundle set rev) : Startup (AuthzEngine × HotBundle E))
            (Startup.attempt (policySetFromDeployed env.store)
              { w with tick := w.tick + 3 }).state).result = .ok r := by
  rw [fromConfig, Eff.bind_result_ok, ← openStore_ok]
  constructor
  · rintro ⟨opened, hopen, h⟩
    rw [Eff.bind_result_ok] at h
    obtain ⟨⟨⟩, hready, h⟩ := h
    -- a store that does not open ends the start
    obtain rfl : opened = .ok () := by
      rw [ofResult_ok, notReady, mapErr_eq_ok] at hready
      exact hready
    have hopened := attempt_ok_ok.1 hopen
    rw [ofResult_state, attempt_state, openStore_state hopened, Eff.bind_result_ok] at h
    exact ⟨hopened, h⟩
  · rintro ⟨hopened, h⟩
    refine ⟨.ok (), attempt_ok_ok.2 hopened, ?_⟩
    rw [Eff.bind_result_ok]
    refine ⟨(), rfl, ?_⟩
    rw [ofResult_state, attempt_state, openStore_state hopened, Eff.bind_result_ok]
    exact h

/-- **When a start that demands a signature succeeds**: a revision is loaded and passes its check,
and the store for records opens. -/
theorem fromConfig_ok (hgate : cfg.demandsSignature = true) {r : AuthzEngine × HotBundle E} :
    (fromConfig env cfg sqlitePath w).result = .ok r ↔
      ∃ set rev, LoadsDeployed env.store w set rev ∧ checkDeployed env cfg rev = .ok () ∧
        ∃ hasStore, env.openRecords sqlitePath = .ok hasStore ∧
          r = (⟨env.catalog cfg, hasStore, cfg.requireSignedBundle, cfg.mode⟩,
            hotBundle set rev) := by
  -- three accesses open the store and two read the deployed revision
  have hfaults : ∀ fault : Nat → Option Fault, (∀ k < 5, fault (w.tick + k) = none) ↔
      (∀ k < 3, fault (w.tick + k) = none) ∧ fault (w.tick + 3) = none ∧
        fault (w.tick + 3 + 1) = none := by
    intro fault
    refine ⟨fun h => ⟨fun k hk => h k (by omega), h 3 (by decide), h 4 (by decide)⟩, ?_⟩
    rintro ⟨h, h₃, h₄⟩ k hk
    rcases Nat.lt_or_ge k 3 with hk' | hk'
    · exact h k hk'
    · rcases Nat.lt_or_ge k 4 with hk'' | hk''
      · obtain rfl : k = 3 := by omega
        exact h₃
      · obtain rfl : k = 4 := by omega
        exact h₄
  rw [fromConfig_opened]
  simp only [LoadsDeployed, hfaults]
  constructor
  · rintro ⟨hopened, loaded, hloaded, h⟩
    cases loaded with
    | error e =>
        dsimp only at h
        rw [if_pos hgate] at h
        cases h
    | ok found =>
        obtain ⟨set, rev⟩ := found
        obtain ⟨⟨h₃, h₄, htext⟩, hset⟩ := policySetFromDeployed_ok.1 (attempt_ok_ok.1 hloaded)
        simp only [Eff.bind_result_ok, ofResult_ok, ofResult_state, Eff.pure_apply] at h
        obtain ⟨⟨⟩, hcheck, hasStore, hstore, hr⟩ := h
        exact ⟨set, rev, ⟨⟨hopened, h₃, h₄⟩, htext, hset⟩, hcheck, hasStore, hstore,
          (Except.ok.inj hr).symm⟩
  · rintro ⟨set, rev, ⟨⟨hopened, h₃, h₄⟩, htext, hset⟩, hcheck, hasStore, hstore, rfl⟩
    refine ⟨hopened, .ok (set, rev), ?_, ?_⟩
    · exact attempt_ok_ok.2 (policySetFromDeployed_ok.2 ⟨⟨h₃, h₄, htext⟩, hset⟩)
    · simp only [Eff.bind_result_ok, ofResult_ok, ofResult_state, Eff.pure_apply]
      exact ⟨(), hcheck, hasStore, hstore, rfl⟩

/-! ## The gate -/

/-- If start-up succeeds, the text it evaluates is the one of the deployed bundle, under the same
revision, and the bundle verifies under the trusted key. -/
def IntegrityGate (env : StartEnv E) (cfg : ProxyConfig) (sqlitePath : Option String)
    (w : StoreWorld) : Prop :=
  ∀ engine hot, (fromConfig env cfg sqlitePath w).result = .ok (engine, hot) →
    ∃ rev b key, (∃ text, w.disk .deployed = some text ∧ env.store.fromJson text = .ok rev) ∧
      E.policySetFromStr rev.cedar = .ok hot.policySet ∧ hot.policyRevision = rev.revision ∧
      rev.bundle = some b ∧ env.trustedKey = some key ∧
      verifyBundle env.store.crypto b key = .ok true ∧
      rev.cedar = b.cedar ∧ rev.revision = b.revision

/-- The check passes the revision although no trusted signature covers its text: there is no key, or
the signature does not verify, or the bundle is one of another text or revision. -/
def Unguarded (env : StartEnv E) (rev : PolicyRevision) (b : SignedBundle) : Prop :=
  env.trustedKey = none ∨
    ∃ key valid, env.trustedKey = some key ∧ verifyBundle env.store.crypto b key = .ok valid ∧
      (valid = false ∨ rev.cedar ≠ b.cedar ∨ rev.revision ≠ b.revision)

/-- The check of a revision passes when it has a bundle and verifying it is no error. -/
theorem checkDeployed_ok (hgate : cfg.demandsSignature = true) {rev : PolicyRevision} :
    checkDeployed env cfg rev = .ok () ↔ ∃ b, rev.bundle = some b ∧
      ∀ key, env.trustedKey = some key → ∃ valid, verifyBundle env.store.crypto b key = .ok valid := by
  rw [checkDeployed, if_pos hgate]
  cases hbundle : rev.bundle with
  | none => simp
  | some b =>
      cases hkey : env.trustedKey with
      | none => simp
      | some key =>
          cases hverify : verifyBundle env.store.crypto b key with
          | error e => simp [hverify]
          | ok valid => simp [hverify]

/-- An unguarded revision starts the proxy. -/
theorem starts_unguarded (hgate : cfg.demandsSignature = true) {set : E.PolicySet}
    {rev : PolicyRevision} {b : SignedBundle} (hloads : LoadsDeployed env.store w set rev)
    (hbundle : rev.bundle = some b) {hasStore : Bool}
    (hstore : env.openRecords sqlitePath = .ok hasStore) (h : Unguarded env rev b) :
    (fromConfig env cfg sqlitePath w).result = .ok
      (⟨env.catalog cfg, hasStore, cfg.requireSignedBundle, cfg.mode⟩, hotBundle set rev) := by
  refine (fromConfig_ok hgate).2 ⟨set, rev, hloads, ?_, hasStore, hstore, rfl⟩
  refine (checkDeployed_ok hgate).2 ⟨b, hbundle, fun key hkey => ?_⟩
  rcases h with hnone | ⟨key', valid, hkey', hverify, -⟩
  · rw [hnone] at hkey
    cases hkey
  · obtain rfl := Option.some.inj (hkey.symm.trans hkey')
    exact ⟨valid, hverify⟩

/-- No gate lets an unguarded revision through. -/
theorem not_unguarded_of_gate (hgate : cfg.demandsSignature = true)
    (h : IntegrityGate env cfg sqlitePath w) {set : E.PolicySet} {rev : PolicyRevision}
    {b : SignedBundle} (hloads : LoadsDeployed env.store w set rev)
    (hbundle : rev.bundle = some b) {hasStore : Bool}
    (hstore : env.openRecords sqlitePath = .ok hasStore) : ¬Unguarded env rev b := by
  intro hunguarded
  obtain ⟨rev', b', key, ⟨text, htext, hrev'⟩, -, -, hbundle', hkey, hverify, hcedar, hrevision⟩ :=
    h _ _ (starts_unguarded hgate hloads hbundle hstore hunguarded)
  obtain ⟨text', htext', hrev⟩ := hloads.2.1
  obtain rfl := Option.some.inj (htext.symm.trans htext')
  obtain rfl := Except.ok.inj (hrev.symm.trans hrev')
  obtain rfl := Option.some.inj (hbundle.symm.trans hbundle')
  rcases hunguarded with hnone | ⟨key', valid, hkey', hvalid, hbad⟩
  · rw [hnone] at hkey
    cases hkey
  · obtain rfl := Option.some.inj (hkey.symm.trans hkey')
    obtain rfl := Except.ok.inj (hverify.symm.trans hvalid)
    rcases hbad with hfalse | hcedar' | hrevision'
    · cases hfalse
    · exact hcedar' hcedar
    · exact hrevision' hrevision

/-- **When the integrity gate holds**, where a signature is demanded: exactly when no unguarded
revision is loaded while the store for records opens. -/
theorem integrity_gate_iff (env : StartEnv E) (cfg : ProxyConfig) (sqlitePath : Option String)
    (w : StoreWorld) (hgate : cfg.mode = .production ∨ cfg.requireSignedBundle = true) :
    IntegrityGate env cfg sqlitePath w ↔
      ∀ set rev b, LoadsDeployed env.store w set rev → rev.bundle = some b →
        (∃ hasStore, env.openRecords sqlitePath = .ok hasStore) → ¬Unguarded env rev b := by
  have hdemands : cfg.demandsSignature = true := by
    rcases hgate with h | h <;> simp [ProxyConfig.demandsSignature, h]
  constructor
  · rintro h set rev b hloads hbundle ⟨hasStore, hstore⟩
    exact not_unguarded_of_gate hdemands h hloads hbundle hstore
  · intro h engine hot hstart
    obtain ⟨set, rev, hloads, hcheck, hasStore, hstore, hr⟩ := (fromConfig_ok hdemands).1 hstart
    obtain ⟨b, hbundle, hverify⟩ := (checkDeployed_ok hdemands).1 hcheck
    have hguarded := h set rev b hloads hbundle ⟨hasStore, hstore⟩
    rw [Unguarded, not_or] at hguarded
    obtain ⟨key, hkey⟩ := Option.ne_none_iff_exists'.1 hguarded.1
    obtain ⟨valid, hvalid⟩ := hverify key hkey
    have hgood : valid = true ∧ rev.cedar = b.cedar ∧ rev.revision = b.revision := by
      by_contra hbad
      refine hguarded.2 ⟨key, valid, hkey, hvalid, ?_⟩
      rw [not_and_or, not_and_or, Bool.not_eq_true] at hbad
      exact hbad
    obtain ⟨rfl, hcedar, hrevision⟩ := hgood
    obtain ⟨-, rfl⟩ := Prod.mk.inj hr
    exact ⟨rev, b, key, hloads.2.1, hloads.2.2, rfl, hbundle, hkey, hvalid, hcedar, hrevision⟩

end

end

/-! ## A tampered deployment -/

namespace TamperedStart

open KnownRevision KnownStore

/-- A policy that permits everything. -/
def permitAll : String := "permit(principal, action, resource);"

/-- The deployed revision with its Cedar text replaced, also inside its bundle. -/
def tampered : PolicyRevision :=
  { signed with cedar := permitAll, bundle := some { bundle with cedar := permitAll } }

def keyData : String :=
  recordText "" [("key_id", Json.quote "k1"), ("secret_hex", Json.quote secretHex),
    ("public_hex", Json.quote (Hex.encode publicKey.1))]

/-- The surroundings with the key file of the signer. -/
def env : StartEnv Cedar.Engine.reference where
  store :=
    { KnownStore.env with
      fromJson := fun text =>
        if text = revisionText permitAll (bundleText permitAll) then .ok tampered
        else KnownStore.env.fromJson text }
  keyFile := .ok keyData
  parseKeyPair text :=
    if text = keyData then .ok ⟨"k1", secretHex, Hex.encode publicKey.1⟩
    else .error "expected value at line 1 column 1"
  loadCatalog _ := .error "No such file or directory (os error 2)"
  openSqlite _ := .error "unable to open database file"

/-- A production proxy. -/
def cfg : ProxyConfig :=
  { mode := .production
    requireSignedBundle := true
    policyDir := "data/policies"
    catalogPath := "data/catalog/company_resources.yaml"
    upstream := ⟨"http://localhost", none⟩
    identity := ⟨none, none, false, 300⟩
    connectors := ⟨false, none⟩ }

/-- A store with that deployed file. -/
def world (text : String) : StoreWorld :=
  ⟨Disk.write (fun _ => none) .deployed text, 0⟩

theorem world_deployed (text : String) : (world text).disk .deployed = some text :=
  Disk.write_same (fun _ => none) .deployed text

theorem trustedKey_env : env.trustedKey = some publicKey.1 := by decide +kernel

end TamperedStart

/-- The gate holds for the revision that was signed and deployed. -/
theorem integrity_gate_signed :
    IntegrityGate TamperedStart.env TamperedStart.cfg none
      (TamperedStart.world (KnownStore.revisionText KnownRevision.cedar
        (KnownStore.bundleText KnownRevision.cedar))) := by
  refine (integrity_gate_iff _ _ _ _ (Or.inl rfl)).2 fun set rev b hloads hbundle _ => ?_
  obtain ⟨text, htext, hrev⟩ := hloads.2.1
  have hfile : TamperedStart.env.store.fromJson (KnownStore.revisionText KnownRevision.cedar
      (KnownStore.bundleText KnownRevision.cedar)) = .ok KnownStore.signed := by decide +kernel
  have hverify : verifyBundle KnownRevision.lib KnownRevision.bundle
      KnownRevision.publicKey.1 = .ok true := by decide +kernel
  rw [TamperedStart.world_deployed, Option.some.injEq] at htext
  rw [← htext, hfile] at hrev
  obtain rfl := Except.ok.inj hrev
  obtain rfl : KnownRevision.bundle = b := Option.some.inj hbundle
  rintro (hnone | ⟨key, valid, hkey, hvalid, hbad⟩)
  · rw [TamperedStart.trustedKey_env] at hnone
    cases hnone
  · obtain rfl := Option.some.inj (TamperedStart.trustedKey_env.symm.trans hkey)
    obtain rfl := Except.ok.inj (hverify.symm.trans hvalid)
    rcases hbad with hfalse | hcedar | hrevision
    · cases hfalse
    · exact hcedar rfl
    · exact hrevision rfl

/-- A revision whose Cedar text was replaced starts the proxy, and its signature is wrong. -/
theorem tampered_revision_starts :
    ¬IntegrityGate TamperedStart.env TamperedStart.cfg none
      (TamperedStart.world (KnownStore.revisionText TamperedStart.permitAll
        (KnownStore.bundleText TamperedStart.permitAll))) := by
  intro h
  have hfile : TamperedStart.env.store.fromJson (KnownStore.revisionText TamperedStart.permitAll
      (KnownStore.bundleText TamperedStart.permitAll)) = .ok TamperedStart.tampered := by
    decide +kernel
  have hverify : verifyBundle KnownRevision.lib { KnownRevision.bundle with
      cedar := TamperedStart.permitAll } KnownRevision.publicKey.1 = .ok false := by
    decide +kernel
  have hloads : LoadsDeployed TamperedStart.env.store
      (TamperedStart.world (KnownStore.revisionText TamperedStart.permitAll
        (KnownStore.bundleText TamperedStart.permitAll)))
      [⟨[], .permit, none, []⟩] TamperedStart.tampered :=
    ⟨fun _ _ => rfl, ⟨_, TamperedStart.world_deployed _, hfile⟩, by rfl⟩
  exact not_unguarded_of_gate (by decide) h hloads rfl rfl
    (Or.inr ⟨_, false, TamperedStart.trustedKey_env, hverify, Or.inl rfl⟩)

end Paac
