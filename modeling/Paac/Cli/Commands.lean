import Paac.Bridge.Bind
import Paac.Core.Evaluate
import Paac.Identity.Snapshot
import Paac.Policy.Interleaved
import Paac.Suggest.Audit

set_option autoImplicit false

/-!
# The command line

Each command of `authz` is one process: it opens the store, does its work, and ends with a result,
with an error, or stopped before an access to the disk. `policy sign` makes a key at its first use
and reads it from then on; `identity sync` stores the snapshot from which a later `check` takes the
members of the groups.

The store, the key file and the snapshot are parts of one world. An operation of the store runs in
it as a program on its part (`CliOp.ofStore`), and so do readings of the clock and of the generator
of keys, so the lemmas on the parts carry over to the commands. Accesses to all files are counted by
one counter, and the faults of the disk are a function of it.

The definitions follow `main.rs` command by command, with the context that is put in front of an
error. A check reads its request from its flags or from an utterance, ignores an error of the audit
log as the source does, and ends with exit code 2 for a denial. A run (`runCommands`) is any list of
commands and edits of the active text, each of which may fail or be stopped.
-/

namespace Paac

open Cedar (Engine)

/-! ## State -/

/-- What a command ends with instead of a result; a context is put in front of an error. -/
inductive CliError where
  | policy (e : PolicyError)
  | context (text : String) (e : PolicyError)
  | io (e : String)
  | json (e : Serde.Error)
  | identity (e : String)
  | bridge (e : BridgeError)
  | authz (e : AuthzError)
  | panicked (text : String)
  deriving DecidableEq, Repr

/-- The store, the key file, the stored snapshot and the audit log. -/
structure CliWorld where
  store : StoreWorld
  key : Option String
  snapshot : Option String
  log : AuditFile

/-- A command, or a part of one. -/
abbrev CliOp (α : Type) : Type := Eff (Abort CliError) CliWorld Empty α

/-- The libraries, the clock, the random numbers and the faults of the disk. -/
structure CliEnv (E : Engine) where
  crypto : CryptoLib
  /-- The text of an error of the JSON library. -/
  describe : Serde.Error → String
  /-- The regular expressions of the extraction. -/
  captures : String → String → Option String
  now : Nat → Instant
  /-- `OsRng` -/
  secret : Nat → FixedBytes 32
  fresh : Nat → Fresh
  fault : Nat → Option Fault

namespace CliEnv

/-- The store as the JSON library reads and writes its files. -/
def storeEnv {E : Engine} (env : CliEnv E) : StoreEnv E where
  crypto := env.crypto
  toJson := Serde.toPretty PolicyRevision.toJson
  fromJson text := mapErr env.describe (Serde.fromText PolicyRevision.fromJson text)
  now := env.now
  fault := env.fault

end CliEnv

def CliWorld.storePart : Part StoreWorld CliWorld where
  get := CliWorld.store
  set store w := { w with store }
  get_set _ _ := rfl

/-- How a command ends when the store does, with the error as the command shows it. -/
def StoreHalt.toCli (f : PolicyError → CliError) : StoreHalt → Abort CliError
  | .error e => .error (f e)
  | .stopped => .stopped

/-- An operation of the store in a command. -/
def CliOp.ofStore {α : Type} (f : PolicyError → CliError) (m : StoreOp α) : CliOp α :=
  m.within CliWorld.storePart (StoreHalt.toCli f)

/-- A result in a command. -/
def CliOp.ofResult {ε α : Type} (f : ε → CliError) (r : Except ε α) : CliOp α :=
  Eff.lift (mapErr (fun e => .error (f e)) r)

section

variable {E : Engine} (env : CliEnv E)

/-! ## Files beside the store -/

/-- An access to the disk. -/
def diskAccess : CliOp Unit := fun w =>
  let w' := { w with store.tick := w.store.tick + 1 }
  match env.fault w.store.tick with
  | some .stopped => ⟨.error .stopped, w', []⟩
  | some (.failed e) => ⟨.error (.error (.io e)), w', []⟩
  | none => ⟨.ok (), w', []⟩

/-- `Path::exists`; it is false when the file cannot be looked at. -/
def pathExists (file : CliWorld → Option String) : CliOp Bool := fun w =>
  let w' := { w with store.tick := w.store.tick + 1 }
  match env.fault w.store.tick with
  | some .stopped => ⟨.error .stopped, w', []⟩
  | some (.failed _) => ⟨.ok false, w', []⟩
  | none => ⟨.ok (file w).isSome, w', []⟩

/-- The text of a file that can be accessed. -/
def foundText (file : CliWorld → Option String) : CliOp String := fun w =>
  match file w with
  | some text => ⟨.ok text, w, []⟩
  | none => ⟨.error (.error (.io "No such file or directory (os error 2)")), w, []⟩

/-- `fs::read_to_string`. -/
def readText (file : CliWorld → Option String) : CliOp String := do
  diskAccess env
  foundText file

/-- `fs::write`. -/
def writeText (put : CliWorld → CliWorld) : CliOp Unit := do
  diskAccess env
  Eff.modify put

/-- A value of the surroundings, at its moment. -/
def sample {α : Type} (value : Nat → α) : CliOp α := fun w =>
  ⟨.ok (value w.store.tick), { w with store.tick := w.store.tick + 1 }, []⟩

/-! ## Keys -/

/-- `LocalEd25519Signer::generate`, with the random secret. -/
def LocalEd25519Signer.generate (crypto : CryptoLib) (keyId : String) (secret : FixedBytes 32) :
    LocalEd25519Signer × SigningKeyPair :=
  (⟨keyId, secret⟩, ⟨keyId, Hex.encode secret.1, Hex.encode (crypto.verifyingKey secret).1⟩)

/-- `ensure_key`. -/
def ensureKey : CliOp LocalEd25519Signer := do
  if ← pathExists env CliWorld.key then do
    let data ← readText env CliWorld.key
    let pair ← CliOp.ofResult .json (Serde.fromText SigningKeyPair.fromJson data)
    CliOp.ofResult .policy (LocalEd25519Signer.fromKeypair env.crypto pair)
  else do
    -- the directory of the key file
    diskAccess env
    let secret ← sample env.secret
    let (signer, pair) := LocalEd25519Signer.generate env.crypto "key-local-mvp" secret
    writeText env fun w => { w with key := some (Serde.toPretty SigningKeyPair.toJson pair) }
    return signer

/-! ## Commands on the store -/

/-- `policy_commit`. -/
def policyCommit (message : String) : CliOp PolicyRevision := do
  CliOp.ofStore .policy (openStore env.storeEnv)
  CliOp.ofStore .policy (commit env.storeEnv message)

/-- `policy_sign`. -/
def policySign : CliOp SignedBundle := do
  CliOp.ofStore .policy (openStore env.storeEnv)
  let signer ← ensureKey env
  CliOp.ofStore .policy (signHead env.storeEnv (signer.signer env.crypto))

/-- `policy_deploy`. -/
def policyDeploy : CliOp PolicyRevision := do
  CliOp.ofStore .policy (openStore env.storeEnv)
  CliOp.ofStore .policy (deployHead env.storeEnv)

/-! ## Identities and checks -/

/-- `identity_sync` without drafts, for what the adapter of the source returns. -/
def identitySync (fetched : Except String IdentitySnapshot) : CliOp Unit := do
  let snap ← CliOp.ofResult .identity fetched
  diskAccess env
  -- `save_snapshot`
  diskAccess env
  writeText env fun w => { w with snapshot := some (Serde.toPretty IdentitySnapshot.toJson snap) }

/-- The flags of a check. -/
structure CheckArgs where
  principal : String
  action : String
  resource : String
  subject : Option String
  role : List String
  subjectGroup : List String
  directReport : List String
  nl : Option String

/-- The request of the flags, or of the utterance. -/
def CheckArgs.request (captures : String → String → Option String) (args : CheckArgs) :
    Except BridgeError AuthzRequest :=
  match args.nl with
  | some utterance =>
      catalogAwareBuildRequest captures (Principal.withRoles args.principal args.role) none utterance
  | none => .ok
      { principal := Principal.withRoles args.principal args.role
        action := ⟨args.action⟩
        resource := ⟨args.resource, none, .empty⟩
        subject := args.subject.map fun id => ⟨id, "Employee", args.subjectGroup, .empty⟩
        context := ⟨.empty⟩
        relationships := args.directReport.map fun dr => ⟨.directReports, args.principal, dr⟩
        actingAs := none
        onBehalfOf := none }

/-- The members of the groups in the stored snapshot; without one there are none. -/
def storedMembers : CliOp (IndexMap (List String)) := do
  if ← pathExists env CliWorld.snapshot then do
    let data ← readText env CliWorld.snapshot
    let snap ← CliOp.ofResult .json (Serde.fromText IdentitySnapshot.fromJson data)
    return groupMembersMap snap
  else return .empty

/-- An evaluation that fails, and one that panics. -/
def CliError.ofHalt : Halt AuthzError → CliError
  | .error e => .authz e
  | .panic text => .panicked text

/-- `append_audit`, whose errors the command ignores. -/
def recordDecision (d : AuthzDecision) : CliOp Unit := fun w =>
  let w' := { w with store.tick := w.store.tick + 1 }
  match env.fault w.store.tick with
  | some .stopped => ⟨.error .stopped, w', []⟩
  | some (.failed _) => ⟨.ok (), w', []⟩
  | none => ⟨.ok (), { w' with log := appendAudit w.log d }, []⟩

/-- The exit code of a check. -/
def exitCode (d : AuthzDecision) : Nat := if d.effect = .deny then 2 else 0

/-- `check_cmd`: the decision that is shown, and the exit code. -/
def checkCmd (args : CheckArgs) : CliOp (AuthzDecision × Nat) := do
  let req ← CliOp.ofResult .bridge (args.request env.captures)
  CliOp.ofStore .policy (openStore env.storeEnv)
  let (set, rev) ← CliOp.ofStore
    (.context "no deployed policies — run: authz policy commit/sign/deploy")
    (policySetFromDeployed env.storeEnv)
  let groupMembers ← storedMembers env
  let fresh ← sample env.fresh
  let decision ← CliOp.ofResult .ofHalt
    (evaluate E fresh req ⟨set, rev.revision, rev.bundle.map (·.keyId), groupMembers⟩)
  recordDecision env decision
  return (decision, exitCode decision)

/-! ## Runs -/

/-- What a user does: an edit of the active text, or a command. -/
inductive CliCommand where
  | edit (dsl : String)
  | identitySync (fetched : Except String IdentitySnapshot)
  | commit (message : String)
  | sign
  | deploy
  | check (args : CheckArgs)

/-- The command, without its result. -/
def CliCommand.run : CliCommand → CliOp Unit
  | .edit dsl => CliOp.ofStore .policy (writeActiveDsl env.storeEnv dsl)
  | .identitySync fetched => Paac.identitySync env fetched
  | .commit message => do
      let _ ← policyCommit env message
      return ()
  | .sign => do
      let _ ← policySign env
      return ()
  | .deploy => do
      let _ ← policyDeploy env
      return ()
  | .check args => do
      let _ ← checkCmd env args
      return ()

/-- The commands one after the other, each of which may fail or stop. -/
def runCommands (commands : List CliCommand) (w : CliWorld) : CliWorld :=
  commands.foldl (fun w command => (command.run env w).state) w

/-- Nothing but, perhaps, an active text. -/
def CliWorld.initial (seed : Option String) (start : Nat) : CliWorld :=
  ⟨⟨fun | .active => seed | _ => none, start⟩, none, none, none⟩

end

end Paac
