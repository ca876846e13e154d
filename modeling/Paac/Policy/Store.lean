import Paac.Library.Triple
import Paac.Policy.Sign
import Paac.Policy.Validate

set_option autoImplicit false

/-!
# The policy store

A store keeps four kinds of files: the active text, the revisions, the name of the head revision and
the deployed revision. An operation is a sequence of accesses to the disk. Each access may fail, and
the process may stop before it; what was written before stays.

The libraries, the clock and the faults of the disk are a parameter (`StoreEnv`): what is read and
which access fails are functions of the number of accesses and readings so far, so every behaviour
of the surroundings is one of these functions. Serialisation is a parameter as well; `Files.lean`
gives the real one.

A write replaces the text of a file, or fails and leaves it, so a fault is an access that did not
happen. An operating system may also stop a process inside a write and leave a shorter text; that is
outside of this model.

The operations are those of `store.rs`, access by access in its order: `commit` writes the revision
and then the head, `signHead` writes the revision that the head named when it looked, and
`deployHead` refuses a revision without a bundle.
-/

namespace Paac

open Cedar (Engine)

/-! ## Files -/

structure PolicyRevision where
  revision : String
  message : String
  createdAt : String
  cedar : String
  dsl : String
  bundle : Option SignedBundle
  deriving DecidableEq, Repr

/-- The files of a store. -/
inductive StorePath where
  | active
  | head
  | revision (id : String)
  | deployed
  deriving DecidableEq, Repr

/-- The texts of the files that exist. -/
abbrev Disk : Type := StorePath → Option String

/-- A disk after a file is written. -/
def Disk.write (disk : Disk) (path : StorePath) (text : String) : Disk :=
  Function.update disk path (some text)

theorem Disk.write_same (disk : Disk) (path : StorePath) (text : String) :
    disk.write path text path = some text := Function.update_self ..

theorem Disk.write_other (disk : Disk) {path path' : StorePath} (text : String)
    (h : path' ≠ path) : disk.write path text path' = disk path' := Function.update_of_ne h ..

/-! ## The surroundings -/

/-- What happens at an access instead of the access. -/
inductive Fault where
  | failed (e : String)
  | stopped
  deriving DecidableEq, Repr

/-- How a process ends without a result. -/
inductive Abort (ε : Type) where
  | error (e : ε)
  | stopped
  deriving DecidableEq, Repr

abbrev StoreHalt : Type := Abort PolicyError

def Fault.halt : Fault → StoreHalt
  | .failed e => .error (.io e)
  | .stopped => .stopped

/-- A reading of the clock. -/
structure Instant where
  timestamp : Int
  rfc3339 : String

/-- The libraries, the clock and the faults of the disk. -/
structure StoreEnv (E : Engine) where
  crypto : CryptoLib
  /-- `serde_json::to_string_pretty` -/
  toJson : PolicyRevision → String
  /-- `serde_json::from_str` -/
  fromJson : String → Except String PolicyRevision
  now : Nat → Instant
  fault : Nat → Option Fault

/-- The disk, and the number of readings and accesses so far. -/
structure StoreWorld where
  disk : Disk
  tick : Nat

/-- An operation of the store. -/
abbrev StoreOp (α : Type) : Type := Eff StoreHalt StoreWorld Empty α

variable {E : Engine} (env : StoreEnv E)

/-- The fault at the next access, if there is one. -/
def access : StoreOp Unit := fun w =>
  let w' := { w with tick := w.tick + 1 }
  match env.fault w.tick with
  | some f => ⟨.error f.halt, w', []⟩
  | none => ⟨.ok (), w', []⟩

/-- `Path::exists`; it is false when the file cannot be looked at. -/
def fileExists (path : StorePath) : StoreOp Bool := fun w =>
  let w' := { w with tick := w.tick + 1 }
  match env.fault w.tick with
  | some .stopped => ⟨.error .stopped, w', []⟩
  | some (.failed _) => ⟨.ok false, w', []⟩
  | none => ⟨.ok (w.disk path).isSome, w', []⟩

/-- The text of a file, or the error that it is not there. -/
def Disk.text (disk : Disk) (path : StorePath) : Except StoreHalt String :=
  match disk path with
  | some text => .ok text
  | none => .error (.error (.io "No such file or directory (os error 2)"))

/-- The text of a file that can be accessed. -/
def fileText (path : StorePath) : StoreOp String := fun w => ⟨w.disk.text path, w, []⟩

/-- `fs::read_to_string`. -/
def readToString (path : StorePath) : StoreOp String := do
  access env
  fileText path

/-- `fs::write`, taken to be atomic: a write that fails leaves the file as it was. -/
def writeFile (path : StorePath) (text : String) : StoreOp Unit := do
  access env
  Eff.modify fun w => { w with disk := w.disk.write path text }

/-- `Utc::now`. -/
def utcNow : StoreOp Instant := fun w =>
  ⟨.ok (env.now w.tick), { w with tick := w.tick + 1 }, []⟩

/-- A result of the policy crate. -/
def StoreOp.ofResult {α : Type} (r : Except PolicyError α) : StoreOp α := Eff.lift (mapErr .error r)

/-! ## The operations -/

/-- `PolicyStore::open`; it creates three directories. -/
def openStore : StoreOp Unit := do
  access env
  access env
  access env

/-- `PolicyStore::write_active_dsl`. -/
def writeActiveDsl (dsl : String) : StoreOp Unit := writeFile env .active dsl

/-- `PolicyStore::read_active_dsl`. -/
def readActiveDsl : StoreOp String := do
  if ← fileExists env .active then readToString env .active else return ""

/-- The revision of a commit: the first bytes of a hash of text, message and time. -/
def revisionOf (cedar message : String) (timestamp : Int) : String :=
  Hex.encode ((env.crypto.sha256 (cedar ++ message ++ toString timestamp)).1.take 8)

/-- `PolicyStore::commit`. -/
def commit (message : String) : StoreOp PolicyRevision := do
  let dsl ← readActiveDsl env
  let policies ← StoreOp.ofResult (validateDsl E dsl)
  let cedar := dslToCedar policies
  -- the clock is read once for the id and once for the record
  let hashed ← utcNow env
  let created ← utcNow env
  let rev : PolicyRevision :=
    { revision := revisionOf env cedar message hashed.timestamp
      message
      createdAt := created.rfc3339
      cedar
      dsl
      bundle := none }
  -- a fault between the two writes leaves the old head
  writeFile env (.revision rev.revision) (env.toJson rev)
  writeFile env .head rev.revision
  return rev

/-- `PolicyStore::head_revision`. -/
def headRevision : StoreOp (Option String) := do
  if ← fileExists env .head then do
    let text ← readToString env .head
    return some (Text.trim text)
  else return none

/-- `PolicyStore::load_revision`. -/
def loadRevision (revision : String) : StoreOp PolicyRevision := do
  let data ← readToString env (.revision revision)
  StoreOp.ofResult (mapErr .store (env.fromJson data))

/-- The head revision, or the error that there is none. -/
def requireHead (missing : String) : StoreOp String := do
  match ← headRevision env with
  | some id => return id
  | none => Eff.fail (.error (.store missing))

/-- `PolicyStore::sign_head`. -/
def signHead (signer : BundleSigner) : StoreOp SignedBundle := do
  let revId ← requireHead env "no HEAD revision; run policy commit first"
  let rev ← loadRevision env revId
  let signed ← utcNow env
  let bundle ← StoreOp.ofResult
    (signBundle env.crypto signer rev.revision rev.cedar rev.dsl signed.rfc3339)
  writeFile env (.revision revId) (env.toJson { rev with bundle := some bundle })
  return bundle

/-- `PolicyStore::deploy_head`. -/
def deployHead : StoreOp PolicyRevision := do
  let revId ← requireHead env "no HEAD revision"
  let rev ← loadRevision env revId
  if rev.bundle.isNone then
    Eff.fail (.error (.store "HEAD is not signed; run policy sign first"))
  else do
    writeFile env .deployed (env.toJson rev)
    return rev

/-- `PolicyStore::load_deployed`. -/
def loadDeployed : StoreOp (Option PolicyRevision) := do
  if ← fileExists env .deployed then do
    let data ← readToString env .deployed
    let rev ← StoreOp.ofResult (mapErr .store (env.fromJson data))
    return some rev
  else return none

/-- `PolicyStore::policy_set_from_deployed`. -/
def policySetFromDeployed : StoreOp (E.PolicySet × PolicyRevision) := do
  match ← loadDeployed env with
  | none => Eff.fail (.error (.store "no deployed policy bundle"))
  | some rev => do
      let set ← StoreOp.ofResult (mapErr .cedar (E.policySetFromStr rev.cedar))
      return (set, rev)

end Paac
