import Paac.Library.Total
import Paac.Policy.Store

set_option autoImplicit false

/-!
# The store while the disk works

Accesses may fail or stop the process. From the access on after which none does (`WorksFrom`), every
operation of the store succeeds when the files that it needs are there. The disk that each of them
leaves is given in full, so the operations can be chained: a text that passes validation is written,
committed, signed and deployed, whatever the store went through before.

## Main results

- `total_readToString`, `total_writeFile`: one access, with the disk behind it.
- `total_commit`: an active text that passes validation is committed; its revision and the head are
  written.
- `total_signHead`: the head is signed with a local key.
- `total_deployHead`: a signed head is deployed.
- `total_policySetFromDeployed`: the deployed policies are read.
-/

namespace Paac

open Cedar (Engine)

open Eff (Total)

variable {E : Engine} {env : StoreEnv E} {N : Nat} {disk : Disk}

/-- From this access on the disk works. -/
def StoreEnv.WorksFrom (env : StoreEnv E) (N : Nat) : Prop := ∀ n, N ≤ n → env.fault n = none

/-- The disk, at a moment after `N` accesses. -/
def DiskFrom (N : Nat) (disk : Disk) (w : StoreWorld) : Prop := w.disk = disk ∧ N ≤ w.tick

section

variable (hworks : env.WorksFrom N)
include hworks

theorem total_access : Total (DiskFrom N disk) (access env) fun _ => DiskFrom N disk := by
  rintro w ⟨hdisk, htick⟩
  refine ⟨(), ?_, ?_⟩ <;> rw [access, hworks _ htick]
  exact ⟨hdisk, Nat.le_succ_of_le htick⟩

theorem total_fileExists (path : StorePath) :
    Total (DiskFrom N disk) (fileExists env path)
      fun found w => found = (disk path).isSome ∧ DiskFrom N disk w := by
  rintro w ⟨hdisk, htick⟩
  refine ⟨(w.disk path).isSome, ?_, ?_⟩ <;> rw [fileExists, hworks _ htick]
  exact ⟨by rw [hdisk], hdisk, Nat.le_succ_of_le htick⟩

theorem total_readToString {path : StorePath} {text : String} (h : disk path = some text) :
    Total (DiskFrom N disk) (readToString env path)
      fun found w => found = text ∧ DiskFrom N disk w := by
  refine (total_access hworks).bind fun _ => fun w hw => ⟨text, ?_, rfl, hw⟩
  simp only [fileText, Disk.text, hw.1, h]

theorem total_writeFile (path : StorePath) (text : String) :
    Total (DiskFrom N disk) (writeFile env path text) fun _ => DiskFrom N (disk.write path text) :=
  (total_access hworks).bind fun _ => Eff.total_modify _ fun w hw => ⟨by rw [hw.1], hw.2⟩

theorem total_openStore : Total (DiskFrom N disk) (openStore env) fun _ => DiskFrom N disk :=
  (total_access hworks).bind fun _ => (total_access hworks).bind fun _ => total_access hworks

omit hworks in
theorem total_utcNow : Total (DiskFrom N disk) (utcNow env) fun _ => DiskFrom N disk :=
  fun w hw => ⟨env.now w.tick, rfl, hw.1, Nat.le_succ_of_le hw.2⟩

omit hworks in
theorem total_storeResult {α : Type} {r : Except PolicyError α} {a : α} (h : r = .ok a) :
    Total (DiskFrom N disk) (StoreOp.ofResult r) fun b w => b = a ∧ DiskFrom N disk w :=
  Eff.total_lift ((mapErr_eq_ok _ _ _).2 h) fun _ hw => ⟨rfl, hw⟩

/-- **An active text that passes validation is committed.** -/
theorem total_commit {dsl : String} {policies : List DslPolicy} (message : String)
    (hactive : disk .active = some dsl) (hvalid : validateDsl E dsl = .ok policies) :
    Total (DiskFrom N disk) (commit env message) fun rev w =>
      (Text.trim rev.revision = rev.revision ∧ rev.message = message ∧ rev.dsl = dsl ∧
        rev.cedar = dslToCedar policies ∧ rev.bundle = none) ∧
      DiskFrom N ((disk.write (.revision rev.revision) (env.toJson rev)).write .head
        rev.revision) w := by
  have hread : Total (DiskFrom N disk) (readActiveDsl env)
      fun text w => text = dsl ∧ DiskFrom N disk w := by
    refine (total_fileExists hworks .active).bind fun found => Eff.total_and fun hfound => ?_
    rw [hactive] at hfound
    subst hfound
    exact total_readToString hworks hactive
  refine hread.bind fun text => Eff.total_and fun htext => ?_
  subst htext
  refine (total_storeResult hvalid).bind fun ps => Eff.total_and fun hps => ?_
  subst hps
  refine total_utcNow.bind fun hashed => total_utcNow.bind fun created => ?_
  refine (total_writeFile hworks _ _).bind fun _ => (total_writeFile hworks _ _).bind fun _ =>
    Eff.total_pure _ fun w hw => ⟨⟨Hex.trim_encode _, rfl, rfl, rfl, rfl⟩, hw⟩

variable {name text : String} {rev : PolicyRevision} (hhead : disk .head = some name)
include hhead

/-- The head is read, trimmed. -/
theorem total_requireHead (missing : String) :
    Total (DiskFrom N disk) (requireHead env missing)
      fun id w => id = Text.trim name ∧ DiskFrom N disk w := by
  have hfind : Total (DiskFrom N disk) (headRevision env)
      fun found w => found = some (Text.trim name) ∧ DiskFrom N disk w := by
    refine (total_fileExists hworks .head).bind fun found => Eff.total_and fun hfound => ?_
    rw [hhead] at hfound
    subst hfound
    refine (total_readToString hworks hhead).bind fun found => Eff.total_and fun hfound => ?_
    subst hfound
    exact Eff.total_pure _ fun w hw => ⟨rfl, hw⟩
  refine hfind.bind fun found => Eff.total_and fun hfound => ?_
  subst hfound
  exact Eff.total_pure _ fun w hw => ⟨rfl, hw⟩

variable (hrev : disk (.revision (Text.trim name)) = some text) (hjson : env.fromJson text = .ok rev)
include hrev hjson

omit hhead in
theorem total_loadRevision :
    Total (DiskFrom N disk) (loadRevision env (Text.trim name))
      fun found w => found = rev ∧ DiskFrom N disk w := by
  refine (total_readToString hworks hrev).bind fun found => Eff.total_and fun hfound => ?_
  subst hfound
  exact total_storeResult ((mapErr_eq_ok _ _ _).2 hjson)

/-- **The head is signed** with a local key. -/
theorem total_signHead (signer : LocalEd25519Signer) :
    Total (DiskFrom N disk) (signHead env (signer.signer env.crypto)) fun b w =>
      (∃ signedAt, signBundle env.crypto (signer.signer env.crypto) rev.revision rev.cedar rev.dsl
        signedAt = .ok b) ∧
      DiskFrom N (disk.write (.revision (Text.trim name))
        (env.toJson { rev with bundle := some b })) w := by
  refine (total_requireHead hworks hhead _).bind fun id => Eff.total_and fun hid => ?_
  subst hid
  refine (total_loadRevision hworks hrev hjson).bind fun found => Eff.total_and fun hfound => ?_
  subst hfound
  refine total_utcNow.bind fun signed => ?_
  obtain ⟨b, hb⟩ : ∃ b, signBundle env.crypto (signer.signer env.crypto) found.revision found.cedar
      found.dsl signed.rfc3339 = .ok b := ⟨_, rfl⟩
  refine (total_storeResult hb).bind fun b' => Eff.total_and fun hsame => ?_
  subst hsame
  exact (total_writeFile hworks _ _).bind fun _ =>
    Eff.total_pure _ fun w hw => ⟨⟨signed.rfc3339, hb⟩, hw⟩

/-- **A signed head is deployed.** -/
theorem total_deployHead {b : SignedBundle} (hbundle : rev.bundle = some b) :
    Total (DiskFrom N disk) (deployHead env) fun found w =>
      found = rev ∧ DiskFrom N (disk.write .deployed (env.toJson rev)) w := by
  refine (total_requireHead hworks hhead _).bind fun id => Eff.total_and fun hid => ?_
  subst hid
  refine (total_loadRevision hworks hrev hjson).bind fun found => Eff.total_and fun hfound => ?_
  subst hfound
  have hsigned : found.bundle.isNone = false := by rw [hbundle]; rfl
  simp only [hsigned, Bool.false_eq_true, if_false]
  exact (total_writeFile hworks _ _).bind fun _ => Eff.total_pure _ fun w hw => ⟨rfl, hw⟩

end

/-- **The deployed policies are read.** -/
theorem total_policySetFromDeployed (hworks : env.WorksFrom N) {text : String}
    {rev : PolicyRevision} {set : E.PolicySet} (hdeployed : disk .deployed = some text)
    (hjson : env.fromJson text = .ok rev) (hset : E.policySetFromStr rev.cedar = .ok set) :
    Total (DiskFrom N disk) (policySetFromDeployed env)
      fun found w => found = (set, rev) ∧ DiskFrom N disk w := by
  have hload : Total (DiskFrom N disk) (loadDeployed env)
      fun found w => found = some rev ∧ DiskFrom N disk w := by
    refine (total_fileExists hworks .deployed).bind fun found => Eff.total_and fun hfound => ?_
    rw [hdeployed] at hfound
    subst hfound
    refine (total_readToString hworks hdeployed).bind fun found => Eff.total_and fun hfound => ?_
    subst hfound
    refine (total_storeResult ((mapErr_eq_ok _ _ _).2 hjson)).bind fun found =>
      Eff.total_and fun hfound => ?_
    subst hfound
    exact Eff.total_pure _ fun w hw => ⟨rfl, hw⟩
  refine hload.bind fun found => Eff.total_and fun hfound => ?_
  subst hfound
  refine (total_storeResult ((mapErr_eq_ok _ _ _).2 hset)).bind fun found =>
    Eff.total_and fun hfound => ?_
  subst hfound
  exact Eff.total_pure _ fun w hw => ⟨rfl, hw⟩

end Paac
