import Paac.Cli.Runs
import Paac.Core.Reference
import Paac.Policy.Works

set_option autoImplicit false

/-!
# A text goes live

Runs may be stopped anywhere. Once the disk works again nothing that happened before is in the way:
every text that passes validation goes live in four commands, and a check decides by it.

What the four commands need of the files is little: that the key file, if there is one, holds a key
pair as the command line writes it. Everything else they write themselves, each what the next one
reads. The files after each of them are given in full (`FilesFrom`).

## Main results

- `total_ensureKey`: the key is there or is made.
- `total_edit`, `total_commitCommand`, `total_signCommand`, `total_deployCommand`: each of the four
  commands succeeds on the files that the one before it leaves.
- `filesFrom_goLive`: so after the four of them the text is deployed.
- `checkCmd_deployed`: a check evaluates its request by the deployed text, with the groups of the
  stored snapshot.
-/

namespace Paac

open Cedar (Engine)

open Eff (Total)

open Serde

/-! ## Commands while the disk works -/

section

variable {E : Engine} {env : CliEnv E} {N : Nat} {disk : Disk} {key snapshot : Option String}
  {α : Type}

/-- The files, at a moment after `N` accesses. -/
structure FilesFrom (N : Nat) (disk : Disk) (key snapshot : Option String) (w : CliWorld) :
    Prop where
  store : DiskFrom N disk w.store
  key : w.key = key
  snapshot : w.snapshot = snapshot

/-- An operation of the store that succeeds does so in a command. -/
theorem total_ofStore {m : StoreOp α} {disk' : α → Disk} {F : α → Prop} (f : PolicyError → CliError)
    (h : Total (DiskFrom N disk) m fun a w => F a ∧ DiskFrom N (disk' a) w) :
    Total (FilesFrom N disk key snapshot) (CliOp.ofStore f m)
      fun a w => F a ∧ FilesFrom N (disk' a) key snapshot w := by
  refine (h.within CliWorld.storePart (StoreHalt.toCli f)
    (F := fun w => w.key = key ∧ w.snapshot = snapshot) fun _ _ hw => hw).mono ?_ ?_
  · exact fun w hw => ⟨hw.store, hw.key, hw.snapshot⟩
  · exact fun a w hw => ⟨hw.1.1, hw.1.2, hw.2.1, hw.2.2⟩

theorem total_ofResult {ε : Type} {P : CliWorld → Prop} (f : ε → CliError) {r : Except ε α} {a : α}
    (h : r = .ok a) : Total P (CliOp.ofResult f r) fun b w => b = a ∧ P w :=
  Eff.total_lift ((mapErr_eq_ok _ _ _).2 h) fun _ hw => ⟨rfl, hw⟩

theorem total_sample (value : Nat → α) :
    Total (FilesFrom N disk key snapshot) (sample value)
      fun _ => FilesFrom N disk key snapshot :=
  fun w hw => ⟨value w.store.tick, rfl,
    ⟨hw.store.1, Nat.le_succ_of_le hw.store.2⟩, hw.key, hw.snapshot⟩

section

variable (hworks : env.storeEnv.WorksFrom N)
include hworks

theorem total_diskAccess :
    Total (FilesFrom N disk key snapshot) (diskAccess env)
      fun _ => FilesFrom N disk key snapshot := by
  intro w hw
  have hnone : env.fault w.store.tick = none := hworks _ hw.store.2
  refine ⟨(), ?_, ?_⟩ <;> rw [diskAccess, hnone]
  exact ⟨⟨hw.store.1, Nat.le_succ_of_le hw.store.2⟩, hw.key, hw.snapshot⟩

theorem total_pathExists {file : CliWorld → Option String} {found : Option String}
    (h : ∀ w, FilesFrom N disk key snapshot w → file w = found) :
    Total (FilesFrom N disk key snapshot) (pathExists env file)
      fun there w => there = found.isSome ∧ FilesFrom N disk key snapshot w := by
  intro w hw
  have hnone : env.fault w.store.tick = none := hworks _ hw.store.2
  refine ⟨(file w).isSome, ?_, ?_⟩ <;> rw [pathExists, hnone]
  exact ⟨by rw [h w hw], ⟨hw.store.1, Nat.le_succ_of_le hw.store.2⟩, hw.key, hw.snapshot⟩

/-- A text that is there is read. -/
theorem total_readText {file : CliWorld → Option String} {text : String}
    (h : ∀ w, FilesFrom N disk key snapshot w → file w = some text) :
    Total (FilesFrom N disk key snapshot) (readText env file)
      fun found w => found = text ∧ FilesFrom N disk key snapshot w := by
  refine (total_diskAccess hworks).bind fun _ => fun w hw => ⟨text, ?_, ?_⟩ <;>
    rw [foundText, h w hw]
  exact ⟨rfl, hw⟩

theorem total_openCommand :
    Total (FilesFrom N disk key snapshot) (CliOp.ofStore .policy (openStore env.storeEnv))
      fun _ => FilesFrom N disk key snapshot := by
  have hopen : Total (DiskFrom N disk) (openStore env.storeEnv)
      fun _ w => True ∧ DiskFrom N disk w :=
    (total_openStore hworks).mono (fun _ => id) fun _ _ hw => ⟨trivial, hw⟩
  exact (total_ofStore .policy hopen).mono (fun _ => id) fun _ _ hw => hw.2

/-- **The key is there afterwards**, made now or before. -/
theorem total_ensureKey (hcrypto : env.crypto.Sound) {signers : Set BundleSigner}
    (hkey : KeyFile env.crypto key signers) :
    Total (FilesFrom N disk key snapshot) (ensureKey env) fun signer w =>
      ∃ secret, signer = localSigner env.crypto secret ∧
        FilesFrom N disk (some (keyText env.crypto secret)) snapshot w := by
  refine (total_pathExists hworks fun _ hw => hw.key).bind fun found =>
    Eff.total_and fun hfound => ?_
  subst hfound
  cases hkey with
  | missing =>
      refine (total_diskAccess hworks).bind fun _ => (total_sample env.secret).bind fun secret => ?_
      refine Total.bind (Q := fun _ => FilesFrom N disk (some (keyText env.crypto secret)) snapshot)
        ?_ fun _ => Eff.total_pure _ fun w hw => ⟨secret, rfl, hw⟩
      exact (total_diskAccess hworks).bind fun _ => Eff.total_modify _ fun w hw =>
        ⟨hw.store, rfl, hw.snapshot⟩
  | made secret =>
      refine (total_readText hworks fun _ hw => hw.key).bind fun data =>
        Eff.total_and fun hdata => ?_
      subst hdata
      refine (total_ofResult _ (SigningKeyPair.fromText_toPretty _)).bind fun pair =>
        Eff.total_and fun hpair => ?_
      subst hpair
      exact (total_ofResult _ (fromKeypair_generate hcrypto _ _)).mono (fun _ => id)
        fun signer w hw => ⟨secret, hw.1, hw.2⟩

theorem total_edit (dsl : String) :
    Total (FilesFrom N disk key snapshot) ((CliCommand.edit dsl).run env)
      fun _ => FilesFrom N (disk.write .active dsl) key snapshot := by
  have hwrite : Total (DiskFrom N disk) (writeActiveDsl env.storeEnv dsl)
      fun _ w => True ∧ DiskFrom N (disk.write .active dsl) w :=
    (total_writeFile hworks _ _).mono (fun _ => id) fun _ _ hw => ⟨trivial, hw⟩
  exact (total_ofStore .policy hwrite).mono (fun _ => id) fun _ _ hw => hw.2

/-- A commit makes a revision of the active text the head. -/
theorem total_commitCommand {dsl : String} {policies : List DslPolicy} (message : String)
    (hactive : disk .active = some dsl) (hvalid : validateDsl E dsl = .ok policies) :
    Total (FilesFrom N disk key snapshot) ((CliCommand.commit message).run env) fun _ w =>
      ∃ rev : PolicyRevision, (Text.trim rev.revision = rev.revision ∧ rev.message = message ∧
        rev.dsl = dsl ∧ rev.cedar = dslToCedar policies ∧ rev.bundle = none) ∧
      FilesFrom N ((disk.write (.revision rev.revision) (env.storeEnv.toJson rev)).write .head
        rev.revision) key snapshot w := by
  have hcommit : Total (FilesFrom N disk key snapshot) _ _ :=
    total_ofStore .policy (total_commit hworks message hactive hvalid)
  exact ((total_openCommand hworks).bind fun _ => hcommit).bind fun rev =>
    Eff.total_pure _ fun w hw => ⟨rev, hw⟩

section

variable {name text : String} {rev : PolicyRevision} (hhead : disk .head = some name)
  (hrev : disk (.revision (Text.trim name)) = some text)
  (hjson : env.storeEnv.fromJson text = .ok rev)
include hhead hrev hjson

/-- **The head is signed** with the key of the key file. -/
theorem total_signCommand (hcrypto : env.crypto.Sound) {signers : Set BundleSigner}
    (hkey : KeyFile env.crypto key signers) :
    Total (FilesFrom N disk key snapshot) (CliCommand.sign.run env) fun _ w => ∃ b secret,
      (∃ signedAt, signBundle env.crypto ((localSigner env.crypto secret).signer env.crypto)
        rev.revision rev.cedar rev.dsl signedAt = .ok b) ∧
      FilesFrom N (disk.write (.revision (Text.trim name))
        (env.storeEnv.toJson { rev with bundle := some b })) (some (keyText env.crypto secret))
          snapshot w := by
  have hsign : Total (FilesFrom N disk key snapshot) (policySign env) fun b w => ∃ secret,
      (∃ signedAt, signBundle env.crypto ((localSigner env.crypto secret).signer env.crypto)
        rev.revision rev.cedar rev.dsl signedAt = .ok b) ∧
      FilesFrom N (disk.write (.revision (Text.trim name))
        (env.storeEnv.toJson { rev with bundle := some b })) (some (keyText env.crypto secret))
          snapshot w := by
    refine (total_openCommand hworks).bind fun _ => (total_ensureKey hworks hcrypto hkey).bind
      fun signer => Eff.total_exists fun secret => Eff.total_and fun hsigner => ?_
    subst hsigner
    exact (total_ofStore .policy (total_signHead hworks hhead hrev hjson _)).mono (fun _ => id)
      fun _ w hw => ⟨secret, hw⟩
  exact hsign.bind fun b => Eff.total_pure _ fun w hw => ⟨b, hw⟩

/-- A signed head is deployed. -/
theorem total_deployCommand {b : SignedBundle} (hbundle : rev.bundle = some b) :
    Total (FilesFrom N disk key snapshot) (CliCommand.deploy.run env)
      fun _ => FilesFrom N (disk.write .deployed (env.storeEnv.toJson rev)) key snapshot := by
  have hdeploy : Total (FilesFrom N disk key snapshot) _ _ :=
    total_ofStore .policy (total_deployHead hworks hhead hrev hjson hbundle)
  exact ((total_openCommand hworks).bind fun _ => hdeploy).bind fun _ =>
    Eff.total_pure _ fun w hw => hw.2

end

/-- **A text that passes validation goes live** when it is edited, committed, signed and deployed. -/
theorem filesFrom_goLive (hcrypto : env.crypto.Sound) {signers : Set BundleSigner}
    (hkey : KeyFile env.crypto key signers) {dsl : String} {policies : List DslPolicy}
    (hvalid : validateDsl E dsl = .ok policies) (message : String) {w : CliWorld}
    (hw : FilesFrom N disk key snapshot w) :
    ∃ rev b secret disk', (rev.message = message ∧ rev.dsl = dsl ∧
        rev.cedar = dslToCedar policies ∧ rev.bundle = some b) ∧
      (∃ signedAt, signBundle env.crypto ((localSigner env.crypto secret).signer env.crypto)
        rev.revision rev.cedar rev.dsl signedAt = .ok b) ∧
      disk' .deployed = some (env.storeEnv.toJson rev) ∧
      FilesFrom N disk' (some (keyText env.crypto secret)) snapshot
        (runCommands env [.edit dsl, .commit message, .sign, .deploy] w) := by
  have hedited := (total_edit hworks dsl).state hw
  obtain ⟨rev, ⟨htrim, hmessage, hdsl, hcedar, -⟩, hcommitted⟩ :=
    (total_commitCommand hworks message (Disk.write_same _ _ _) hvalid).state hedited
  generalize hcommit : ((disk.write .active dsl).write (.revision rev.revision)
    (env.storeEnv.toJson rev)).write .head rev.revision = disk₂ at hcommitted
  have hhead : disk₂ .head = some rev.revision := by rw [← hcommit, Disk.write_same]
  have hrevision : disk₂ (.revision (Text.trim rev.revision)) = some (env.storeEnv.toJson rev) := by
    rw [htrim, ← hcommit, Disk.write_other _ _ (by simp), Disk.write_same]
  obtain ⟨b, secret, hb, hsigned⟩ :=
    (total_signCommand hworks hhead hrevision (storeEnv_json rev) hcrypto hkey).state hcommitted
  obtain ⟨rev', hrev'⟩ : ∃ rev' : PolicyRevision, rev' = { rev with bundle := some b } := ⟨_, rfl⟩
  rw [← hrev'] at hsigned
  have hbundle : rev'.bundle = some b := by rw [hrev']
  generalize hsign : disk₂.write (.revision (Text.trim rev.revision))
    (env.storeEnv.toJson rev') = disk₃ at hsigned
  have hhead' : disk₃ .head = some rev.revision := by
    rw [← hsign, Disk.write_other _ _ (by simp), hhead]
  have hrevision' : disk₃ (.revision (Text.trim rev.revision)) =
      some (env.storeEnv.toJson rev') := by rw [← hsign, Disk.write_same]
  have hdeployed := (total_deployCommand hworks hhead' hrevision' (storeEnv_json rev')
    hbundle).state hsigned
  refine ⟨rev', b, secret, _, ⟨?_, ?_, ?_, hbundle⟩, ?_, Disk.write_same _ _ _, hdeployed⟩
  · rw [hrev', hmessage]
  · rw [hrev', hdsl]
  · rw [hrev', hcedar]
  · rw [hrev']
    exact hb

/-- The groups are those of a synced snapshot, or none. -/
theorem total_storedMembers {snaps : Set IdentitySnapshot} (hsnapshot : ∀ text,
    snapshot = some text → ∃ snap ∈ snaps, text = toPretty IdentitySnapshot.toJson snap) :
    Total (FilesFrom N disk key snapshot) (storedMembers env)
      fun members w => MembersOf snaps members ∧ FilesFrom N disk key snapshot w := by
  refine (total_pathExists hworks fun _ hw => hw.snapshot).bind fun found =>
    Eff.total_and fun hfound => ?_
  subst hfound
  cases snapshot with
  | none => exact Eff.total_pure _ fun w hw => ⟨Or.inl rfl, hw⟩
  | some text =>
      obtain ⟨snap, hsnap, rfl⟩ := hsnapshot text rfl
      refine (total_readText hworks fun _ hw => hw.snapshot).bind fun data =>
        Eff.total_and fun hdata => ?_
      subst hdata
      refine (total_ofResult _ (IdentitySnapshot.fromText_toPretty _)).bind fun snap' =>
        Eff.total_and fun hsame => ?_
      subst hsame
      exact Eff.total_pure _ fun w hw => ⟨Or.inr ⟨_, hsnap, rfl⟩, hw⟩

/-- How a check ends with the outcome of the evaluation. -/
def checkEnd (r : Except (Halt AuthzError) AuthzDecision) :
    Except (Abort CliError) (AuthzDecision × Nat) :=
  mapErr (fun e => .error (.ofHalt e)) (r.map fun d => (d, exitCode d))

/-- The outcome of a check by the policies of the revision, with the groups of a snapshot. -/
def DecidedBy (E : Engine) (snaps : Set IdentitySnapshot) (rev : PolicyRevision)
    (set : E.PolicySet) (req : AuthzRequest)
    (r : Except (Abort CliError) (AuthzDecision × Nat)) : Prop :=
  ∃ members fresh, MembersOf snaps members ∧
    r = checkEnd (evaluate E fresh req ⟨set, rev.revision, rev.bundle.map (·.keyId), members⟩)

/-- **A check decides by the deployed revision.** -/
theorem checkCmd_deployed {snaps : Set IdentitySnapshot} (hsnapshot : ∀ text,
    snapshot = some text → ∃ snap ∈ snaps, text = toPretty IdentitySnapshot.toJson snap)
    {rev : PolicyRevision} {set : E.PolicySet}
    (hdeployed : disk .deployed = some (env.storeEnv.toJson rev))
    (hset : E.policySetFromStr rev.cedar = .ok set) {args : CheckArgs} {req : AuthzRequest}
    (hreq : args.request env.captures = .ok req) {w : CliWorld}
    (hw : FilesFrom N disk key snapshot w) :
    DecidedBy E snaps rev set req (checkCmd env args w).result := by
  have hread : Total (FilesFrom N disk key snapshot) _ _ :=
    total_ofStore (.context "no deployed policies — run: authz policy commit/sign/deploy")
      (total_policySetFromDeployed hworks hdeployed (storeEnv_json rev) hset)
  refine Total.bind_outcome (F := fun r _ => DecidedBy E snaps rev set req r)
    (total_ofResult .bridge hreq) ?_ hw
  rintro req w ⟨rfl, hw⟩
  refine (total_openCommand hworks).bind_outcome (F := fun r _ => DecidedBy E snaps rev set req r)
    (fun _ w hw => ?_) hw
  refine hread.bind_outcome (F := fun r _ => DecidedBy E snaps rev set req r) ?_ hw
  rintro _ w ⟨rfl, hw⟩
  refine (total_storedMembers hworks hsnapshot).bind_outcome
    (F := fun r _ => DecidedBy E snaps rev set req r) ?_ hw
  rintro members w ⟨hmembers, hw⟩
  refine (total_sample env.fresh).bind_outcome (F := fun r _ => DecidedBy E snaps rev set req r)
    (fun fresh w hw => ⟨members, fresh, hmembers, ?_⟩) hw
  generalize evaluate E fresh req ⟨set, rev.revision, rev.bundle.map (·.keyId), members⟩ = outcome
  cases outcome with
  | error e => rfl
  | ok d =>
      have hnone : env.fault w.store.tick = none := hworks _ hw.store.2
      have hrecord : (recordDecision env d w).result = .ok () := by rw [recordDecision, hnone]
      rw [Eff.bind_ok (a := d) rfl]
      exact (Eff.bind_result_ok.2 ⟨(), hrecord, rfl⟩)

end

end

end Paac
