import Paac.Cli.Commands
import Paac.Policy.Compiled

set_option autoImplicit false

/-!
# Runs of the command line

The commands run one after the other, and each may be stopped before any access to the disk. There
is one signing key: the first `sign` makes it, every later one reads it, and whatever is deployed
carries a signature that verifies under the public key in the key file. A check decides by the
deployed text, with the groups of a snapshot that was synced.

The invariant (`CliSound`) says that the store is governed with the signer of the key file as its
only signer, or with none as long as there is no key file, and that the snapshot is one of those
that were synced. It has the texts that were edited and the snapshots that were synced as
parameters, and grows with them. A key that is known stays the one in the file.

## Main results

- `triple_ofStore`: an operation of the store keeps its promise as part of a command.
- `triple_ensureKey`: the key is made once and read ever after.
- `sound_edit`, `sound_policyCommit`, `sound_policySign`, `sound_policyDeploy`,
  `sound_identitySync`: what each command keeps, and `sound_command` for all of them.
- `triple_checkCmd`: what a check decides by.
- `CliSound.commands`: every run keeps the files sound, by induction on its commands.
- `sound_runCommands`: the files of every state that a run reaches.
-/

namespace Paac

open Cedar (Engine)

open Eff (Triple)

open Serde

section

variable {E : Engine} {env : CliEnv E}

/-! ## What every state of a run satisfies -/

/-- What the key file holds, and the signers that may have signed. -/
inductive KeyFile (crypto : CryptoLib) : Option String → Set BundleSigner → Prop
  | missing : KeyFile crypto none ∅
  | made (secret : FixedBytes 32) : KeyFile crypto
      (some (toPretty SigningKeyPair.toJson
        (LocalEd25519Signer.generate crypto "key-local-mvp" secret).2))
      {(LocalEd25519Signer.generate crypto "key-local-mvp" secret).1.signer crypto}

/-- The store is governed under the key file, and the snapshot is one of those that were synced. -/
structure CliState (env : CliEnv E) (texts : Set String) (snaps : Set IdentitySnapshot)
    (key : Option String) (signers : Set BundleSigner) (w : CliWorld) : Prop where
  store : OnDisk (Governed env.storeEnv texts signers) w.store
  key : w.key = key
  snapshot : ∀ text, w.snapshot = some text →
    ∃ snap ∈ snaps, text = toPretty IdentitySnapshot.toJson snap

/-- **What every state of a run satisfies** in which the key, if it was known, is the known one. -/
def CliSound (env : CliEnv E) (texts : Set String) (snaps : Set IdentitySnapshot)
    (known : Option String) (w : CliWorld) : Prop :=
  ∃ key signers, (KeyFile env.crypto key signers ∧ ∀ text, known = some text → key = some text) ∧
    CliState env texts snaps key signers w

/-- Accesses to the disk do not fail; a command may still be stopped before any of them. -/
def CliEnv.CrashOnly (env : CliEnv E) : Prop := ∀ n e, env.fault n ≠ some (.failed e)

variable {texts : Set String} {snaps : Set IdentitySnapshot} {key known : Option String}
  {signers : Set BundleSigner} {α : Type}

/-- A store that no one has signed for is governed under any signers. -/
theorem Governed.mono {store : StoreEnv E} {disk : Disk} {signers' : Set BundleSigner}
    (h : Governed store texts signers disk) (hsub : signers ⊆ signers') :
    Governed store texts signers' disk where
  sound :=
    { revision := fun id text htext => by
        obtain ⟨rev, hrev, hgood⟩ := h.sound.revision id text htext
        refine ⟨rev, hrev, hgood.named, hgood.translated, fun b hb => ?_⟩
        obtain ⟨hid, hcedar, hdsl, signer, hsigner, hverify⟩ := hgood.signed b hb
        exact ⟨hid, hcedar, hdsl, signer, hsub hsigner, hverify⟩
      head := h.sound.head
      deployed := fun text htext => by
        obtain ⟨rev, b, hrev, hb, hid, hcedar, hdsl, signer, hsigner, hverify⟩ :=
          h.sound.deployed text htext
        exact ⟨rev, b, hrev, hb, hid, hcedar, hdsl, signer, hsub hsigner, hverify⟩ }
  active := h.active
  revision := h.revision
  deployed := h.deployed

/-- The files of the store are read as they were written. -/
theorem storeEnv_json (rev : PolicyRevision) :
    env.storeEnv.fromJson (env.storeEnv.toJson rev) = .ok rev := by
  have hread := rev.fromText_toPretty
  generalize hprint : toPretty PolicyRevision.toJson rev = text at hread
  have hstore : env.storeEnv.toJson rev = text := hprint
  rw [hstore]
  exact (mapErr_eq_ok _ _ _).2 hread

/-! ## Parts of commands -/

/-- An operation of the store keeps what the store promises, and the other files. -/
theorem triple_ofStore {Q : α → StoreWorld → Prop} {p : StoreProc α} {m : StoreOp α}
    (f : PolicyError → CliError) (hrun : p.run = m)
    (h : ∀ w, OnDisk (Governed env.storeEnv texts signers) w →
      KeepsStore env.storeEnv texts signers () Q p w) :
    Triple (CliState env texts snaps key signers) (CliOp.ofStore f m)
      (fun a w => CliState env texts snaps key signers w ∧ Q a w.store)
      (CliState env texts snaps key signers) := by
  subst hrun
  have hprocess : Triple (OnDisk (Governed env.storeEnv texts signers)) p.run
      (fun a w => OnDisk (Governed env.storeEnv texts signers) w ∧ Q a w)
      (OnDisk (Governed env.storeEnv texts signers)) :=
    Proc.Keeps.triple (P := storeProtocol Unit env.storeEnv texts signers) h
  have hpart := hprocess.within CliWorld.storePart (StoreHalt.toCli f)
    (F := fun w => w.key = key ∧ ∀ text, w.snapshot = some text →
      ∃ snap ∈ snaps, text = toPretty IdentitySnapshot.toJson snap) fun _ _ hw => hw
  refine hpart.mono ?_ ?_ ?_
  · exact fun w hw => ⟨hw.store, hw.key, hw.snapshot⟩
  · exact fun a w hw => ⟨⟨hw.1.1, hw.2.1, hw.2.2⟩, hw.1.2⟩
  · exact fun w hw => ⟨hw.1, hw.2.1, hw.2.2⟩

/-- Opening the store keeps what the files promise. -/
theorem triple_openStore :
    Triple (CliState env texts snaps key signers) (CliOp.ofStore .policy (openStore env.storeEnv))
      (fun _ => CliState env texts snaps key signers) (CliState env texts snaps key signers) := by
  have hreads : Reads (openStore env.storeEnv) fun _ _ => True :=
    reads_access.bind fun _ => reads_access.bind fun _ => reads_access.mono fun _ _ _ _ _ => trivial
  have hopen : Triple (CliState env texts snaps key signers)
      (CliOp.ofStore .policy (openStore env.storeEnv))
      (fun _ w => CliState env texts snaps key signers w ∧ True)
      (CliState env texts snaps key signers) :=
    triple_ofStore .policy (Proc.run_atom _) fun w _ => hreads.keeps fun _ _ _ _ _ _ => trivial
  exact hopen.mono (fun _ => id) (fun _ _ hw => hw.1) fun _ => id

/-- What does not depend on the number of accesses so far. -/
def TickFree (P : CliWorld → Prop) : Prop :=
  ∀ w n, P w → P { w with store := { w.store with tick := n } }

theorem CliState.tickFree : TickFree (CliState env texts snaps key signers) :=
  fun _ _ hw => ⟨hw.store, hw.key, hw.snapshot⟩

section

variable {P : CliWorld → Prop} (hP : TickFree P)
include hP

theorem triple_diskAccess : Triple P (diskAccess env) (fun _ => P) P := by
  intro w hw
  unfold diskAccess
  cases env.fault w.store.tick with
  | none => exact ⟨fun _ _ => hP w _ hw, fun e he => by cases he⟩
  | some f => cases f <;> exact ⟨fun a ha => (by cases ha), fun _ _ => hP w _ hw⟩

theorem triple_sample (value : Nat → α) : Triple P (sample value) (fun _ => P) P :=
  fun w hw => ⟨fun _ _ => hP w _ hw, fun e he => by cases he⟩

theorem triple_recordDecision (hlog : ∀ w log, P w → P { w with log }) (d : AuthzDecision) :
    Triple P (recordDecision env d) (fun _ => P) P := by
  intro w hw
  unfold recordDecision
  cases env.fault w.store.tick with
  | none => exact ⟨fun _ _ => hlog _ _ (hP w _ hw), fun e he => by cases he⟩
  | some f => cases f <;> exact ⟨fun _ _ => hP w _ hw, fun _ _ => hP w _ hw⟩

/-- A file is found exactly when it is there. -/
theorem triple_pathExists (hcrash : env.CrashOnly) {file : CliWorld → Option String}
    (hfile : ∀ w n, file { w with store := { w.store with tick := n } } = file w) :
    Triple P (pathExists env file) (fun found w => P w ∧ (file w).isSome = found) P := by
  intro w hw
  unfold pathExists
  cases hfault : env.fault w.store.tick with
  | none =>
      refine ⟨fun found hfound => ⟨hP w _ hw, ?_⟩, fun e he => by cases he⟩
      rw [hfile, Except.ok.inj hfound]
  | some f =>
      cases f with
      | stopped => exact ⟨fun a ha => (by cases ha), fun _ _ => hP w _ hw⟩
      | failed e => exact absurd hfault (hcrash _ _)

theorem triple_readText (file : CliWorld → Option String) :
    Triple P (readText env file) (fun text w => P w ∧ file w = some text) P := by
  refine (triple_diskAccess hP).bind fun _ => fun w hw => ?_
  unfold foundText
  cases hfile : file w with
  | none => exact ⟨fun a ha => (by cases ha), fun _ _ => hw⟩
  | some text =>
      exact ⟨fun a ha => ⟨hw, by rw [hfile, Except.ok.inj ha]⟩, fun e he => by cases he⟩

theorem triple_writeText {put : CliWorld → CliWorld} {Q : CliWorld → Prop}
    (hput : ∀ w, P w → Q (put w)) : Triple P (writeText env put) (fun _ => Q) P :=
  (triple_diskAccess hP).bind fun _ => Eff.triple_modify _ hput

end

/-- An operation of the store that only reads keeps what does not depend on the number of
accesses. -/
theorem triple_ofReads {P : CliWorld → Prop} (hP : TickFree P) (f : PolicyError → CliError)
    {m : StoreOp α} {F : α → Disk → Prop} (h : Reads m F) :
    Triple P (CliOp.ofStore f m) (fun a w => F a w.store.disk ∧ P w) P := by
  intro w hw
  obtain ⟨hdisk, hread⟩ := h w.store
  have hkept : P (CliWorld.storePart.set (m w.store).state w) := by
    have hticked : P (CliWorld.storePart.set ⟨w.store.disk, (m w.store).state.tick⟩ w) :=
      hP w _ hw
    rw [← hdisk] at hticked
    exact hticked
  refine ⟨fun a ha => ⟨?_, hkept⟩, fun _ _ => hkept⟩
  have hfound := hread a (mapError_eq_ok.1 ha)
  rw [← hdisk] at hfound
  exact hfound

/-- A result that is not an error. -/
theorem triple_ofResult {ε : Type} {P : CliWorld → Prop} (f : ε → CliError) (r : Except ε α) :
    Triple P (CliOp.ofResult f r) (fun a w => P w ∧ r = .ok a) P := by
  intro w hw
  refine ⟨fun a ha => ⟨hw, ?_⟩, fun _ _ => hw⟩
  exact (mapErr_eq_ok _ _ _).1 ha

/-! ## The key -/

/-- What the commands rely on of the libraries. -/
structure CryptoLib.Sound (crypto : CryptoLib) : Prop where
  base64 : ∀ bs, crypto.base64Decode (crypto.base64Encode bs) = .ok bs
  hex : ∀ bs, crypto.hexDecode (Hex.encode bs) = .ok bs
  ed25519 : ∀ sk message, ∃ sig vk, crypto.signatureFromSlice (crypto.sign sk message).1 = .ok sig ∧
    crypto.verifyingKeyFromBytes (crypto.verifyingKey sk) = .ok vk ∧
      crypto.verify vk message sig = true

/-- A generated pair gives its signer again. -/
theorem fromKeypair_generate {crypto : CryptoLib} (h : crypto.Sound) (keyId : String)
    (secret : FixedBytes 32) :
    LocalEd25519Signer.fromKeypair crypto (LocalEd25519Signer.generate crypto keyId secret).2 =
      .ok (LocalEd25519Signer.generate crypto keyId secret).1 := by
  simp only [LocalEd25519Signer.fromKeypair, LocalEd25519Signer.generate, h.hex, mapErr,
    bind_ok_eq, FixedBytes.ofBytes?_coe]
  rfl

/-- The signer that a secret is under the name of the local key. -/
abbrev localSigner (crypto : CryptoLib) (secret : FixedBytes 32) : LocalEd25519Signer :=
  (LocalEd25519Signer.generate crypto "key-local-mvp" secret).1

/-- The text of a key file. -/
abbrev keyText (crypto : CryptoLib) (secret : FixedBytes 32) : String :=
  toPretty SigningKeyPair.toJson (LocalEd25519Signer.generate crypto "key-local-mvp" secret).2

/-- The state has the key of this signer, which is the known one. -/
def HasKey (env : CliEnv E) (texts : Set String) (snaps : Set IdentitySnapshot)
    (known : Option String) (signer : LocalEd25519Signer) (w : CliWorld) : Prop :=
  ∃ secret, (signer = localSigner env.crypto secret ∧
    ∀ text, known = some text → keyText env.crypto secret = text) ∧
      CliState env texts snaps (some (keyText env.crypto secret))
        {(localSigner env.crypto secret).signer env.crypto} w

/-- **The key is made once and then read.** -/
theorem triple_ensureKey (hcrash : env.CrashOnly) (hcrypto : env.crypto.Sound) :
    Triple (CliSound env texts snaps known) (ensureKey env) (HasKey env texts snaps known)
      (CliSound env texts snaps known) := by
  refine Eff.triple_exists fun key => Eff.triple_exists fun signers => Eff.triple_and fun hkey => ?_
  have hsound : ∀ w, CliState env texts snaps key signers w → CliSound env texts snaps known w :=
    fun w hw => ⟨key, signers, hkey, hw⟩
  refine ((triple_pathExists CliState.tickFree hcrash fun _ _ => rfl).mono (fun _ => id)
    (fun _ _ => id) hsound).bind fun found => ?_
  obtain ⟨hfile, hknown⟩ := hkey
  cases hfile with
  | missing =>
      have hfresh : ∀ text, known ≠ some text := fun text h => by cases hknown text h
      cases found with
      | true => exact fun w hw => by simp [hw.1.key] at hw
      | false =>
          have hstate : ∀ w : CliWorld, CliState env texts snaps none ∅ w ∧
              (w.key).isSome = false → CliState env texts snaps none ∅ w := fun w hw => hw.1
          refine ((triple_diskAccess CliState.tickFree).mono hstate (fun _ _ => id)
            hsound).bind fun _ => ?_
          refine ((triple_sample CliState.tickFree env.secret).mono (fun _ => id) (fun _ _ => id)
            hsound).bind fun secret => ?_
          refine ((triple_writeText CliState.tickFree fun w hw => ?_).mono (fun _ => id)
            (fun _ _ => id) hsound).bind fun _ => Eff.triple_pure _ fun w hw =>
              ⟨secret, ⟨rfl, fun text h => absurd h (hfresh text)⟩, hw⟩
          exact ⟨hw.store.mono (Set.empty_subset _), rfl, hw.snapshot⟩
  | made secret =>
      cases found with
      | false => exact fun w hw => by simp [hw.1.key] at hw
      | true =>
          refine ((triple_readText CliState.tickFree _).mono (fun w hw => hw.1) (fun _ _ => id)
            hsound).bind fun data => ?_
          refine (triple_ofResult _ _).mono (fun _ => id) (fun _ _ => id)
            (fun w hw => hsound w hw.1) |>.bind fun pair => ?_
          refine (triple_ofResult _ _).mono (fun _ => id) ?_ fun w hw => hsound w hw.1.1
          rintro signer w ⟨⟨⟨hw, hdata⟩, hpair⟩, hsigner⟩
          have hsame : data = keyText env.crypto secret :=
            Option.some.inj (hdata.symm.trans hw.key)
          rw [hsame, SigningKeyPair.fromText_toPretty] at hpair
          rw [← Except.ok.inj hpair, fromKeypair_generate hcrypto] at hsigner
          exact ⟨secret, ⟨(Except.ok.inj hsigner).symm,
            fun text h => Option.some.inj (hknown text h)⟩, hw⟩

/-! ## Commands -/

/-- An operation that works on the store whatever the key. -/
theorem triple_onStore {Q : Set BundleSigner → α → StoreWorld → Prop} {p : StoreProc α}
    {m : StoreOp α} (f : PolicyError → CliError) (hrun : p.run = m)
    (h : ∀ signers w, OnDisk (Governed env.storeEnv texts signers) w →
      KeepsStore env.storeEnv texts signers () (Q signers) p w) :
    Triple (CliSound env texts snaps known) (CliOp.ofStore f m)
      (fun a w => ∃ key signers, (KeyFile env.crypto key signers ∧
        ∀ text, known = some text → key = some text) ∧
          CliState env texts snaps key signers w ∧ Q signers a w.store)
      (CliSound env texts snaps known) := by
  refine Eff.triple_exists fun key => Eff.triple_exists fun signers => Eff.triple_and fun hkey => ?_
  exact (triple_ofStore f hrun (h signers)).mono (fun _ => id)
    (fun a w hw => ⟨key, signers, hkey, hw⟩) fun w hw => ⟨key, signers, hkey, hw⟩

theorem sound_openStore :
    Triple (CliSound env texts snaps known) (CliOp.ofStore .policy (openStore env.storeEnv))
      (fun _ => CliSound env texts snaps known) (CliSound env texts snaps known) := by
  refine Eff.triple_exists fun key => Eff.triple_exists fun signers => Eff.triple_and fun hkey => ?_
  exact triple_openStore.mono (fun _ => id) (fun _ w hw => ⟨key, signers, hkey, hw⟩)
    fun w hw => ⟨key, signers, hkey, hw⟩

/-- Editing keeps the files sound. -/
theorem sound_edit {dsl : String} (h : dsl ∈ texts) :
    Triple (CliSound env texts snaps known)
      (CliOp.ofStore .policy (writeActiveDsl env.storeEnv dsl))
      (fun _ => CliSound env texts snaps known) (CliSound env texts snaps known) := by
  refine (triple_onStore .policy (InTurns.run_writeActiveDsl dsl)
    fun _ _ _ => InTurns.keeps_writeActiveDsl h).mono (fun _ => id) ?_ fun _ => id
  exact fun _ w ⟨key, signers, hkey, hw⟩ => ⟨key, signers, hkey, hw.1⟩

/-- Committing keeps the files sound. -/
theorem sound_policyCommit (message : String) :
    Triple (CliSound env texts snaps known) (policyCommit env message)
      (fun _ => CliSound env texts snaps known) (CliSound env texts snaps known) := by
  refine sound_openStore.bind fun _ => ?_
  refine (triple_onStore .policy (InTurns.run_commit message)
    fun _ _ hw => InTurns.keeps_commit storeEnv_json message hw).mono (fun _ => id) ?_ fun _ => id
  exact fun _ w ⟨key, signers, hkey, hw⟩ => ⟨key, signers, hkey, hw.1⟩

theorem sound_policyDeploy :
    Triple (CliSound env texts snaps known) (policyDeploy env)
      (fun _ => CliSound env texts snaps known) (CliSound env texts snaps known) := by
  refine sound_openStore.bind fun _ => ?_
  refine (triple_onStore .policy InTurns.run_deployHead
    fun _ _ hw => InTurns.keeps_deployHead storeEnv_json hw).mono (fun _ => id) ?_ fun _ => id
  exact fun _ w ⟨key, signers, hkey, hw⟩ => ⟨key, signers, hkey, hw.1⟩

/-- **Every signature is made with the key of the key file.** -/
theorem sound_policySign (hcrash : env.CrashOnly) (hcrypto : env.crypto.Sound) :
    Triple (CliSound env texts snaps known) (policySign env)
      (fun _ => CliSound env texts snaps known) (CliSound env texts snaps known) := by
  refine sound_openStore.bind fun _ => (triple_ensureKey hcrash hcrypto).bind fun signer => ?_
  refine Eff.triple_exists fun secret => Eff.triple_and fun hsigner => ?_
  obtain ⟨rfl, hknown⟩ := hsigner
  have hkey : KeyFile env.crypto (some (keyText env.crypto secret))
      {(localSigner env.crypto secret).signer env.crypto} ∧
        ∀ text, known = some text → some (keyText env.crypto secret) = some text :=
    ⟨.made secret, fun text h => congrArg some (hknown text h)⟩
  have hgenuine : ((localSigner env.crypto secret).signer env.crypto).Genuine env.crypto :=
    LocalEd25519Signer.genuine hcrypto.ed25519 _
  refine (triple_ofStore .policy (InTurns.run_signHead _) fun _ hw =>
    InTurns.keeps_signHead storeEnv_json hcrypto.base64 (Set.mem_singleton _) hgenuine hw).mono
      (fun _ => id) ?_ ?_
  · exact fun _ w hw => ⟨_, _, hkey, hw.1⟩
  · exact fun w hw => ⟨_, _, hkey, hw⟩

/-- A sync keeps the files sound, its snapshot among the known ones. -/
theorem sound_identitySync {fetched : Except String IdentitySnapshot}
    (h : ∀ snap, fetched = .ok snap → snap ∈ snaps) :
    Triple (CliSound env texts snaps known) (identitySync env fetched)
      (fun _ => CliSound env texts snaps known) (CliSound env texts snaps known) := by
  refine Eff.triple_exists fun key => Eff.triple_exists fun signers => Eff.triple_and fun hkey => ?_
  have hsync : Triple (CliState env texts snaps key signers) (identitySync env fetched)
      (fun _ => CliState env texts snaps key signers) (CliState env texts snaps key signers) := by
    refine (triple_ofResult _ _).bind fun snap => ?_
    intro w hw
    obtain ⟨hw, hsnap⟩ := hw
    revert w
    refine (triple_diskAccess CliState.tickFree).bind fun _ =>
      (triple_diskAccess CliState.tickFree).bind fun _ => triple_writeText CliState.tickFree ?_
    exact fun w hw => ⟨hw.store, hw.key, fun text htext =>
      ⟨snap, h snap hsnap, (Option.some.inj htext).symm⟩⟩
  exact hsync.mono (fun _ => id) (fun _ w hw => ⟨key, signers, hkey, hw⟩)
    fun w hw => ⟨key, signers, hkey, hw⟩

/-! ## Checks -/

/-- The members of the groups that a check may use. -/
def MembersOf (snaps : Set IdentitySnapshot) (members : IndexMap (List String)) : Prop :=
  members = .empty ∨ ∃ snap ∈ snaps, members = groupMembersMap snap

theorem CliSound.tickFree : TickFree (CliSound env texts snaps known) :=
  fun w n ⟨key, signers, hkey, hw⟩ => ⟨key, signers, hkey, CliState.tickFree w n hw⟩

/-- What a decision of a check rests on: the revision in the deployed file, and the members of a
snapshot. -/
def Checked (E : Engine) (disk : Disk) (snaps : Set IdentitySnapshot) (req : AuthzRequest)
    (d : AuthzDecision) : Prop :=
  ∃ text rev set members fresh, disk .deployed = some text ∧
    fromText PolicyRevision.fromJson text = .ok rev ∧ E.policySetFromStr rev.cedar = .ok set ∧
      MembersOf snaps members ∧
      evaluate E fresh req ⟨set, rev.revision, rev.bundle.map (·.keyId), members⟩ = .ok d

section

variable {P : CliWorld → Prop} (hP : TickFree P)
  (hsnapshot : ∀ w, P w → ∀ text, w.snapshot = some text →
    ∃ snap ∈ snaps, text = toPretty IdentitySnapshot.toJson snap)
include hP hsnapshot

/-- The stored snapshot is one that was synced. -/
theorem triple_storedMembers (hcrash : env.CrashOnly) :
    Triple P (storedMembers env) (fun members w => MembersOf snaps members ∧ P w) P := by
  refine (triple_pathExists hP hcrash fun _ _ => rfl).bind fun found => ?_
  cases found with
  | false => exact Eff.triple_pure _ fun w hw => ⟨Or.inl rfl, hw.1⟩
  | true =>
      refine ((triple_readText hP _).mono (fun _ hw => hw.1) (fun _ _ => id)
        fun _ => id).bind fun data => ?_
      refine ((triple_ofResult _ _).mono (fun _ => id) (fun _ _ => id) fun _ hw => hw.1).bind
        fun snap => Eff.triple_pure _ fun w hw => ?_
      obtain ⟨⟨hw, hdata⟩, hsnap⟩ := hw
      obtain ⟨stored, hstored, rfl⟩ := hsnapshot w hw data hdata
      rw [IdentitySnapshot.fromText_toPretty] at hsnap
      rw [← Except.ok.inj hsnap]
      exact ⟨Or.inr ⟨stored, hstored, rfl⟩, hw⟩

/-- **A check decides by what is deployed and synced**, and leaves both as they are. -/
theorem triple_checkCmd (hcrash : env.CrashOnly) (hlog : ∀ w log, P w → P { w with log })
    {disk : Disk} (hdisk : ∀ w, P w → w.store.disk = disk) (args : CheckArgs) :
    Triple P (checkCmd env args)
      (fun out w => (∃ req, args.request env.captures = .ok req ∧
        Checked E disk snaps req out.1 ∧ out.2 = exitCode out.1) ∧ P w) P := by
  have hopen : Reads (openStore env.storeEnv) fun _ _ => True :=
    reads_access.bind fun _ => reads_access.bind fun _ => reads_access.mono fun _ _ _ _ _ => trivial
  refine ((triple_ofResult _ _).mono (fun _ => id) (fun _ _ hw => ⟨hw.2, hw.1⟩) fun _ => id).bind
    fun req => Eff.triple_and fun hreq => ((triple_ofReads hP _ hopen).mono (fun _ => id)
      (fun _ _ hw => hw.2) fun _ => id).bind fun _ => ?_
  -- the deployed file is the one that was there before
  have hdeployed : Triple P
      (CliOp.ofStore (.context "no deployed policies — run: authz policy commit/sign/deploy")
        (policySetFromDeployed env.storeEnv))
      (fun found w => (∃ text, disk .deployed = some text ∧
        env.storeEnv.fromJson text = .ok found.2 ∧
          E.policySetFromStr found.2.cedar = .ok found.1) ∧ P w) P :=
    (triple_ofReads hP _ reads_policySetFromDeployed).mono (fun _ => id)
      (fun found w hw => ⟨by rw [← hdisk w hw.2]; exact hw.1, hw.2⟩) fun _ => id
  refine hdeployed.bind fun found => Eff.triple_and fun hfound =>
    (triple_storedMembers hP hsnapshot hcrash).bind fun members => Eff.triple_and fun hmembers =>
      (triple_sample hP env.fresh).bind fun fresh => ?_
  obtain ⟨text, htext, hrev, hset⟩ := hfound
  refine ((triple_ofResult _ _).mono (fun _ => id) (fun _ _ hw => ⟨hw.2, hw.1⟩) fun _ => id).bind
    fun d => Eff.triple_and fun hd => (triple_recordDecision hP hlog d).bind fun _ =>
      Eff.triple_pure _ fun w hw => ⟨⟨req, hreq, ?_, rfl⟩, hw⟩
  exact ⟨text, found.2, found.1, members, fresh, htext, (mapErr_eq_ok _ _ _).1 hrev, hset, hmembers,
    hd⟩

end

/-- A check, in a state that runs reach. -/
theorem CliSound.checkCmd (hcrash : env.CrashOnly) (args : CheckArgs) {w : CliWorld}
    (hw : CliSound env texts snaps known w) :
    (∀ out, (checkCmd env args w).result = .ok out →
      (∃ req, args.request env.captures = .ok req ∧ Checked E w.store.disk snaps req out.1 ∧
        out.2 = exitCode out.1) ∧
        CliSound env texts snaps known (Paac.checkCmd env args w).state) ∧
    ∀ e, (Paac.checkCmd env args w).result = .error e →
      CliSound env texts snaps known (Paac.checkCmd env args w).state := by
  have hcheck := triple_checkCmd
    (P := fun w' => CliSound env texts snaps known w' ∧ w'.store.disk = w.store.disk)
    (fun w' n h => ⟨CliSound.tickFree w' n h.1, h.2⟩)
    (fun w' ⟨⟨_, _, _, h⟩, _⟩ => h.snapshot) hcrash
    (fun w' log ⟨⟨key, signers, hkey, h⟩, hdisk⟩ =>
      ⟨⟨key, signers, hkey, h.store, h.key, h.snapshot⟩, hdisk⟩)
    (fun _ h => h.2) args w ⟨hw, rfl⟩
  exact ⟨fun out hout => ⟨(hcheck.1 out hout).1, (hcheck.1 out hout).2.1⟩,
    fun e he => (hcheck.2 e he).1⟩

/-! ## Runs -/

/-- The texts that a command brings in. -/
def CliCommand.edits : CliCommand → Set String
  | .edit dsl => {dsl}
  | _ => ∅

/-- The snapshots that a command brings in. -/
def CliCommand.syncs : CliCommand → Set IdentitySnapshot
  | .identitySync (.ok snap) => {snap}
  | _ => ∅

/-- **Every command keeps the files sound.** -/
theorem sound_command (hcrash : env.CrashOnly) (hcrypto : env.crypto.Sound) (command : CliCommand)
    (htexts : command.edits ⊆ texts) (hsnaps : command.syncs ⊆ snaps) :
    Triple (CliSound env texts snaps known) (command.run env)
      (fun _ => CliSound env texts snaps known) (CliSound env texts snaps known) := by
  cases command with
  | edit dsl => exact sound_edit (htexts (Set.mem_singleton dsl))
  | identitySync fetched =>
      refine sound_identitySync fun snap hsnap => hsnaps ?_
      subst hsnap
      exact Set.mem_singleton snap
  | commit message =>
      exact (sound_policyCommit message).bind fun _ => Eff.triple_pure _ fun _ => id
  | sign => exact (sound_policySign hcrash hcrypto).bind fun _ => Eff.triple_pure _ fun _ => id
  | deploy => exact sound_policyDeploy.bind fun _ => Eff.triple_pure _ fun _ => id
  | check args =>
      have hcheck : Triple (CliSound env texts snaps known) (checkCmd env args)
          (fun _ => CliSound env texts snaps known) (CliSound env texts snaps known) :=
        fun w hw => ⟨fun out hout => ((hw.checkCmd hcrash args).1 out hout).2,
          (hw.checkCmd hcrash args).2⟩
      exact hcheck.bind fun _ => Eff.triple_pure _ fun _ => id

/-- Every command, however it ends, keeps what holds of the state. -/
theorem CliSound.command (hcrash : env.CrashOnly) (hcrypto : env.crypto.Sound)
    {command : CliCommand} (htexts : command.edits ⊆ texts) (hsnaps : command.syncs ⊆ snaps)
    {w : CliWorld} (hw : CliSound env texts snaps known w) :
    CliSound env texts snaps known (command.run env w).state := by
  obtain ⟨hok, herror⟩ := sound_command hcrash hcrypto command htexts hsnaps w hw
  cases h : (command.run env w).result with
  | ok a => exact hok a h
  | error e => exact herror e h

/-- **Every run keeps the files sound**, by induction on its commands. -/
theorem CliSound.commands (hcrash : env.CrashOnly) (hcrypto : env.crypto.Sound)
    {commands : List CliCommand} (htexts : ∀ c ∈ commands, c.edits ⊆ texts)
    (hsnaps : ∀ c ∈ commands, c.syncs ⊆ snaps) {w : CliWorld}
    (hw : CliSound env texts snaps known w) :
    CliSound env texts snaps known (runCommands env commands w) := by
  induction commands generalizing w with
  | nil => exact hw
  | cons c cs ih =>
      rw [List.forall_mem_cons] at htexts hsnaps
      exact ih htexts.2 hsnaps.2 (hw.command hcrash hcrypto htexts.1 hsnaps.1)

/-- The texts of a run: the one there was, and the edited ones. -/
def editedTexts (seed : Option String) (commands : List CliCommand) : Set String :=
  {text | seed = some text ∨ .edit text ∈ commands}

/-- The snapshots that were synced. -/
def syncedSnapshots (commands : List CliCommand) : Set IdentitySnapshot :=
  {snap | .identitySync (.ok snap) ∈ commands}

theorem edits_subset (seed : Option String) {commands : List CliCommand} :
    ∀ c ∈ commands, c.edits ⊆ editedTexts seed commands := by
  intro c hc text htext
  cases c with
  | edit dsl =>
      obtain rfl : text = dsl := htext
      exact Or.inr hc
  | _ => exact absurd htext (Set.notMem_empty text)

theorem syncs_subset {commands : List CliCommand} :
    ∀ c ∈ commands, c.syncs ⊆ syncedSnapshots commands := by
  intro c hc snap hsnap
  cases c with
  | identitySync fetched =>
      cases fetched with
      | error e => exact absurd hsnap (Set.notMem_empty snap)
      | ok snap' =>
          obtain rfl : snap = snap' := hsnap
          exact hc
  | _ => exact absurd hsnap (Set.notMem_empty snap)

/-- Every state that commands reach is sound. -/
theorem sound_runCommands (hcrash : env.CrashOnly) (hcrypto : env.crypto.Sound)
    (seed : Option String) (start : Nat) (commands : List CliCommand) :
    CliSound env (editedTexts seed commands) (syncedSnapshots commands) none
      (runCommands env commands (CliWorld.initial seed start)) := by
  refine CliSound.commands hcrash hcrypto (edits_subset seed) syncs_subset ?_
  refine ⟨none, ∅, ⟨.missing, fun _ h => by cases h⟩, ?_, rfl, fun _ h => by cases h⟩
  exact governed_seed fun text h => Or.inl h

end

end Paac
