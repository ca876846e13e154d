import Paac.Policy.Store

set_option autoImplicit false

/-!
# The lifecycle of a revision

A revision is committed, signed and deployed by operations that may fail or stop at every access.
`Sound` is what every disk of a run satisfies: a revision file holds a revision of that name whose
Cedar text is the translation of its own DSL text, a bundle inside a revision is one signed for
these texts, and the deployed revision has such a bundle.

An operation that only reads is a function of the disk (`Reads`), so nothing has to be said about
where it may stop. An operation that writes is followed from write to write: the disk is sound
before and after each of them, and that is all a triple with the invariant as its postcondition for
failure asks for. Which signers there were is part of the invariant, since each signing may use its
own.

## Main results

- `Reads.triple`: an operation that only reads keeps every promise about the disk.
- `Sound.writeActive`, `Sound.writeRevision`, `Sound.writeHead`, `Sound.writeDeployed`: which writes
  keep a disk sound.
- `commit_keepsSound`, `signHead_keepsSound`, `deployHead_keepsSound`: each operation keeps the
  store sound, whatever fails in it.
- `triple_deployHead_failed`: a deployment that fails leaves the deployed revision as it was.
- `runCalls_sound`: every run keeps the store sound, by induction on its calls.
- `lifecycle_invariant`: the head and the deployed revision of every store that a run from an empty
  one reaches.

A store in which the hash and the signature are those of a real revision goes live at the end.
-/

namespace Paac

open Cedar (Engine)

open Eff (Triple)

section

variable {E : Engine} {env : StoreEnv E}

/-! ## Operations that only read -/

/-- The operation leaves the disk as it is, and what it returns is `F` of the disk. -/
def Reads {α : Type} (m : StoreOp α) (F : α → Disk → Prop) : Prop :=
  ∀ w, (m w).state.disk = w.disk ∧ ∀ a, (m w).result = .ok a → F a w.disk

theorem Reads.mono {α : Type} {m : StoreOp α} {F G : α → Disk → Prop} (h : Reads m F)
    (hG : ∀ a disk, F a disk → G a disk) : Reads m G :=
  fun w => ⟨(h w).1, fun a ha => hG a _ ((h w).2 a ha)⟩

/-- Reading after reading: what the first operation found holds when the second one runs. -/
theorem Reads.bind {α β : Type} {m : StoreOp α} {f : α → StoreOp β} {F : α → Disk → Prop}
    {G : β → Disk → Prop} (hm : Reads m F)
    (hf : ∀ a, Reads (f a) fun b disk => F a disk → G b disk) : Reads (m >>= f) G := by
  intro w
  have hdisk := (hm w).1
  cases h : (m w).result with
  | error e =>
      rw [Eff.bind_error h]
      exact ⟨hdisk, fun b hb => by cases hb⟩
  | ok a =>
      rw [Eff.bind_ok h]
      refine ⟨((hf a _).1).trans hdisk, fun b hb => ?_⟩
      have hG := (hf a _).2 b hb
      rw [hdisk] at hG
      exact hG ((hm w).2 a h)

theorem reads_pure {α : Type} (a : α) : Reads (pure a) fun b _ => b = a :=
  fun _ => ⟨rfl, fun _ hb => (Except.ok.inj hb).symm⟩

theorem reads_fail {α : Type} (e : StoreHalt) {F : α → Disk → Prop} : Reads (Eff.fail e) F :=
  fun _ => ⟨rfl, fun _ ha => by cases ha⟩

theorem reads_ofResult {α : Type} (r : Except PolicyError α) :
    Reads (StoreOp.ofResult r) fun a _ => r = .ok a :=
  fun _ => ⟨rfl, fun _ ha => (mapErr_eq_ok _ _ _).1 ha⟩

theorem reads_access : Reads (access env) fun _ _ => True := by
  intro w
  unfold access
  cases env.fault w.tick <;> exact ⟨rfl, fun _ _ => trivial⟩

theorem reads_utcNow : Reads (utcNow env) fun _ _ => True := fun _ => ⟨rfl, fun _ _ => trivial⟩

theorem reads_fileExists (path : StorePath) : Reads (fileExists env path) fun _ _ => True := by
  intro w
  unfold fileExists
  cases env.fault w.tick with
  | some f => cases f <;> exact ⟨rfl, fun _ _ => trivial⟩
  | none => exact ⟨rfl, fun _ _ => trivial⟩

theorem reads_readToString (path : StorePath) :
    Reads (readToString env path) fun text disk => disk path = some text := by
  have htext : Reads (fileText path) fun text disk => disk path = some text := by
    refine fun w => ⟨rfl, fun text h => ?_⟩
    simp only [fileText, Disk.text] at h
    split at h
    · rw [← Except.ok.inj h]
      assumption
    · cases h
  exact reads_access.bind fun _ => htext.mono fun _ _ h _ => h

theorem reads_readActiveDsl : Reads (readActiveDsl env) fun _ _ => True := by
  refine (reads_fileExists .active).bind fun found => ?_
  cases found with
  | true => exact (reads_readToString .active).mono fun _ _ _ _ => trivial
  | false => exact (reads_pure "").mono fun _ _ _ _ => trivial

/-- The head that is found is the trimmed text of its file. -/
theorem reads_headRevision : Reads (headRevision env) fun found disk =>
    ∀ id, found = some id → ∃ text, disk .head = some text ∧ id = Text.trim text := by
  refine (reads_fileExists .head).bind fun found => ?_
  cases found with
  | true =>
      refine (reads_readToString .head).bind fun text => (reads_pure _).mono ?_
      rintro _ disk rfl htext _ id hid
      exact ⟨text, htext, (Option.some.inj hid).symm⟩
  | false =>
      refine (reads_pure _).mono ?_
      rintro _ disk rfl _ id hid
      cases hid

/-- The head is the trimmed text of its file. -/
theorem reads_requireHead (missing : String) :
    Reads (requireHead env missing) fun id disk =>
      ∃ text, disk .head = some text ∧ id = Text.trim text := by
  refine reads_headRevision.bind fun found => ?_
  cases found with
  | none => exact reads_fail _
  | some id =>
      refine (reads_pure id).mono ?_
      rintro _ disk rfl h
      exact h _ rfl

theorem reads_loadRevision (id : String) :
    Reads (loadRevision env id) fun rev disk =>
      ∃ text, disk (.revision id) = some text ∧ env.fromJson text = .ok rev := by
  refine (reads_readToString _).bind fun text => (reads_ofResult _).mono ?_
  intro rev disk hrev htext
  exact ⟨text, htext, (mapErr_eq_ok _ _ _).1 hrev⟩

/-- The deployed revision that is loaded is the one in its file. -/
theorem reads_loadDeployed :
    Reads (loadDeployed env) fun found disk => ∀ rev, found = some rev →
      ∃ text, disk .deployed = some text ∧ env.fromJson text = .ok rev := by
  refine (reads_fileExists .deployed).bind fun found => ?_
  cases found with
  | true =>
      refine (reads_readToString .deployed).bind fun text => (reads_ofResult _).bind fun rev =>
        (reads_pure _).mono ?_
      rintro _ disk rfl hrev htext _ rev' hsame
      obtain rfl := Option.some.inj hsame
      exact ⟨text, htext, (mapErr_eq_ok _ _ _).1 hrev⟩
  | false =>
      refine (reads_pure _).mono ?_
      rintro _ disk rfl _ rev hrev
      cases hrev

/-- The policies are those of the revision in the deployed file. -/
theorem reads_policySetFromDeployed :
    Reads (policySetFromDeployed env) fun found disk => ∃ text, disk .deployed = some text ∧
      env.fromJson text = .ok found.2 ∧ E.policySetFromStr found.2.cedar = .ok found.1 := by
  refine reads_loadDeployed.bind fun found => ?_
  cases found with
  | none => exact reads_fail _
  | some rev =>
      refine (reads_ofResult _).bind fun set => (reads_pure _).mono ?_
      rintro _ disk rfl hset h
      obtain ⟨text, htext, hrev⟩ := h rev rfl
      exact ⟨text, htext, hrev, (mapErr_eq_ok _ _ _).1 hset⟩

/-! ## Reads without faults -/

/-- A file that is there is read when nothing fails. -/
theorem readToString_done {w : StoreWorld} {path : StorePath} {text : String}
    (hfault : env.fault w.tick = none) (hdisk : w.disk path = some text) :
    readToString env path w = ⟨.ok text, ⟨w.disk, w.tick + 1⟩, []⟩ := by
  have haccess : access env w = ⟨.ok (), ⟨w.disk, w.tick + 1⟩, []⟩ := by
    rw [access, hfault]
  rw [readToString, Eff.bind_ok (congrArg Outcome.result haccess), haccess]
  dsimp only
  rw [fileText, Disk.text, hdisk]
  rfl

/-- The active text is read when nothing fails. -/
theorem readActiveDsl_done {w : StoreWorld} {dsl : String} (hfault : ∀ n, env.fault n = none)
    (hactive : w.disk .active = some dsl) :
    readActiveDsl env w = ⟨.ok dsl, ⟨w.disk, w.tick + 2⟩, []⟩ := by
  have hexists : fileExists env .active w = ⟨.ok true, ⟨w.disk, w.tick + 1⟩, []⟩ := by
    rw [fileExists, hfault, hactive]
    rfl
  have hread : readToString env .active ⟨w.disk, w.tick + 1⟩ =
      ⟨.ok dsl, ⟨w.disk, w.tick + 2⟩, []⟩ := readToString_done (hfault _) hactive
  rw [readActiveDsl, Eff.bind_ok (congrArg Outcome.result hexists), hexists]
  dsimp only
  rw [if_pos rfl, hread]
  rfl

/-- A stored revision is loaded when nothing fails. -/
theorem loadRevision_done {w : StoreWorld} {id text : String} {rev : PolicyRevision}
    (hfault : env.fault w.tick = none) (hdisk : w.disk (.revision id) = some text)
    (hjson : env.fromJson text = .ok rev) :
    loadRevision env id w = ⟨.ok rev, ⟨w.disk, w.tick + 1⟩, []⟩ := by
  have hread := readToString_done hfault hdisk
  rw [loadRevision, Eff.bind_ok (congrArg Outcome.result hread), hread]
  dsimp only
  rw [StoreOp.ofResult, (mapErr_eq_ok _ _ _).2 ((mapErr_eq_ok _ _ _).2 hjson)]
  rfl

/-! ## Triples on the disk -/

/-- A property of the disk. -/
def OnDisk (P : Disk → Prop) : StoreWorld → Prop := fun w => P w.disk

/-- An operation that only reads keeps every promise about the disk. -/
theorem Reads.triple {α : Type} {m : StoreOp α} {F : α → Disk → Prop} (h : Reads m F)
    {P R : Disk → Prop} (hR : ∀ disk, P disk → R disk) :
    Triple (OnDisk P) m (fun a => OnDisk fun disk => P disk ∧ F a disk) (OnDisk R) := by
  intro w hw
  have hdisk := (h w).1
  simp only [OnDisk, hdisk]
  exact ⟨fun a ha => ⟨hw, (h w).2 a ha⟩, fun _ _ => hR _ hw⟩

/-- A failing write leaves the disk as it was. -/
theorem triple_writeFile {P Q R : Disk → Prop} {path : StorePath} {text : String}
    (hQ : ∀ disk, P disk → Q (disk.write path text)) (hR : ∀ disk, P disk → R disk) :
    Triple (OnDisk P) (writeFile env path text) (fun _ => OnDisk Q) (OnDisk R) :=
  (reads_access.triple hR).bind fun _ => Eff.triple_modify _ fun w hw => hQ w.disk hw.1

/-- **A failing deployment leaves the deployed revision as it was.** -/
theorem triple_deployHead_failed (deployed : Option String) :
    Triple (OnDisk fun disk => disk .deployed = deployed) (deployHead env) (fun _ _ => True)
      (OnDisk fun disk => disk .deployed = deployed) := by
  refine ((reads_requireHead _).triple fun _ => id).bind fun revId => ?_
  refine ((reads_loadRevision revId).triple fun _ h => h.1).bind fun rev => ?_
  split
  · exact Eff.triple_fail _ fun w hw => hw.1.1
  · refine (triple_writeFile (Q := fun _ => True) (fun _ _ => trivial) fun _ h => h.1.1).bind
      fun _ => Eff.triple_pure _ fun _ _ => trivial

/-! ## Sound disks -/

/-- The Cedar text of the revision is the translation of its own DSL text. -/
def PolicyRevision.Translated (rev : PolicyRevision) : Prop :=
  ∃ policies, parseDsl rev.dsl = .ok policies ∧ rev.cedar = dslToCedar policies

/-- The bundle is one for the texts of the revision, and one of the signers made it. -/
def SignedFor (env : StoreEnv E) (signers : Set BundleSigner) (rev : PolicyRevision)
    (b : SignedBundle) : Prop :=
  b.revision = rev.revision ∧ b.cedar = rev.cedar ∧ b.dsl = rev.dsl ∧
    ∃ signer ∈ signers, verifyBundle env.crypto b signer.verifyingKeyBytes = .ok true

/-- The head names a stored revision whose Cedar text is the translation of its DSL text. -/
def HeadSound (env : StoreEnv E) (disk : Disk) : Prop :=
  ∀ name, disk .head = some name → ∃ text rev,
    disk (.revision (Text.trim name)) = some text ∧ env.fromJson text = .ok rev ∧
      rev.revision = Text.trim name ∧ rev.Translated

/-- The deployed revision carries a bundle signed for its texts. -/
def DeployedSound (env : StoreEnv E) (signers : Set BundleSigner) (disk : Disk) : Prop :=
  ∀ text, disk .deployed = some text →
    ∃ rev b, env.fromJson text = .ok rev ∧ rev.bundle = some b ∧ SignedFor env signers rev b

/-- A revision that may be stored under the name. -/
structure GoodRevision (env : StoreEnv E) (signers : Set BundleSigner) (id : String)
    (rev : PolicyRevision) : Prop where
  named : rev.revision = id
  translated : rev.Translated
  signed : ∀ b, rev.bundle = some b → SignedFor env signers rev b

/-- **What every disk of a run satisfies.** -/
structure Sound (env : StoreEnv E) (signers : Set BundleSigner) (disk : Disk) : Prop where
  revision : ∀ id text, disk (.revision id) = some text →
    ∃ rev, env.fromJson text = .ok rev ∧ GoodRevision env signers id rev
  head : ∀ name, disk .head = some name → (disk (.revision (Text.trim name))).isSome = true
  deployed : DeployedSound env signers disk

variable {signers : Set BundleSigner}

/-- A fresh store is sound. -/
theorem sound_empty : Sound env signers fun _ => none where
  revision _ _ h := by cases h
  head _ h := by cases h
  deployed _ h := by cases h

theorem Sound.headSound {disk : Disk} (h : Sound env signers disk) : HeadSound env disk := by
  intro name hname
  obtain ⟨text, htext⟩ := Option.isSome_iff_exists.1 (h.head name hname)
  obtain ⟨rev, hrev, hgood⟩ := h.revision _ text htext
  exact ⟨text, rev, htext, hrev, hgood.named, hgood.translated⟩

/-! ## Writes that keep a disk sound -/

/-- Nothing is promised of the active text. -/
theorem Sound.writeActive {disk : Disk} (h : Sound env signers disk) (text : String) :
    Sound env signers (disk.write .active text) where
  revision id t ht := h.revision id t (by rwa [Disk.write_other _ _ (by simp)] at ht)
  head name hname := by
    rw [Disk.write_other _ _ (by simp)] at hname ⊢
    exact h.head name hname
  deployed t ht := h.deployed t (by rwa [Disk.write_other _ _ (by simp)] at ht)

/-- A good revision may be stored under its name, also over another. -/
theorem Sound.writeRevision {disk : Disk} (h : Sound env signers disk)
    (hjson : ∀ rev, env.fromJson (env.toJson rev) = .ok rev) {id : String} {rev : PolicyRevision}
    (hrev : GoodRevision env signers id rev) :
    Sound env signers (disk.write (.revision id) (env.toJson rev)) where
  revision id' t ht := by
    by_cases hid : id' = id
    · subst hid
      rw [Disk.write_same] at ht
      exact ⟨rev, by rw [← Option.some.inj ht]; exact hjson rev, hrev⟩
    · exact h.revision id' t (by rwa [Disk.write_other _ _ (by simpa using hid)] at ht)
  head name hname := by
    rw [Disk.write_other _ _ (by simp)] at hname
    by_cases hid : Text.trim name = id
    · rw [hid, Disk.write_same]
      rfl
    · rw [Disk.write_other _ _ (by simpa using hid)]
      exact h.head name hname
  deployed t ht := h.deployed t (by rwa [Disk.write_other _ _ (by simp)] at ht)

/-- The head may be set to the name of a stored revision. -/
theorem Sound.writeHead {disk : Disk} (h : Sound env signers disk) {name : String}
    (hname : (disk (.revision (Text.trim name))).isSome = true) :
    Sound env signers (disk.write .head name) where
  revision id t ht := h.revision id t (by rwa [Disk.write_other _ _ (by simp)] at ht)
  head name' hname' := by
    rw [Disk.write_same] at hname'
    rw [← Option.some.inj hname', Disk.write_other _ _ (by simp)]
    exact hname
  deployed t ht := h.deployed t (by rwa [Disk.write_other _ _ (by simp)] at ht)

/-- A revision with a bundle for its own texts may be deployed. -/
theorem Sound.writeDeployed {disk : Disk} (h : Sound env signers disk)
    (hjson : ∀ rev, env.fromJson (env.toJson rev) = .ok rev) {rev : PolicyRevision}
    {b : SignedBundle} (hb : rev.bundle = some b) (hsigned : SignedFor env signers rev b) :
    Sound env signers (disk.write .deployed (env.toJson rev)) where
  revision id t ht := h.revision id t (by rwa [Disk.write_other _ _ (by simp)] at ht)
  head name hname := by
    rw [Disk.write_other _ _ (by simp)] at hname ⊢
    exact h.head name hname
  deployed t ht := by
    rw [Disk.write_same] at ht
    exact ⟨rev, b, by rw [← Option.some.inj ht]; exact hjson rev, hb, hsigned⟩

/-! ## The operations keep a disk sound -/

/-- The operation keeps the disk sound, also where it fails. -/
def KeepsSound {α : Type} (env : StoreEnv E) (signers : Set BundleSigner) (m : StoreOp α) : Prop :=
  Triple (OnDisk (Sound env signers)) m (fun _ => OnDisk (Sound env signers))
    (OnDisk (Sound env signers))

theorem writeActiveDsl_keepsSound (dsl : String) :
    KeepsSound env signers (writeActiveDsl env dsl) :=
  triple_writeFile (fun _ h => h.writeActive dsl) fun _ => id

/-- **A commit keeps the store sound**, also when it stops between its two writes. -/
theorem commit_keepsSound (hjson : ∀ rev, env.fromJson (env.toJson rev) = .ok rev)
    (message : String) : KeepsSound env signers (commit env message) := by
  refine (reads_readActiveDsl.triple fun _ => id).bind fun dsl => ?_
  refine ((reads_ofResult _).triple fun _ h => h.1).bind fun policies => ?_
  refine (reads_utcNow.triple fun _ h => h.1.1).bind fun hashed => ?_
  refine (reads_utcNow.triple fun _ h => h.1.1.1).bind fun created => ?_
  dsimp only
  refine (triple_writeFile (Q := fun disk => Sound env signers disk ∧
    (disk (.revision (revisionOf env (dslToCedar policies) message hashed.timestamp))).isSome = true)
    ?_ fun _ h => h.1.1.1.1).bind fun _ => ?_
  · -- the revision is good: its text was parsed, and it has no bundle yet
    rintro disk ⟨⟨⟨⟨hsound, -⟩, hvalid⟩, -⟩, -⟩
    refine ⟨hsound.writeRevision hjson ⟨rfl, ⟨policies, (validateDsl_ok hvalid).1, rfl⟩,
      fun b hb => by cases hb⟩, ?_⟩
    rw [Disk.write_same]
    rfl
  · refine (triple_writeFile (Q := Sound env signers) ?_ fun _ h => h.1).bind
      fun _ => Eff.triple_pure _ fun _ => id
    rintro disk ⟨hsound, hstored⟩
    refine hsound.writeHead ?_
    rw [revisionOf, Hex.trim_encode]
    exact hstored

/-- **Signing keeps the store sound**: the bundle is one for the texts of the head revision. -/
theorem signHead_keepsSound (hjson : ∀ rev, env.fromJson (env.toJson rev) = .ok rev)
    (hbase64 : ∀ bs, env.crypto.base64Decode (env.crypto.base64Encode bs) = .ok bs)
    {signer : BundleSigner} (hsigner : signer ∈ signers) (hgenuine : signer.Genuine env.crypto) :
    KeepsSound env signers (signHead env signer) := by
  refine ((reads_requireHead _).triple fun _ => id).bind fun revId => ?_
  refine ((reads_loadRevision revId).triple fun _ h => h.1).bind fun rev => ?_
  refine (reads_utcNow.triple fun _ h => h.1.1).bind fun signed => ?_
  refine ((reads_ofResult _).triple fun _ h => h.1.1.1).bind fun bundle => ?_
  refine (triple_writeFile (Q := Sound env signers) ?_ fun _ h => h.1.1.1.1).bind
    fun _ => Eff.triple_pure _ fun _ => id
  rintro disk ⟨⟨⟨⟨hsound, -⟩, text, htext, hrev⟩, -⟩, hbundle⟩
  obtain ⟨rev', hrev', hgood⟩ := hsound.revision revId text htext
  obtain rfl := Except.ok.inj (hrev.symm.trans hrev')
  have hverifies := verifyBundle_signBundle hgenuine hbase64 hbundle
  obtain ⟨sig, -, rfl⟩ := signBundle_ok hbundle
  refine hsound.writeRevision hjson ⟨hgood.named, hgood.translated, fun b hb => ?_⟩
  obtain rfl := Option.some.inj hb
  exact ⟨rfl, rfl, rfl, signer, hsigner, hverifies⟩

/-- **Deploying keeps the store sound**: an unsigned head is refused. -/
theorem deployHead_keepsSound (hjson : ∀ rev, env.fromJson (env.toJson rev) = .ok rev) :
    KeepsSound env signers (deployHead env) := by
  refine ((reads_requireHead _).triple fun _ => id).bind fun revId => ?_
  refine ((reads_loadRevision revId).triple fun _ h => h.1).bind fun rev => ?_
  cases hbundle : rev.bundle with
  | none => exact Eff.triple_fail _ fun _ h => h.1.1
  | some b =>
      refine (triple_writeFile (Q := Sound env signers) ?_ fun _ h => h.1.1).bind
        fun _ => Eff.triple_pure _ fun _ => id
      rintro disk ⟨⟨hsound, -⟩, text, htext, hrev⟩
      obtain ⟨rev', hrev', hgood⟩ := hsound.revision revId text htext
      obtain rfl := Except.ok.inj (hrev.symm.trans hrev')
      exact hsound.writeDeployed hjson hbundle (hgood.signed b hbundle)

/-! ## Runs -/

/-- A call of an operation. -/
inductive StoreCall where
  | writeActiveDsl (dsl : String)
  | commit (message : String)
  | signHead (signer : BundleSigner)
  | deployHead

/-- The operation, without its result. -/
def StoreCall.run (env : StoreEnv E) : StoreCall → StoreOp Unit
  | .writeActiveDsl dsl => Paac.writeActiveDsl env dsl
  | .commit message => do
      let _ ← Paac.commit env message
      return ()
  | .signHead signer => do
      let _ ← Paac.signHead env signer
      return ()
  | .deployHead => do
      let _ ← Paac.deployHead env
      return ()

/-- The calls one after the other, each of which may fail or stop. -/
def runCalls (env : StoreEnv E) (calls : List StoreCall) (w : StoreWorld) : StoreWorld :=
  calls.foldl (fun w call => (call.run env w).state) w

/-- The signers of the calls. -/
def signersOf (calls : List StoreCall) : Set BundleSigner := {signer | .signHead signer ∈ calls}

theorem KeepsSound.discard {α : Type} {m : StoreOp α} (h : KeepsSound env signers m) :
    KeepsSound env signers (do let _ ← m; return ()) :=
  h.bind fun _ => Eff.triple_pure _ fun _ => id

/-- A triple with one invariant is about the state left, whatever the result. -/
theorem KeepsSound.state {α : Type} {m : StoreOp α} (h : KeepsSound env signers m) {w : StoreWorld}
    (hw : Sound env signers w.disk) : Sound env signers (m w).state.disk := by
  cases hr : (m w).result with
  | error e => exact (h w hw).2 e hr
  | ok a => exact (h w hw).1 a hr

/-- Every disk of a run is sound. -/
theorem runCalls_sound (hjson : ∀ rev, env.fromJson (env.toJson rev) = .ok rev)
    (hbase64 : ∀ bs, env.crypto.base64Decode (env.crypto.base64Encode bs) = .ok bs)
    (calls : List StoreCall)
    (hgenuine : ∀ signer, .signHead signer ∈ calls →
      signer ∈ signers ∧ signer.Genuine env.crypto) :
    ∀ w : StoreWorld, Sound env signers w.disk →
      Sound env signers (runCalls env calls w).disk := by
  induction calls with
  | nil => exact fun w hw => hw
  | cons call calls ih =>
      intro w hw
      refine ih (fun signer h => hgenuine signer (List.mem_cons_of_mem _ h)) _ ?_
      cases call with
      | writeActiveDsl dsl => exact (writeActiveDsl_keepsSound dsl).state hw
      | commit message => exact (commit_keepsSound hjson message).discard.state hw
      | signHead signer =>
          obtain ⟨hsigner, hsig⟩ := hgenuine signer List.mem_cons_self
          exact (signHead_keepsSound hjson hbase64 hsigner hsig).discard.state hw
      | deployHead => exact (deployHead_keepsSound hjson).discard.state hw

/-- **The lifecycle invariant.** After any calls on a fresh store, with faults at any accesses, the
head and the deployed revision are sound; and a deployment that fails leaves the deployed revision
as it was. -/
theorem lifecycle_invariant (env : StoreEnv E) (calls : List StoreCall) (start : Nat)
    (hjson : ∀ rev, env.fromJson (env.toJson rev) = .ok rev)
    (hbase64 : ∀ bs, env.crypto.base64Decode (env.crypto.base64Encode bs) = .ok bs)
    (hgenuine : ∀ signer, .signHead signer ∈ calls → signer.Genuine env.crypto) :
    HeadSound env (runCalls env calls ⟨fun _ => none, start⟩).disk ∧
      DeployedSound env (signersOf calls) (runCalls env calls ⟨fun _ => none, start⟩).disk ∧
      ∀ w e, (deployHead env w).result = .error e →
        (deployHead env w).state.disk .deployed = w.disk .deployed := by
  have hsound := @runCalls_sound _ _ (signersOf calls) hjson hbase64 calls
    (fun signer h => ⟨h, hgenuine signer h⟩) ⟨fun _ => none, start⟩ sound_empty
  exact ⟨hsound.headSound, hsound.deployed,
    fun w e h => (triple_deployHead_failed (w.disk .deployed) w rfl).2 e h⟩

end

/-! ## A revision goes live -/

namespace KnownStore

open KnownRevision

def unsigned : PolicyRevision :=
  ⟨revision, "first", "2023-11-14T22:13:20+00:00", cedar, dsl, none⟩

def signed : PolicyRevision := { unsigned with bundle := some bundle }

/-- A printed record with one member a line. -/
def recordText (indent : String) (members : List (String × String)) : String :=
  "\x7b\n" ++ Text.join ",\n" (members.map fun m => indent ++ "  \"" ++ m.1 ++ "\": " ++ m.2) ++
    "\n" ++ indent ++ "\x7d"

def bundleText (cedar : String) : String :=
  recordText "  " [("revision", Json.quote revision),
    ("content_sha256", Json.quote (Hex.encode digest.1)), ("cedar", Json.quote cedar),
    ("dsl", Json.quote dsl), ("signature_b64", Json.quote signatureB64),
    ("key_id", Json.quote "k1"), ("signed_at", Json.quote "2023-11-14T22:13:20+00:00")]

def revisionText (cedar bundle : String) : String :=
  recordText "" [("revision", Json.quote revision), ("message", Json.quote "first"),
    ("created_at", Json.quote "2023-11-14T22:13:20+00:00"), ("cedar", Json.quote cedar),
    ("dsl", Json.quote dsl), ("bundle", bundle)]

instance encodableChar : Encodable Char :=
  Encodable.ofLeftInverse Char.toNat Char.ofNat fun c => by simp

instance encodableString : Encodable String :=
  Encodable.ofLeftInverse String.toList String.ofList fun _ => String.ofList_toList

deriving instance Encodable for SignedBundle, PolicyRevision

/-- Surroundings without faults at one moment; a revision other than the two above prints as a text
that is no JSON. -/
def env : StoreEnv Engine.reference where
  crypto := lib
  toJson rev :=
    if rev = unsigned then revisionText cedar "null"
    else if rev = signed then revisionText cedar (bundleText cedar)
    else String.ofList ('?' :: List.replicate (Encodable.encode rev) 'x')
  fromJson text :=
    if text = revisionText cedar "null" then .ok unsigned
    else if text = revisionText cedar (bundleText cedar) then .ok signed
    else match (Encodable.decode (text.toList.length - 1) : Option PolicyRevision) with
      | some rev => .ok rev
      | none => .error "expected value at line 1 column 1"
  now _ := ⟨1700000000, "2023-11-14T22:13:20+00:00"⟩
  fault _ := none

/-- The text of the signed revision is the longer one. -/
theorem revisionText_ne : revisionText cedar (bundleText cedar) ≠ revisionText cedar "null" := by
  intro h
  have hlength := congrArg String.length h
  simp only [revisionText, recordText, List.map_cons, List.map_nil, Text.join_cons_cons,
    Text.join_singleton, String.length_append] at hlength
  have hnull : ("null" : String).length = 4 := rfl
  have hlong : 4 < (bundleText cedar).length := by
    have hindent : ("  " : String).length = 2 := rfl
    have hopen : ("\x7b\n" : String).length = 2 := rfl
    have hline : ("\n" : String).length = 1 := rfl
    simp only [bundleText, recordText, String.length_append]
    omega
  omega

/-- Every revision is read back from its text. -/
theorem fromJson_toJson (rev : PolicyRevision) : env.fromJson (env.toJson rev) = .ok rev := by
  have hopen : ∀ b, (revisionText cedar b).toList.head? = some '\x7b' := by
    intro b
    rw [revisionText, recordText, String.append_assoc, String.append_assoc, String.append_assoc,
      String.toList_append]
    rfl
  have hmark : ∀ b cs, String.ofList ('?' :: cs) ≠ revisionText cedar b := by
    intro b cs h
    have hhead := hopen b
    rw [← h, String.toList_ofList] at hhead
    cases hhead
  simp only [env]
  by_cases h₁ : rev = unsigned
  · rw [if_pos h₁, if_pos rfl, h₁]
  · by_cases h₂ : rev = signed
    · rw [if_neg h₁, if_pos h₂, if_neg revisionText_ne, if_pos rfl, h₂]
    · rw [if_neg h₁, if_neg h₂, if_neg (hmark _ _), if_neg (hmark _ _), String.toList_ofList,
        List.length_cons, List.length_replicate, Nat.add_sub_cancel, Encodable.encodek]

/-- Write, commit, sign, deploy. -/
def calls : List StoreCall :=
  [.writeActiveDsl dsl, .commit "first", .signHead signer, .deployHead]

/-! ### The JSON forms written out -/

def cedarJson : String :=
  "\"// Generated by authz-policy from PAAC DSL\\n@id(\\\"chat\\\")\\npermit (\\n  principal,\\n" ++
  "  action == Action::\\\"READ\\\",\\n  resource\\n) when \x7b\\n" ++
  "  context.resource_kind == \\\"GENERAL_CHAT\\\" &&\\n" ++
  "  context.action_name == \\\"READ\\\"\\n\x7d;\\n\\n\""

def dslJson : String := "\"policy \\\"chat\\\"\\nallow READ GENERAL_CHAT\\n\""

def digestJson : String := "\"b145f76c3eeeae995964e7bd59edfd9bb856ad4fc4c1a59aad9df57ad91e61ad\""

def signatureJson : String :=
  "\"qtWjUY4jaX7BSMNqZYO1b4qnbXnaZOAN61DGMiiWpooWIokAPuaDzXUXum/Wcpf/nrt2FCkeHX0uMSzlpiDxDg==\""

theorem quote_cedar : Json.quote cedar = cedarJson := by decide +kernel

theorem quote_dsl : Json.quote dsl = dslJson := by decide +kernel

theorem quote_digest : Json.quote (Hex.encode digest.1) = digestJson := by decide +kernel

theorem quote_signature : Json.quote signatureB64 = signatureJson := by decide +kernel

theorem quote_short : Json.quote revision = "\"4390ac8f6b3a124e\"" ∧
    Json.quote "first" = "\"first\"" ∧ Json.quote "k1" = "\"k1\"" ∧
    Json.quote "2023-11-14T22:13:20+00:00" = "\"2023-11-14T22:13:20+00:00\"" := by decide +kernel

/-- The text of the bundle, written out. -/
def writtenBundle : String :=
  recordText "  " [("revision", "\"4390ac8f6b3a124e\""), ("content_sha256", digestJson),
    ("cedar", cedarJson), ("dsl", dslJson), ("signature_b64", signatureJson),
    ("key_id", "\"k1\""), ("signed_at", "\"2023-11-14T22:13:20+00:00\"")]

/-- The text of a revision, written out. -/
def writtenRevision (bundle : String) : String :=
  recordText "" [("revision", "\"4390ac8f6b3a124e\""), ("message", "\"first\""),
    ("created_at", "\"2023-11-14T22:13:20+00:00\""), ("cedar", cedarJson), ("dsl", dslJson),
    ("bundle", bundle)]

theorem bundleText_written : bundleText cedar = writtenBundle := by
  obtain ⟨hrevision, -, hkey, htime⟩ := quote_short
  rw [bundleText, quote_cedar, quote_dsl, quote_digest, quote_signature, hrevision, hkey, htime,
    writtenBundle]

theorem revisionText_written (b : String) : revisionText cedar b = writtenRevision b := by
  obtain ⟨hrevision, hmessage, -, htime⟩ := quote_short
  rw [revisionText, quote_cedar, quote_dsl, hrevision, hmessage, htime, writtenRevision]

/-- The surroundings with the texts written out: runs in them are quick to compute. -/
def writtenEnv : StoreEnv Engine.reference :=
  { env with
    toJson := fun rev =>
      if rev = unsigned then writtenRevision "null"
      else if rev = signed then writtenRevision writtenBundle
      else String.ofList ('?' :: List.replicate (Encodable.encode rev) 'x')
    fromJson := fun text =>
      if text = writtenRevision "null" then .ok unsigned
      else if text = writtenRevision writtenBundle then .ok signed
      else match (Encodable.decode (text.toList.length - 1) : Option PolicyRevision) with
        | some rev => .ok rev
        | none => .error "expected value at line 1 column 1" }

theorem env_written : env = writtenEnv := by
  simp only [env, writtenEnv, revisionText_written, bundleText_written]

/-- Where the calls end, with what they deploy. -/
def live : { w : StoreWorld // w = runCalls env calls ⟨fun _ => none, 0⟩ ∧
    w.disk .deployed = some (revisionText cedar (bundleText cedar)) } :=
  ⟨runCalls env calls ⟨fun _ => none, 0⟩, rfl, by
    rw [env_written, revisionText_written, bundleText_written]
    decide +kernel⟩

end KnownStore

/-- The signed revision goes live, and the store is sound. -/
theorem lifecycle_goes_live :
    (runCalls KnownStore.env KnownStore.calls ⟨fun _ => none, 0⟩).disk .deployed =
        some (KnownStore.revisionText KnownRevision.cedar
          (KnownStore.bundleText KnownRevision.cedar)) ∧
      HeadSound KnownStore.env
        (runCalls KnownStore.env KnownStore.calls ⟨fun _ => none, 0⟩).disk ∧
      DeployedSound KnownStore.env (signersOf KnownStore.calls)
        (runCalls KnownStore.env KnownStore.calls ⟨fun _ => none, 0⟩).disk := by
  have hgenuine : ∀ signer, .signHead signer ∈ KnownStore.calls →
      signer.Genuine KnownStore.env.crypto := by
    intro signer h
    simp only [KnownStore.calls, List.mem_cons, reduceCtorEq, StoreCall.signHead.injEq,
      List.not_mem_nil, or_false, false_or] at h
    rw [h]
    exact KnownRevision.genuine
  obtain ⟨hhead, hdeployed, -⟩ := lifecycle_invariant KnownStore.env KnownStore.calls 0
    KnownStore.fromJson_toJson KnownRevision.base64 hgenuine
  obtain ⟨hw, hlive⟩ := KnownStore.live.2
  rw [hw] at hlive
  exact ⟨hlive, hhead, hdeployed⟩

end Paac
