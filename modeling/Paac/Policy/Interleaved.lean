import Paac.Library.Concurrent
import Paac.Policy.Lifecycle

set_option autoImplicit false

/-!
# The store under concurrent processes

Nothing locks a store: the command line, a gateway and a starting proxy may use it at the same time.
Each operation of the store is here a process whose atomic actions are the accesses to the disk and
the readings of the clock. A write of a file is one such action: it is done or it fails, and a
process stops between two actions.

An operation does not rely on the files that it has read staying as they are, but for one thing: the
revision that a head names stays stored. What makes this enough is in the files themselves: a
revision file holds everything that a signature or a deployment needs, it is stored before the head
names it, and no operation removes it. So the protocol of the store (`storeProtocol`) has one rule
for what a process may find later, and the disk invariant (`Governed`) for everything else.

## Main results

- `InTurns.run_commit` and its companions: alone, the process is the operation of `Store.lean`.
- `Governed.writeActive`, `Governed.writeRevision`, `Governed.writeHead`, `Governed.writeDeployed`:
  which writes keep the invariant.
- `keeps_commit`, `keeps_signHead`, `keeps_deployHead`, `keeps_policySetFromDeployed`: each
  operation keeps the protocol, whatever the others do between its actions, and promises something
  about its answer.
- `StoreTask.keeps`: so does every process.
- `lifecycle_interleaved`: in every interleaving the head and the deployed revision are sound, and
  every process that ends has what it promises.
-/

namespace Paac

open Cedar (Engine)

section

variable {E : Engine} (env : StoreEnv E)

/-- A process on a store. -/
abbrev StoreProc (α : Type) : Type 1 := Proc StoreHalt StoreWorld Empty α

/-! ## The operations, action by action -/

namespace InTurns

/-- A result of the policy crate. -/
def ofResult {α : Type} (r : Except PolicyError α) : StoreProc α := .done (mapErr .error r)

/-- `PolicyStore::write_active_dsl`. -/
def writeActiveDsl (dsl : String) : StoreProc Unit := .atom (writeFile env .active dsl)

/-- `PolicyStore::read_active_dsl`. -/
def readActiveDsl : StoreProc String := do
  if ← .atom (fileExists env .active) then .atom (readToString env .active) else return ""

/-- `PolicyStore::commit`. -/
def commit (message : String) : StoreProc PolicyRevision := do
  let dsl ← readActiveDsl env
  let policies ← ofResult (validateDsl E dsl)
  let cedar := dslToCedar policies
  let hashed ← .atom (utcNow env)
  let created ← .atom (utcNow env)
  let rev : PolicyRevision :=
    { revision := revisionOf env cedar message hashed.timestamp
      message
      createdAt := created.rfc3339
      cedar
      dsl
      bundle := none }
  .atom (writeFile env (.revision rev.revision) (env.toJson rev))
  .atom (writeFile env .head rev.revision)
  return rev

/-- `PolicyStore::head_revision`. -/
def headRevision : StoreProc (Option String) := do
  if ← .atom (fileExists env .head) then do
    let text ← .atom (readToString env .head)
    return some (Text.trim text)
  else return none

/-- `PolicyStore::load_revision`. -/
def loadRevision (revision : String) : StoreProc PolicyRevision := do
  let data ← .atom (readToString env (.revision revision))
  ofResult (mapErr .store (env.fromJson data))

/-- The head revision, or the error that there is none. -/
def requireHead (missing : String) : StoreProc String := do
  match ← headRevision env with
  | some id => return id
  | none => .done (.error (.error (.store missing)))

/-- `PolicyStore::sign_head`. -/
def signHead (signer : BundleSigner) : StoreProc SignedBundle := do
  let revId ← requireHead env "no HEAD revision; run policy commit first"
  let rev ← loadRevision env revId
  let signed ← .atom (utcNow env)
  let bundle ← ofResult
    (signBundle env.crypto signer rev.revision rev.cedar rev.dsl signed.rfc3339)
  .atom (writeFile env (.revision revId) (env.toJson { rev with bundle := some bundle }))
  return bundle

/-- `PolicyStore::deploy_head`. -/
def deployHead : StoreProc PolicyRevision := do
  let revId ← requireHead env "no HEAD revision"
  let rev ← loadRevision env revId
  if rev.bundle.isNone then
    .done (.error (.error (.store "HEAD is not signed; run policy sign first")))
  else do
    .atom (writeFile env .deployed (env.toJson rev))
    return rev

/-- `PolicyStore::load_deployed`. -/
def loadDeployed : StoreProc (Option PolicyRevision) := do
  if ← .atom (fileExists env .deployed) then do
    let data ← .atom (readToString env .deployed)
    let rev ← ofResult (mapErr .store (env.fromJson data))
    return some rev
  else return none

/-- `PolicyStore::policy_set_from_deployed`. -/
def policySetFromDeployed : StoreProc (E.PolicySet × PolicyRevision) := do
  match ← loadDeployed env with
  | none => .done (.error (.error (.store "no deployed policy bundle")))
  | some rev => do
      let set ← ofResult (mapErr .cedar (E.policySetFromStr rev.cedar))
      return (set, rev)

/-! ### Without the others -/

variable {env}

@[simp] theorem run_ofResult {α : Type} (r : Except PolicyError α) :
    (ofResult r).run = StoreOp.ofResult r := rfl

theorem run_writeActiveDsl (dsl : String) :
    (writeActiveDsl env dsl).run = Paac.writeActiveDsl env dsl := Proc.run_atom _

theorem run_readActiveDsl : (readActiveDsl env).run = Paac.readActiveDsl env := by
  simp only [readActiveDsl, Paac.readActiveDsl, Proc.run_bind, Proc.run_atom, Proc.run_ite,
    Proc.run_pure]

theorem run_commit (message : String) :
    (commit env message).run = Paac.commit env message := by
  simp only [commit, Paac.commit, Proc.run_bind, Proc.run_atom, Proc.run_pure, run_ofResult,
    run_readActiveDsl]

theorem run_headRevision : (headRevision env).run = Paac.headRevision env := by
  simp only [headRevision, Paac.headRevision, Proc.run_bind, Proc.run_atom, Proc.run_ite,
    Proc.run_pure]

theorem run_loadRevision (id : String) : (loadRevision env id).run = Paac.loadRevision env id := by
  simp only [loadRevision, Paac.loadRevision, Proc.run_bind, Proc.run_atom, run_ofResult]

theorem run_requireHead (missing : String) :
    (requireHead env missing).run = Paac.requireHead env missing := by
  rw [requireHead, Paac.requireHead, Proc.run_bind, run_headRevision]
  congr 1
  funext found
  cases found <;> rfl

theorem run_signHead (signer : BundleSigner) :
    (signHead env signer).run = Paac.signHead env signer := by
  simp only [signHead, Paac.signHead, Proc.run_bind, Proc.run_atom, Proc.run_pure, run_ofResult,
    run_requireHead, run_loadRevision]

theorem run_deployHead : (deployHead env).run = Paac.deployHead env := by
  simp only [deployHead, Paac.deployHead, Proc.run_bind, Proc.run_atom, Proc.run_pure,
    Proc.run_ite, Proc.run_done, run_requireHead, run_loadRevision]
  rfl

theorem run_loadDeployed : (loadDeployed env).run = Paac.loadDeployed env := by
  simp only [loadDeployed, Paac.loadDeployed, Proc.run_bind, Proc.run_atom, Proc.run_ite,
    Proc.run_pure, run_ofResult]

theorem run_policySetFromDeployed :
    (policySetFromDeployed env).run = Paac.policySetFromDeployed env := by
  rw [policySetFromDeployed, Paac.policySetFromDeployed, Proc.run_bind, run_loadDeployed]
  congr 1
  funext found
  cases found with
  | none => rfl
  | some rev => simp only [Proc.run_bind, Proc.run_pure, run_ofResult]

end InTurns

end

/-! ## Governed disks -/

section

variable {E : Engine} {env : StoreEnv E} {texts : Set String} {signers : Set BundleSigner}

/-- The revision was compiled from one of the texts, which passed validation. -/
def PolicyRevision.Authored (E : Engine) (texts : Set String) (rev : PolicyRevision) : Prop :=
  rev.dsl ∈ texts ∧ ∃ policies, validateDsl E rev.dsl = .ok policies ∧ rev.cedar = dslToCedar policies

/-- **What every disk of an interleaving satisfies**: it is sound, and what it stores or deploys was
compiled from one of the texts. -/
structure Governed (env : StoreEnv E) (texts : Set String) (signers : Set BundleSigner)
    (disk : Disk) : Prop where
  sound : Sound env signers disk
  active : ∀ text, disk .active = some text → text ∈ texts
  revision : ∀ id text rev, disk (.revision id) = some text → env.fromJson text = .ok rev →
    rev.Authored E texts
  deployed : ∀ text rev, disk .deployed = some text → env.fromJson text = .ok rev →
    rev.Authored E texts

/-- A store with nothing but an active text. -/
theorem governed_seed {seed : Option String} (h : ∀ text, seed = some text → text ∈ texts) :
    Governed env texts signers (fun | .active => seed | _ => none) where
  sound :=
    { revision := fun _ _ h => by cases h
      head := fun _ h => by cases h
      deployed := fun _ h => by cases h }
  active := h
  revision _ _ _ h := by cases h
  deployed _ _ h := by cases h

namespace Governed

variable {disk : Disk}

/-- A text that may be written may become the active one. -/
theorem writeActive (h : Governed env texts signers disk) {text : String} (htext : text ∈ texts) :
    Governed env texts signers (disk.write .active text) where
  sound := h.sound.writeActive text
  active t ht := by
    rw [Disk.write_same] at ht
    rwa [← Option.some.inj ht]
  revision id t rev ht := h.revision id t rev (by rwa [Disk.write_other _ _ (by simp)] at ht)
  deployed t rev ht := h.deployed t rev (by rwa [Disk.write_other _ _ (by simp)] at ht)

/-- A good revision of a text that was written may be stored. -/
theorem writeRevision (h : Governed env texts signers disk)
    (hjson : ∀ rev, env.fromJson (env.toJson rev) = .ok rev) {id : String} {rev : PolicyRevision}
    (hrev : GoodRevision env signers id rev) (hauthored : rev.Authored E texts) :
    Governed env texts signers (disk.write (.revision id) (env.toJson rev)) where
  sound := h.sound.writeRevision hjson hrev
  active t ht := h.active t (by rwa [Disk.write_other _ _ (by simp)] at ht)
  revision id' t rev' ht hrev' := by
    by_cases hid : id' = id
    · subst hid
      rw [Disk.write_same] at ht
      rw [← Option.some.inj ht, hjson] at hrev'
      rwa [← Except.ok.inj hrev']
    · exact h.revision id' t rev' (by rwa [Disk.write_other _ _ (by simpa using hid)] at ht) hrev'
  deployed t rev' ht := h.deployed t rev' (by rwa [Disk.write_other _ _ (by simp)] at ht)

/-- The head may be set to a stored revision. -/
theorem writeHead (h : Governed env texts signers disk) {name : String}
    (hname : (disk (.revision (Text.trim name))).isSome = true) :
    Governed env texts signers (disk.write .head name) where
  sound := h.sound.writeHead hname
  active t ht := h.active t (by rwa [Disk.write_other _ _ (by simp)] at ht)
  revision id t rev ht := h.revision id t rev (by rwa [Disk.write_other _ _ (by simp)] at ht)
  deployed t rev ht := h.deployed t rev (by rwa [Disk.write_other _ _ (by simp)] at ht)

/-- A signed revision of a text that was written may be deployed. -/
theorem writeDeployed (h : Governed env texts signers disk)
    (hjson : ∀ rev, env.fromJson (env.toJson rev) = .ok rev) {rev : PolicyRevision}
    {b : SignedBundle} (hb : rev.bundle = some b) (hsigned : SignedFor env signers rev b)
    (hauthored : rev.Authored E texts) :
    Governed env texts signers (disk.write .deployed (env.toJson rev)) where
  sound := h.sound.writeDeployed hjson hb hsigned
  active t ht := h.active t (by rwa [Disk.write_other _ _ (by simp)] at ht)
  revision id t rev' ht := h.revision id t rev' (by rwa [Disk.write_other _ _ (by simp)] at ht)
  deployed t rev' ht hrev' := by
    rw [Disk.write_same] at ht
    rw [← Option.some.inj ht, hjson] at hrev'
    rwa [← Except.ok.inj hrev']

end Governed

/-! ## What the processes rely on -/

/-- The disk stays governed, and a stored revision stays stored. No process owns anything. -/
def storeProtocol (ι : Type) (env : StoreEnv E) (texts : Set String) (signers : Set BundleSigner) :
    Protocol ι StoreWorld where
  Inv := OnDisk (Governed env texts signers)
  Step w w' := ∀ id, (w.disk (.revision id)).isSome = true → (w'.disk (.revision id)).isSome = true
  Own _ _ _ := True
  step_refl _ _ h := h
  step_trans h h' id hid := h' id (h id hid)
  own_refl _ _ := trivial
  own_trans _ _ := trivial

/-- A write removes no file. -/
theorem Disk.isSome_write {disk : Disk} {path : StorePath} {text : String} {path' : StorePath}
    (h : (disk path').isSome = true) : (disk.write path text path').isSome = true := by
  by_cases hpath : path' = path
  · subst hpath
    rw [Disk.write_same]
    rfl
  · rwa [Disk.write_other _ _ hpath]

variable {ι α : Type} {i : ι} {w : StoreWorld}

/-- Process `i` keeps the protocol of the store. -/
abbrev KeepsStore (env : StoreEnv E) (texts : Set String) (signers : Set BundleSigner) (i : ι)
    (Q : α → StoreWorld → Prop) (p : StoreProc α) (w : StoreWorld) : Prop :=
  p.Keeps (storeProtocol ι env texts signers) i Q w

/-- A state in which the store has been used since. -/
abbrev StoreSince (ι : Type) (env : StoreEnv E) (texts : Set String) (signers : Set BundleSigner)
    (w w' : StoreWorld) : Prop :=
  (storeProtocol ι env texts signers).Since w w'

/-- A read keeps the protocol; what it finds is true of a governed disk. -/
theorem Reads.keeps {m : StoreOp α} {F : α → Disk → Prop} (h : Reads m F)
    {Q : α → StoreWorld → Prop}
    (hQ : ∀ a t u, Governed env texts signers t.disk → F a t.disk →
      StoreSince ι env texts signers t u → Q a u) :
    KeepsStore env texts signers i Q (.atom m) w := by
  refine Proc.Keeps.atom fun t ht => ?_
  have hdisk := (h t).1
  have hsince : StoreSince ι env texts signers t (m t).state := by
    refine ⟨fun id hid => ?_, ?_⟩
    · rwa [hdisk]
    · change Governed env texts signers (m t).state.disk
      rw [hdisk]
      exact ht.inv
  exact ⟨⟨hsince, fun _ _ => trivial⟩,
    fun a ha u hu => hQ a t u ht.inv ((h t).2 a ha) (hsince.trans hu.1)⟩

/-- A write keeps the protocol when the disk it leaves is governed. -/
theorem keeps_writeFile {path : StorePath} {text : String} {Q : Unit → StoreWorld → Prop}
    (hwrite : ∀ t, StoreSince ι env texts signers w t →
      Governed env texts signers (t.disk.write path text))
    (hQ : ∀ t u, StoreSince ι env texts signers w t → t.disk path = some text →
      StoreSince ι env texts signers t u → Q () u) :
    KeepsStore env texts signers i Q (.atom (writeFile env path text)) w := by
  refine Proc.Keeps.atom fun t ht => ?_
  have hwritten : Eff.Triple (OnDisk fun disk => disk = t.disk) (writeFile env path text)
      (fun _ => OnDisk fun disk => disk = t.disk.write path text)
      (OnDisk fun disk => disk = t.disk) :=
    triple_writeFile (fun _ h => by rw [h]) fun _ h => h
  have hspec := hwritten t rfl
  cases hr : (writeFile env path text t).result with
  | error e =>
      have hdisk : (writeFile env path text t).state.disk = t.disk := hspec.2 e hr
      refine ⟨⟨⟨fun id hid => by rwa [hdisk], ?_⟩, fun _ _ => trivial⟩, fun a ha => by cases ha⟩
      change Governed env texts signers (writeFile env path text t).state.disk
      rw [hdisk]
      exact ht.inv
  | ok _ =>
      have hdisk : (writeFile env path text t).state.disk = t.disk.write path text :=
        hspec.1 _ hr
      have hsince : StoreSince ι env texts signers t (writeFile env path text t).state := by
        refine ⟨fun id hid => ?_, ?_⟩
        · rw [hdisk]
          exact Disk.isSome_write hid
        · change Governed env texts signers (writeFile env path text t).state.disk
          rw [hdisk]
          exact hwrite t ht.1
      exact ⟨⟨hsince, fun _ _ => trivial⟩, fun _ _ u hu =>
        hQ _ u (ht.1.trans hsince) (by rw [hdisk, Disk.write_same]) hu.1⟩

/-- A clock reading. -/
theorem keeps_utcNow : KeepsStore env texts signers i (fun _ _ => True) (.atom (utcNow env)) w :=
  reads_utcNow.keeps fun _ _ _ _ _ _ => trivial

namespace InTurns

theorem keeps_ofResult (r : Except PolicyError α) :
    KeepsStore env texts signers i (fun a _ => r = .ok a) (ofResult r) w :=
  Proc.Keeps.done fun _ ha _ _ => (mapErr_eq_ok _ _ _).1 ha

/-! ## Every operation keeps the protocol -/

theorem keeps_writeActiveDsl {dsl : String} (h : dsl ∈ texts) :
    KeepsStore env texts signers i (fun _ _ => True) (writeActiveDsl env dsl) w :=
  keeps_writeFile (fun _ ht => ht.2.writeActive h) fun _ _ _ _ _ => trivial

/-- The active text was written, or there is none. -/
theorem keeps_readActiveDsl (hw : OnDisk (Governed env texts signers) w) :
    KeepsStore env texts signers i (fun dsl _ => dsl = "" ∨ dsl ∈ texts) (readActiveDsl env) w := by
  refine ((reads_fileExists .active).keeps (Q := fun _ _ => True)
    fun _ _ _ _ _ _ => trivial).bind hw fun found t _ _ => ?_
  cases found with
  | true =>
      exact (reads_readToString .active).keeps fun text _ _ hgov htext _ =>
        Or.inr (hgov.active text htext)
  | false => exact Proc.Keeps.pure fun _ _ => Or.inl rfl

/-- The empty text does not pass validation. -/
theorem validateDsl_empty (policies : List DslPolicy) : validateDsl E "" ≠ .ok policies := by
  intro h
  obtain ⟨hparse, hne, -⟩ := validateDsl_ok h
  exact hne (Except.ok.inj hparse).symm

/-- Between the two writes of a commit the others may act, but the revision stays stored. -/
theorem keeps_store (hjson : ∀ rev, env.fromJson (env.toJson rev) = .ok rev) (rev : PolicyRevision)
    (hgood : GoodRevision env signers rev.revision rev) (hauthored : rev.Authored E texts)
    (htrim : Text.trim rev.revision = rev.revision) (hw : OnDisk (Governed env texts signers) w) :
    KeepsStore env texts signers i
      (fun rev' w' => rev' = rev ∧ (w'.disk (.revision rev.revision)).isSome = true)
      (do
        .atom (writeFile env (.revision rev.revision) (env.toJson rev))
        .atom (writeFile env .head rev.revision)
        return rev) w := by
  have hfirst : KeepsStore env texts signers i
      (fun _ w' => (w'.disk (.revision rev.revision)).isSome = true)
      (.atom (writeFile env (.revision rev.revision) (env.toJson rev))) w := by
    refine keeps_writeFile (fun t ht => ht.2.writeRevision hjson hgood hauthored) ?_
    intro t u _ ht hu
    exact hu.1 _ (by rw [ht]; rfl)
  refine hfirst.bind hw fun _ w₁ h₁ hstored => ?_
  have hsecond : KeepsStore env texts signers i
      (fun _ w' => (w'.disk (.revision rev.revision)).isSome = true)
      (.atom (writeFile env .head rev.revision)) w₁ := by
    refine keeps_writeFile (fun t ht => ht.2.writeHead ?_) ?_
    · rw [htrim]
      exact ht.1 _ hstored
    · exact fun t u ht _ hu => hu.1 _ (ht.1 _ hstored)
  refine hsecond.bind h₁.2 fun _ w₂ _ hstored' => ?_
  exact Proc.Keeps.pure fun t ht => ⟨rfl, ht.1.1 _ hstored'⟩

/-- **A commit stores a revision of a text that was written.** -/
theorem keeps_commit (hjson : ∀ rev, env.fromJson (env.toJson rev) = .ok rev) (message : String)
    (hw : OnDisk (Governed env texts signers) w) :
    KeepsStore env texts signers i (fun rev w' => rev.message = message ∧ rev.Authored E texts ∧
      (w'.disk (.revision rev.revision)).isSome = true) (commit env message) w := by
  refine (keeps_readActiveDsl hw).bind hw fun dsl w₁ h₁ hdsl => ?_
  refine (keeps_ofResult _).bind h₁.2 fun policies w₂ h₂ hvalid => ?_
  refine keeps_utcNow.bind h₂.2 fun hashed w₃ h₃ _ => ?_
  refine keeps_utcNow.bind h₃.2 fun created w₄ h₄ _ => ?_
  have hauthored : dsl ∈ texts := by
    rcases hdsl with rfl | h
    · exact absurd hvalid (validateDsl_empty policies)
    · exact h
  have htranslated : ∃ ps, parseDsl dsl = .ok ps ∧ dslToCedar policies = dslToCedar ps :=
    ⟨policies, (validateDsl_ok hvalid).1, rfl⟩
  have htrim : Text.trim (revisionOf env (dslToCedar policies) message hashed.timestamp) =
      revisionOf env (dslToCedar policies) message hashed.timestamp := by
    rw [revisionOf, Hex.trim_encode]
  have hstore : KeepsStore env texts signers i _ _ w₄ := keeps_store hjson
    ⟨revisionOf env (dslToCedar policies) message hashed.timestamp, message, created.rfc3339,
      dslToCedar policies, dsl, none⟩
    ⟨rfl, htranslated, fun b hb => by cases hb⟩ ⟨hauthored, policies, hvalid, rfl⟩ htrim h₄.2
  refine hstore.mono fun rev w' h => ?_
  obtain ⟨rfl, hstored⟩ := h
  exact ⟨rfl, ⟨hauthored, policies, hvalid, rfl⟩, hstored⟩

/-- Reading the head keeps the rule. -/
theorem keeps_headRevision (hw : OnDisk (Governed env texts signers) w) :
    KeepsStore env texts signers i (fun _ _ => True) (headRevision env) w := by
  refine ((reads_fileExists .head).keeps (Q := fun _ _ => True)
    fun _ _ _ _ _ _ => trivial).bind hw fun found w₁ h₁ _ => ?_
  cases found with
  | true =>
      refine ((reads_readToString .head).keeps (Q := fun _ _ => True)
        fun _ _ _ _ _ _ => trivial).bind h₁.2 fun text _ _ _ => ?_
      exact Proc.Keeps.pure fun _ _ => trivial
  | false => exact Proc.Keeps.pure fun _ _ => trivial

theorem keeps_requireHead (missing : String) (hw : OnDisk (Governed env texts signers) w) :
    KeepsStore env texts signers i (fun _ _ => True) (requireHead env missing) w := by
  refine (keeps_headRevision hw).bind hw fun found _ _ _ => ?_
  cases found with
  | none => exact Proc.Keeps.fail _
  | some id => exact Proc.Keeps.pure fun _ _ => trivial

/-- A revision that is read is a good one, whatever is done to the store while it is in hand. -/
theorem keeps_loadRevision (id : String) (hw : OnDisk (Governed env texts signers) w) :
    KeepsStore env texts signers i
      (fun rev _ => GoodRevision env signers id rev ∧ rev.Authored E texts)
      (loadRevision env id) w := by
  have hread : KeepsStore env texts signers i
      (fun text _ => ∀ rev, env.fromJson text = .ok rev →
        GoodRevision env signers id rev ∧ rev.Authored E texts)
      (.atom (readToString env (.revision id))) w := by
    refine (reads_readToString (.revision id)).keeps fun text _ _ hgov htext _ rev hrev => ?_
    obtain ⟨rev', hrev', hgood⟩ := hgov.sound.revision id text htext
    obtain rfl := Except.ok.inj (hrev.symm.trans hrev')
    exact ⟨hgood, hgov.revision id text _ htext hrev⟩
  refine hread.bind hw fun text _ _ hrevs => ?_
  exact (keeps_ofResult _).mono fun rev _ hrev => hrevs rev ((mapErr_eq_ok _ _ _).1 hrev)

/-- **A signature is made for a revision of a text that was written.** -/
theorem keeps_signHead (hjson : ∀ rev, env.fromJson (env.toJson rev) = .ok rev)
    (hbase64 : ∀ bs, env.crypto.base64Decode (env.crypto.base64Encode bs) = .ok bs)
    {signer : BundleSigner} (hsigner : signer ∈ signers) (hgenuine : signer.Genuine env.crypto)
    (hw : OnDisk (Governed env texts signers) w) :
    KeepsStore env texts signers i
      (fun b _ => ∃ rev : PolicyRevision, rev.Authored E texts ∧ SignedFor env {signer} rev b)
      (signHead env signer) w := by
  refine (keeps_requireHead _ hw).bind hw fun revId w₁ h₁ _ => ?_
  refine (keeps_loadRevision revId h₁.2).bind h₁.2 fun rev w₂ h₂ hrev => ?_
  obtain ⟨hgood, hauthored⟩ := hrev
  refine keeps_utcNow.bind h₂.2 fun signed w₃ h₃ _ => ?_
  refine (keeps_ofResult _).bind h₃.2 fun bundle w₄ h₄ hbundle => ?_
  have hverifies := verifyBundle_signBundle hgenuine hbase64 hbundle
  obtain ⟨sig, -, rfl⟩ := signBundle_ok hbundle
  have hgood' : GoodRevision env signers revId { rev with bundle := some _ } :=
    ⟨hgood.named, hgood.translated, fun b hb => by
      obtain rfl := Option.some.inj hb
      exact ⟨rfl, rfl, rfl, signer, hsigner, hverifies⟩⟩
  have hwrite : KeepsStore env texts signers i (fun _ _ => True)
      (.atom (writeFile env (.revision revId) (env.toJson { rev with bundle := some _ }))) w₄ :=
    keeps_writeFile (fun t ht => ht.2.writeRevision hjson hgood' hauthored)
      fun _ _ _ _ _ => trivial
  refine hwrite.bind h₄.2 fun _ w₅ _ _ => Proc.Keeps.pure fun _ _ => ?_
  exact ⟨rev, hauthored, rfl, rfl, rfl, signer, rfl, hverifies⟩

end InTurns

/-- The revision was compiled from one of the texts and signed by one of the signers. -/
def PolicyRevision.Released (env : StoreEnv E) (texts : Set String) (signers : Set BundleSigner)
    (rev : PolicyRevision) : Prop :=
  rev.Authored E texts ∧ ∃ b, rev.bundle = some b ∧ SignedFor env signers rev b

namespace InTurns

/-- **Only a released revision is deployed.** -/
theorem keeps_deployHead (hjson : ∀ rev, env.fromJson (env.toJson rev) = .ok rev)
    (hw : OnDisk (Governed env texts signers) w) :
    KeepsStore env texts signers i (fun rev _ => rev.Released env texts signers)
      (deployHead env) w := by
  refine (keeps_requireHead _ hw).bind hw fun revId w₁ h₁ _ => ?_
  refine (keeps_loadRevision revId h₁.2).bind h₁.2 fun rev w₂ h₂ hrev => ?_
  obtain ⟨hgood, hauthored⟩ := hrev
  cases hbundle : rev.bundle with
  | none => exact Proc.Keeps.fail _
  | some b =>
      have hsigned := hgood.signed b hbundle
      have hwrite : KeepsStore env texts signers i (fun _ _ => True)
          (.atom (writeFile env .deployed (env.toJson rev))) w₂ :=
        keeps_writeFile (fun t ht => ht.2.writeDeployed hjson hbundle hsigned hauthored)
          fun _ _ _ _ _ => trivial
      refine hwrite.bind h₂.2 fun _ _ _ _ => Proc.Keeps.pure fun _ _ => ?_
      exact ⟨hauthored, b, hbundle, hsigned⟩

/-- A revision that is read as the deployed one was released. -/
theorem keeps_loadDeployed (hw : OnDisk (Governed env texts signers) w) :
    KeepsStore env texts signers i (fun found _ => ∀ rev, found = some rev →
      rev.Released env texts signers) (loadDeployed env) w := by
  refine ((reads_fileExists .deployed).keeps (Q := fun _ _ => True)
    fun _ _ _ _ _ _ => trivial).bind hw fun found w₁ h₁ _ => ?_
  cases found with
  | false =>
      refine Proc.Keeps.pure fun _ _ rev hrev => ?_
      cases hrev
  | true =>
      have hread : KeepsStore env texts signers i
          (fun text _ => ∀ rev, env.fromJson text = .ok rev → rev.Released env texts signers)
          (.atom (readToString env .deployed)) w₁ := by
        refine (reads_readToString .deployed).keeps fun text _ _ hgov htext _ rev hrev => ?_
        obtain ⟨rev', b, hrev', hb, hsigned⟩ := hgov.sound.deployed text htext
        obtain rfl := Except.ok.inj (hrev.symm.trans hrev')
        exact ⟨hgov.deployed text _ htext hrev, b, hb, hsigned⟩
      refine hread.bind h₁.2 fun text w₂ h₂ hrevs => ?_
      refine (keeps_ofResult _).bind h₂.2 fun rev w₃ h₃ hrev => ?_
      refine Proc.Keeps.pure fun _ _ rev' hrev' => ?_
      obtain rfl := Option.some.inj hrev'
      exact hrevs _ ((mapErr_eq_ok _ _ _).1 hrev)

/-- **A policy set that is read is the one of a released revision.** -/
theorem keeps_policySetFromDeployed (hw : OnDisk (Governed env texts signers) w) :
    KeepsStore env texts signers i
      (fun found _ => found.2.Released env texts signers ∧
        E.policySetFromStr found.2.cedar = .ok found.1) (policySetFromDeployed env) w := by
  refine (keeps_loadDeployed hw).bind hw fun found w₁ h₁ hfound => ?_
  cases found with
  | none => exact Proc.Keeps.fail _
  | some rev =>
      refine (keeps_ofResult _).bind h₁.2 fun set w₂ h₂ hset => ?_
      exact Proc.Keeps.pure fun _ _ => ⟨hfound rev rfl, (mapErr_eq_ok _ _ _).1 hset⟩

end InTurns

/-! ## Any number of processes -/

/-- What a process does with the store. -/
inductive StoreTask where
  | writeActiveDsl (dsl : String)
  | commit (message : String)
  | signHead (signer : BundleSigner)
  | deployHead
  | policySetFromDeployed

namespace StoreTask

/-- What the task returns. -/
def Answer (E : Engine) : StoreTask → Type
  | .writeActiveDsl _ => Unit
  | .commit _ => PolicyRevision
  | .signHead _ => SignedBundle
  | .deployHead => PolicyRevision
  | .policySetFromDeployed => E.PolicySet × PolicyRevision

/-- The process of the task. -/
def proc (env : StoreEnv E) : (task : StoreTask) → StoreProc (task.Answer E)
  | .writeActiveDsl dsl => InTurns.writeActiveDsl env dsl
  | .commit message => InTurns.commit env message
  | .signHead signer => InTurns.signHead env signer
  | .deployHead => InTurns.deployHead env
  | .policySetFromDeployed => InTurns.policySetFromDeployed env

/-- What a returned answer is worth, then and later. -/
def Promised (env : StoreEnv E) (texts : Set String) (signers : Set BundleSigner) :
    (task : StoreTask) → task.Answer E → StoreWorld → Prop
  | .writeActiveDsl _, _, _ => True
  | .commit message, rev, w => rev.message = message ∧ rev.Authored E texts ∧
      (w.disk (.revision rev.revision)).isSome = true
  | .signHead signer, b, _ =>
      ∃ rev : PolicyRevision, rev.Authored E texts ∧ SignedFor env {signer} rev b
  | .deployHead, rev, _ => rev.Released env texts signers
  | .policySetFromDeployed, (set, rev), _ => rev.Released env texts signers ∧
      ∃ policies, validateDsl E rev.dsl = .ok policies ∧ cedarPolicySetFromDsl E policies = .ok set

/-- Every task keeps the protocol. -/
theorem keeps (hjson : ∀ rev, env.fromJson (env.toJson rev) = .ok rev)
    (hbase64 : ∀ bs, env.crypto.base64Decode (env.crypto.base64Encode bs) = .ok bs)
    (hw : OnDisk (Governed env texts signers) w) (task : StoreTask)
    (hwrite : ∀ dsl, task = .writeActiveDsl dsl → dsl ∈ texts)
    (hsign : ∀ signer, task = .signHead signer → signer ∈ signers ∧ signer.Genuine env.crypto) :
    KeepsStore env texts signers i (task.Promised env texts signers) (task.proc env) w := by
  cases task with
  | writeActiveDsl dsl => exact InTurns.keeps_writeActiveDsl (hwrite dsl rfl)
  | commit message => exact InTurns.keeps_commit hjson message hw
  | signHead signer =>
      obtain ⟨hsigner, hgenuine⟩ := hsign signer rfl
      exact InTurns.keeps_signHead hjson hbase64 hsigner hgenuine hw
  | deployHead => exact InTurns.keeps_deployHead hjson hw
  | policySetFromDeployed =>
      refine (InTurns.keeps_policySetFromDeployed hw).mono fun found _ h => ?_
      obtain ⟨hreleased, hset⟩ := h
      obtain ⟨-, policies, hvalid, hcedar⟩ := hreleased.1
      refine ⟨hreleased, policies, hvalid, ?_⟩
      rw [cedarPolicySetFromDsl, ← hcedar, hset]

end StoreTask

/-- The texts of a seeded store and of the tasks that write one. -/
def writtenTexts (seed : Option String) (tasks : ι → StoreTask) : Set String :=
  {text | seed = some text ∨ ∃ i, tasks i = .writeActiveDsl text}

/-- The signers of the tasks. -/
def taskSigners (tasks : ι → StoreTask) : Set BundleSigner :=
  {signer | ∃ i, tasks i = .signHead signer}

/-- The processes of the tasks, on a store with at most an active text. -/
def storePool (env : StoreEnv E) (seed : Option String) (start : Nat) (tasks : ι → StoreTask) :
    Pool StoreHalt StoreWorld Empty fun i => (tasks i).Answer E :=
  ⟨fun i => (tasks i).proc env, ⟨fun | .active => seed | _ => none, start⟩⟩

/-- **The store needs no lock.** Whatever the interleaving of any number of processes, with faults
at any accesses and processes that stop anywhere: the head and the deployed revision are sound, and
every process that ends keeps its promise. Each access is atomic: one that fails leaves the disk as it
was, and a process stops between two accesses. -/
theorem lifecycle_interleaved [DecidableEq ι] (env : StoreEnv E) (seed : Option String)
    (start : Nat) (tasks : ι → StoreTask) (turns : List ι)
    (hjson : ∀ rev, env.fromJson (env.toJson rev) = .ok rev)
    (hbase64 : ∀ bs, env.crypto.base64Decode (env.crypto.base64Encode bs) = .ok bs)
    (hgenuine : ∀ i signer, tasks i = .signHead signer → signer.Genuine env.crypto)
    {pool : Pool StoreHalt StoreWorld Empty fun i => (tasks i).Answer E}
    (hrun : runFrom Pool.step (storePool env seed start tasks) turns = some pool) :
    HeadSound env pool.state.disk ∧
      DeployedSound env (taskSigners tasks) pool.state.disk ∧
      ∀ i a, (pool.procs i).answer? = some a →
        (tasks i).Promised env (writtenTexts seed tasks) (taskSigners tasks) a pool.state := by
  have hstart : (storePool env seed start tasks).Keeps
      (storeProtocol ι env (writtenTexts seed tasks) (taskSigners tasks))
      (fun i => (tasks i).Promised env (writtenTexts seed tasks) (taskSigners tasks)) := by
    have hgoverned : Governed env (writtenTexts seed tasks) (taskSigners tasks)
        (storePool env seed start tasks).state.disk := governed_seed fun text h => Or.inl h
    refine ⟨hgoverned, fun i => StoreTask.keeps hjson hbase64 hgoverned (tasks i) ?_ ?_⟩
    · exact fun dsl h => Or.inr ⟨i, h⟩
    · exact fun signer h => ⟨⟨i, h⟩, hgenuine i signer h⟩
  obtain ⟨hkeeps, -⟩ := Pool.keeps_run hstart hrun
  have hsound : Governed env (writtenTexts seed tasks) (taskSigners tasks) pool.state.disk :=
    hkeeps.inv
  exact ⟨hsound.sound.headSound, hsound.sound.deployed, fun i a h => hkeeps.answer h⟩

end

/-! ## Two commits, a signature and a deployment -/

namespace KnownStore

open KnownRevision

/-- Two processes commit the same text. -/
def tasks : Fin 4 → StoreTask
  | 0 => .commit "first"
  | 1 => .commit "first"
  | 2 => .signHead signer
  | 3 => .deployHead

/-- The first commit stops after it has read the active text, and the second one ends. -/
def turns : List (Fin 4) := [0, 1, 0, 1, 1, 1, 1, 1]

/-- Where the turns end, with an answer of the second commit. -/
def ranTurns : { pool : Option (Pool StoreHalt StoreWorld Empty fun i =>
    (tasks i).Answer Engine.reference) //
      pool = runFrom Pool.step (storePool env (some dsl) 0 tasks) turns ∧
        (pool.any fun pool => (pool.procs 1).answer?.isSome) = true } :=
  ⟨runFrom Pool.step (storePool env (some dsl) 0 tasks) turns, rfl, by decide +kernel⟩

end KnownStore

/-- The commit that ends has stored its revision. -/
theorem lifecycle_interleaved_live : ∃ pool rev,
    runFrom Pool.step (storePool KnownStore.env (some KnownRevision.dsl) 0 KnownStore.tasks)
        KnownStore.turns = some pool ∧
      (pool.procs 1).answer? = some rev ∧
      HeadSound KnownStore.env pool.state.disk ∧
      DeployedSound KnownStore.env (taskSigners KnownStore.tasks) pool.state.disk ∧
      (StoreTask.commit "first").Promised KnownStore.env
        (writtenTexts (some KnownRevision.dsl) KnownStore.tasks) (taskSigners KnownStore.tasks)
        rev pool.state := by
  obtain ⟨hrun, hany⟩ := KnownStore.ranTurns.2
  rw [hrun] at hany
  obtain ⟨pool, hpool, hlive⟩ := (Option.any_eq_true _ _).1 hany
  obtain ⟨rev, hrev⟩ := Option.isSome_iff_exists.1 hlive
  have hgenuine : ∀ i signer, KnownStore.tasks i = .signHead signer →
      signer.Genuine KnownStore.env.crypto := by
    intro i signer h
    fin_cases i
    · cases h
    · cases h
    · obtain rfl := StoreTask.signHead.inj h
      exact KnownRevision.genuine
    · cases h
  obtain ⟨hhead, hdeployed, hpromised⟩ := lifecycle_interleaved KnownStore.env
    (some KnownRevision.dsl) 0 KnownStore.tasks KnownStore.turns KnownStore.fromJson_toJson
    KnownRevision.base64 hgenuine hpool
  exact ⟨pool, rev, hpool, hrev, hhead, hdeployed, hpromised 1 rev hrev⟩

end Paac
