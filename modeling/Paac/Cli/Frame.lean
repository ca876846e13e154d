import Paac.Cli.Commands

set_option autoImplicit false

/-!
# What commands leave alone

Only a deployment writes the deployed file. Whatever the other commands do, and wherever they fail
or are stopped, the file is the one that was there before them. The frame of a command is a relation
between the states before and after it (`Moves`): the deployed file is the same, and accesses are
counted on. Being reflexive and transitive it goes through a command part by part.

## Main results

- `moves_commit`, `moves_signHead`, `moves_policySetFromDeployed`: the operations of the store leave
  the deployed file alone.
- `moves_ensureKey`, `moves_checkCmd`: so do the parts of the commands that use other files.
- `moves_command`: every command but `deploy` does.
- `deployed_runCommands`: so does every run without a deployment, by induction on its commands.
-/

namespace Paac

open Cedar (Engine)

open Eff (Moves)

section

variable {E : Engine} {env : StoreEnv E}

/-! ## The store -/

/-- The deployed file is the same, and accesses are counted. -/
def KeepsDeployed (w w' : StoreWorld) : Prop :=
  w'.disk .deployed = w.disk .deployed ∧ w.tick ≤ w'.tick

instance : IsPreorder StoreWorld KeepsDeployed where
  refl _ := ⟨rfl, le_refl _⟩
  trans _ _ _ h h' := ⟨h'.1.trans h.1, h.2.trans h'.2⟩

theorem moves_access : Moves KeepsDeployed (access env) := by
  intro w
  unfold access
  cases env.fault w.tick <;> exact ⟨rfl, Nat.le_succ _⟩

theorem moves_fileExists (path : StorePath) : Moves KeepsDeployed (fileExists env path) := by
  intro w
  unfold fileExists
  cases env.fault w.tick with
  | none => exact ⟨rfl, Nat.le_succ _⟩
  | some f => cases f <;> exact ⟨rfl, Nat.le_succ _⟩

theorem moves_readToString (path : StorePath) : Moves KeepsDeployed (readToString env path) :=
  moves_access.bind fun _ _ => ⟨rfl, le_refl _⟩

theorem moves_writeFile {path : StorePath} (hpath : path ≠ .deployed) (text : String) :
    Moves KeepsDeployed (writeFile env path text) :=
  moves_access.bind fun _ => Eff.moves_modify _ fun _ =>
    ⟨Disk.write_other _ _ hpath.symm, le_refl _⟩

theorem moves_utcNow : Moves KeepsDeployed (utcNow env) := fun _ => ⟨rfl, Nat.le_succ _⟩

theorem moves_openStore : Moves KeepsDeployed (openStore env) :=
  moves_access.bind fun _ => moves_access.bind fun _ => moves_access

theorem moves_readActiveDsl : Moves KeepsDeployed (readActiveDsl env) := by
  refine (moves_fileExists .active).bind fun found => ?_
  cases found with
  | true => exact moves_readToString .active
  | false => exact Eff.moves_pure ""

/-- **A commit leaves the deployed file.** -/
theorem moves_commit (message : String) : Moves KeepsDeployed (commit env message) :=
  moves_readActiveDsl.bind fun _ => (Eff.moves_lift _).bind fun _ => moves_utcNow.bind fun _ =>
    moves_utcNow.bind fun _ => (moves_writeFile (by simp) _).bind fun _ =>
      (moves_writeFile (by simp) _).bind fun _ => Eff.moves_pure _

theorem moves_requireHead (missing : String) : Moves KeepsDeployed (requireHead env missing) := by
  have hread : Moves KeepsDeployed (headRevision env) := by
    refine (moves_fileExists .head).bind fun found => ?_
    cases found with
    | true => exact (moves_readToString .head).bind fun _ => Eff.moves_pure _
    | false => exact Eff.moves_pure none
  refine hread.bind fun found => ?_
  cases found with
  | none => exact Eff.moves_fail _
  | some id => exact Eff.moves_pure id

theorem moves_loadRevision (id : String) : Moves KeepsDeployed (loadRevision env id) :=
  (moves_readToString _).bind fun _ => Eff.moves_lift _

/-- **Signing leaves the deployed file.** -/
theorem moves_signHead (signer : BundleSigner) : Moves KeepsDeployed (signHead env signer) :=
  (moves_requireHead _).bind fun _ => (moves_loadRevision _).bind fun _ => moves_utcNow.bind fun _ =>
    (Eff.moves_lift _).bind fun _ => (moves_writeFile (by simp) _).bind fun _ => Eff.moves_pure _

/-- Reading the deployed policies changes nothing. -/
theorem moves_policySetFromDeployed : Moves KeepsDeployed (policySetFromDeployed env) := by
  have hload : Moves KeepsDeployed (loadDeployed env) := by
    refine (moves_fileExists .deployed).bind fun found => ?_
    cases found with
    | true => exact (moves_readToString .deployed).bind fun _ => (Eff.moves_lift _).bind fun _ =>
        Eff.moves_pure _
    | false => exact Eff.moves_pure none
  refine hload.bind fun found => ?_
  cases found with
  | none => exact Eff.moves_fail _
  | some rev => exact (Eff.moves_lift _).bind fun _ => Eff.moves_pure _

end

section

variable {E : Engine} {env : CliEnv E}

/-! ## Commands -/

/-- The same of the store of a command. -/
def LeavesDeployed (w w' : CliWorld) : Prop := KeepsDeployed w.store w'.store

instance : IsPreorder CliWorld LeavesDeployed where
  refl w := refl w.store
  trans _ _ _ h h' := IsTrans.trans (r := KeepsDeployed) _ _ _ h h'

theorem moves_ofStore {α : Type} (f : PolicyError → CliError) {m : StoreOp α}
    (h : Moves KeepsDeployed m) : Moves LeavesDeployed (CliOp.ofStore f m) := fun w => h w.store

theorem moves_diskAccess : Moves LeavesDeployed (diskAccess env) := by
  intro w
  unfold diskAccess
  cases env.fault w.store.tick with
  | none => exact ⟨rfl, Nat.le_succ _⟩
  | some f => cases f <;> exact ⟨rfl, Nat.le_succ _⟩

theorem moves_pathExists (file : CliWorld → Option String) :
    Moves LeavesDeployed (pathExists env file) := by
  intro w
  unfold pathExists
  cases env.fault w.store.tick with
  | none => exact ⟨rfl, Nat.le_succ _⟩
  | some f => cases f <;> exact ⟨rfl, Nat.le_succ _⟩

theorem moves_readText (file : CliWorld → Option String) :
    Moves LeavesDeployed (readText env file) := by
  refine moves_diskAccess.bind fun _ w => ?_
  unfold foundText
  cases file w <;> exact ⟨rfl, le_refl _⟩

/-- Files beside the store are no part of it. -/
theorem moves_writeText {put : CliWorld → CliWorld} (h : ∀ w, (put w).store = w.store) :
    Moves LeavesDeployed (writeText env put) := by
  refine moves_diskAccess.bind fun _ => Eff.moves_modify _ fun w => ?_
  rw [LeavesDeployed, h w]
  exact refl w.store

theorem moves_sample {α : Type} (value : Nat → α) : Moves LeavesDeployed (sample value) :=
  fun _ => ⟨rfl, Nat.le_succ _⟩

theorem moves_ensureKey : Moves LeavesDeployed (ensureKey env) := by
  refine (moves_pathExists _).bind fun found => ?_
  cases found with
  | true => exact (moves_readText _).bind fun _ => (Eff.moves_lift _).bind fun _ => Eff.moves_lift _
  | false =>
      refine moves_diskAccess.bind fun _ => (moves_sample _).bind fun secret => ?_
      exact Moves.bind (moves_writeText fun _ => rfl) fun _ => Eff.moves_pure _

theorem moves_storedMembers : Moves LeavesDeployed (storedMembers env) := by
  refine (moves_pathExists _).bind fun found => ?_
  cases found with
  | true => exact (moves_readText _).bind fun _ => (Eff.moves_lift _).bind fun _ => Eff.moves_pure _
  | false => exact Eff.moves_pure _

theorem moves_recordDecision (d : AuthzDecision) : Moves LeavesDeployed (recordDecision env d) := by
  intro w
  unfold recordDecision
  cases env.fault w.store.tick with
  | none => exact ⟨rfl, Nat.le_succ _⟩
  | some f => cases f <;> exact ⟨rfl, Nat.le_succ _⟩

theorem moves_checkCmd (args : CheckArgs) : Moves LeavesDeployed (checkCmd env args) :=
  (Eff.moves_lift _).bind fun _ => (moves_ofStore _ moves_openStore).bind fun _ =>
    (moves_ofStore _ moves_policySetFromDeployed).bind fun _ => moves_storedMembers.bind fun _ =>
      (moves_sample _).bind fun _ => (Eff.moves_lift _).bind fun d =>
        (moves_recordDecision d).bind fun _ => Eff.moves_pure _

/-- **Every command but a deployment** leaves the deployed file alone. -/
theorem moves_command {command : CliCommand} (h : command ≠ .deploy) :
    Moves LeavesDeployed (command.run env) := by
  cases command with
  | edit dsl => exact moves_ofStore _ (moves_writeFile (by simp) dsl)
  | identitySync fetched =>
      exact (Eff.moves_lift _).bind fun _ => moves_diskAccess.bind fun _ =>
        moves_diskAccess.bind fun _ => moves_writeText fun _ => rfl
  | commit message =>
      have hcommit : Moves LeavesDeployed (policyCommit env message) :=
        (moves_ofStore _ moves_openStore).bind fun _ => moves_ofStore _ (moves_commit message)
      exact hcommit.bind fun _ => Eff.moves_pure _
  | sign =>
      have hsign : Moves LeavesDeployed (policySign env) :=
        (moves_ofStore _ moves_openStore).bind fun _ => moves_ensureKey.bind fun _ =>
          moves_ofStore _ (moves_signHead _)
      exact hsign.bind fun _ => Eff.moves_pure _
  | deploy => exact absurd rfl h
  | check args => exact (moves_checkCmd args).bind fun _ => Eff.moves_pure _

variable (env) in
/-- **A run without a deployment** leaves the deployed file alone, and counts its accesses on. -/
theorem deployed_runCommands {commands : List CliCommand} (h : ∀ c ∈ commands, c ≠ .deploy)
    (w : CliWorld) : LeavesDeployed w (runCommands env commands w) := by
  induction commands generalizing w with
  | nil => exact refl w
  | cons c cs ih =>
      rw [List.forall_mem_cons] at h
      exact IsTrans.trans _ _ _ (moves_command h.1 w) (ih h.2 _)

end

end Paac
