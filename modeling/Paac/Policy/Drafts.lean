import Paac.Library.Paths
import Paac.Policy.Store

set_option autoImplicit false

/-!
# Drafts and the files of the store

A draft is written below the directory of drafts under a name that is joined to the path as it is,
so a name with slashes may lead out of that directory. Whatever the name is, the file ends with
`.dsl`: so it is never the head, a deployed revision or any other file with another ending, but it
can be the active text.

Paths are resolved by the rules of the file system (`Library/Paths.lean`), with the directories that
exist as a parameter. The files of the policies are the active text, the head, everything under the
revisions, and the deployed revision. A run of drafts keeps them when they are as before at every
point of the run, and a draft may write the text that is there already.

## Main results

- `writeDraft_cases`: a draft that is written changes one file, or none.
- `draftFile_dsl`, `draftFile_reaches`: which files a name can lead to.
- `writeDraft_keeps`, `keeps_of_stays`: which drafts leave the files of the store alone, one draft
  and then a run.
- `keeps_of_plain`: names without slashes are harmless.
- `keeps_policies_iff`: the runs of drafts that leave every file alone that policies are read from.
- `diskOf_of_keeps`: what the store of policies sees after such a run.
- `draft_replaces_active`: a draft named after the active text replaces it.
-/

namespace Paac

open Paths (FilePath)

/-- The surroundings of draft operations, which create no directories. -/
structure DraftEnv where
  cwd : FilePath
  isDir : FilePath → Bool
  fault : Nat → Option Fault
  /-- The text of the error for a path that names no file. -/
  osError : String → String

/-- A store after `PolicyStore::open`: its root leads to a directory with the three directories of a
store. -/
structure OpenStore (env : DraftEnv) where
  root : String
  dir : FilePath
  root_dir : Paths.directoryOf env.isDir env.cwd root = some dir
  drafts_dir : env.isDir (dir ++ ["drafts"]) = true
  revisions_dir : env.isDir (dir ++ ["revisions"]) = true
  deployed_dir : env.isDir (dir ++ ["deployed"]) = true

/-- The texts of the files, and the number of accesses so far. -/
structure DraftWorld where
  files : FilePath → Option String
  tick : Nat

/-- An operation on drafts. -/
abbrev DraftOp (α : Type) : Type := Eff StoreHalt DraftWorld Empty α

section

variable (env : DraftEnv)

/-- `fs::write` at a path. -/
def writePath (path text : String) : DraftOp Unit := fun w =>
  let w' := { w with tick := w.tick + 1 }
  match env.fault w.tick with
  | some f => ⟨.error f.halt, w', []⟩
  | none =>
      match Paths.fileOf env.isDir env.cwd path with
      | none => ⟨.error (.error (.io (env.osError path))), w', []⟩
      | some file => ⟨.ok (), { w' with files := Function.update w.files file (some text) }, []⟩

variable {env} (st : OpenStore env)

/-- The path of a draft. -/
def draftPath (name : String) : String :=
  Paths.join (Paths.join st.root "drafts") (name ++ ".dsl")

/-- `PolicyStore::write_draft`. -/
def writeDraft (name dsl : String) : DraftOp String := do
  writePath env (draftPath st name) dsl
  return draftPath st name

/-- A name and a text. -/
abbrev Draft : Type := String × String

/-- The files after a run of drafts; one that fails does not keep the next from being written. -/
def afterDrafts (drafts : List Draft) (w : DraftWorld) : DraftWorld :=
  drafts.foldl (fun w d => (writeDraft st d.1 d.2 w).state) w

/-- The file that a name stands for. -/
def draftFile (name : String) : Option FilePath :=
  Paths.fileOf env.isDir env.cwd (draftPath st name)

/-! ## The files of the policies -/

/-- A file of the store that policies are read from: the active text, the head, a file under the
revisions, or the deployed revision. -/
def IsPolicyFile (f : FilePath) : Prop :=
  f = st.dir ++ ["active.dsl"] ∨ f = st.dir ++ ["HEAD"] ∨
    (∃ rest, rest ≠ [] ∧ f = st.dir ++ ["revisions"] ++ rest) ∨
    f = st.dir ++ ["deployed", "current.json"]

/-- At every point of the run the files of the policies are as they were before it. -/
def KeepsPolicies (drafts : List Draft) (w : DraftWorld) : Prop :=
  ∀ pre post, drafts = pre ++ post → ∀ f, IsPolicyFile st f →
    (afterDrafts st pre w).files f = w.files f

/-- A draft that is written to the active text or under the revisions has the text that is there. -/
def StaysInDrafts (drafts : List Draft) (w : DraftWorld) : Prop :=
  ∀ pre d post, drafts = pre ++ d :: post → env.fault (afterDrafts st pre w).tick = none →
    ∀ f, draftFile st d.1 = some f →
      (f = st.dir ++ ["active.dsl"] ∨ ∃ rest, rest ≠ [] ∧ f = st.dir ++ ["revisions"] ++ rest) →
        (afterDrafts st pre w).files f = some d.2

/-- Where a store of policies keeps its files. -/
def storeFile : StorePath → FilePath
  | .active => st.dir ++ ["active.dsl"]
  | .head => st.dir ++ ["HEAD"]
  | .revision id => st.dir ++ ["revisions", id ++ ".json"]
  | .deployed => st.dir ++ ["deployed", "current.json"]

/-- What a store of policies sees of the files. -/
def diskOf (w : DraftWorld) : Disk := fun path => w.files (storeFile st path)

variable {st}

/-! ## One draft -/

/-- A draft changes the file that its name stands for, and nothing else. -/
theorem writeDraft_cases (name dsl : String) (w : DraftWorld) :
    ((writeDraft st name dsl w).state = { w with tick := w.tick + 1 } ∧
        (env.fault w.tick ≠ none ∨ draftFile st name = none)) ∨
      ∃ f, env.fault w.tick = none ∧ draftFile st name = some f ∧
        (writeDraft st name dsl w).state =
          ⟨Function.update w.files f (some dsl), w.tick + 1⟩ := by
  have hstate : (writeDraft st name dsl w).state = (writePath env (draftPath st name) dsl w).state :=
    Eff.bind_pure_state _ _ _
  rw [hstate, writePath]
  cases hfault : env.fault w.tick with
  | some e => exact Or.inl ⟨rfl, Or.inl (by simp)⟩
  | none =>
      cases hfile : draftFile st name with
      | none =>
          have hfile' : Paths.fileOf env.isDir env.cwd (draftPath st name) = none := hfile
          rw [hfile']
          exact Or.inl ⟨rfl, Or.inr rfl⟩
      | some f =>
          have hfile' : Paths.fileOf env.isDir env.cwd (draftPath st name) = some f := hfile
          rw [hfile']
          exact Or.inr ⟨f, rfl, rfl, rfl⟩

/-- **The file of a draft ends with `.dsl`.** -/
theorem draftFile_dsl {name : String} {f : FilePath} (h : draftFile st name = some f) :
    ∃ l, f.getLast? = some (l ++ ".dsl") := by
  obtain ⟨base, hbase⟩ := Paths.join_ends_with (Paths.join st.root "drafts") (name ++ ".dsl")
  have hpath : draftPath st name = (base ++ name) ++ ".dsl" := by
    rw [draftPath, hbase, String.append_assoc]
  obtain ⟨l, hl⟩ := @Paths.getLast_components_append ".dsl" (by decide) (base ++ name)
  refine ⟨l, ?_⟩
  rw [Paths.fileOf_getLast h, hpath, hl]

/-- Of the files of the policies, drafts reach the active text and those under the revisions only. -/
theorem draftFile_reaches {name : String} {f : FilePath} (h : draftFile st name = some f)
    (hf : IsPolicyFile st f) :
    f = st.dir ++ ["active.dsl"] ∨ ∃ rest, rest ≠ [] ∧ f = st.dir ++ ["revisions"] ++ rest := by
  obtain ⟨l, hl⟩ := draftFile_dsl h
  have hends : ∀ x : String, f.getLast? = some x → Text.endsWith ".dsl" x = true := by
    intro x hx
    obtain rfl := Option.some.inj (hl.symm.trans hx)
    exact Text.endsWith_append l ".dsl"
  rcases hf with hactive | hhead | hrevision | hdeployed
  · exact Or.inl hactive
  · have hlast := hends "HEAD" (by rw [hhead, List.getLast?_append_cons]; rfl)
    exact absurd hlast (by decide +kernel)
  · exact Or.inr hrevision
  · have hlast := hends "current.json" (by rw [hdeployed, List.getLast?_append_cons]; rfl)
    exact absurd hlast (by decide +kernel)

/-! ## Runs -/

theorem afterDrafts_concat (drafts : List Draft) (d : Draft) (w : DraftWorld) :
    afterDrafts st (drafts ++ [d]) w = (writeDraft st d.1 d.2 (afterDrafts st drafts w)).state :=
  List.foldl_concat ..

/-- A draft that stays out of the files of the policies leaves them alone. -/
theorem writeDraft_keeps {name dsl : String} {w : DraftWorld}
    (h : env.fault w.tick = none → ∀ f, draftFile st name = some f → IsPolicyFile st f →
      w.files f = some dsl) {f : FilePath} (hf : IsPolicyFile st f) :
    (writeDraft st name dsl w).state.files f = w.files f := by
  obtain ⟨hstate, -⟩ | ⟨g, hfault, hfile, hstate⟩ := @writeDraft_cases env st name dsl w
  · rw [hstate]
  · rw [hstate]
    dsimp only
    by_cases hsame : f = g
    · subst hsame
      rw [Function.update_self, h hfault f hfile hf]
    · rw [Function.update_of_ne hsame]

/-- A run that stays in the drafts leaves the files of the policies alone, by induction on its
length. -/
theorem keeps_of_stays {drafts : List Draft} {w : DraftWorld} (h : StaysInDrafts st drafts w) :
    KeepsPolicies st drafts w := by
  intro pre
  induction pre using List.reverseRecOn with
  | nil => exact fun _ _ _ _ => rfl
  | append_singleton pre d ih =>
      intro post hdrafts f hf
      rw [List.append_assoc, List.singleton_append] at hdrafts
      rw [afterDrafts_concat, ← ih (d :: post) hdrafts f hf]
      apply writeDraft_keeps ?_ hf
      intro hfault g hg hpolicy
      exact h pre d post hdrafts hfault g hg (draftFile_reaches hg hpolicy)

/-- **What the store of policies sees.** Where the files of the policies are kept, every later commit,
signature, deployment and start reads what it would have read. -/
theorem diskOf_of_keeps {drafts : List Draft} {w : DraftWorld} (h : KeepsPolicies st drafts w) :
    diskOf st (afterDrafts st drafts w) = diskOf st w := by
  funext path
  apply h drafts [] (List.append_nil drafts).symm
  cases path with
  | active => exact Or.inl rfl
  | head => exact Or.inr (Or.inl rfl)
  | revision id =>
      refine Or.inr (Or.inr (Or.inl ⟨[id ++ ".json"], List.cons_ne_nil _ _, ?_⟩))
      rw [storeFile, List.append_assoc]
      rfl
  | deployed => exact Or.inr (Or.inr (Or.inr rfl))

/-! ## Names without slashes -/

/-- The directory of drafts. -/
theorem directoryOf_drafts (st : OpenStore env) :
    Paths.directoryOf env.isDir env.cwd (Paths.join st.root "drafts") =
      some (st.dir ++ ["drafts"]) := by
  have hrelative : Paths.isAbsolute "drafts" = false := by decide +kernel
  have hcomponents : Paths.components "drafts" = ["drafts"] := by decide +kernel
  rw [Paths.directoryOf_join env.isDir env.cwd hrelative, st.root_dir, hcomponents]
  show Paths.enter env.isDir st.dir "drafts" >>= pure = _
  rw [Paths.enter, if_neg (by decide), if_neg (by decide), if_pos st.drafts_dir]
  rfl

/-- A name without a slash stands for a file in the directory of drafts. -/
theorem draftFile_plain {name : String} (hname : '/' ∉ name.toList) {f : FilePath}
    (h : draftFile st name = some f) : f = st.dir ++ ["drafts", name ++ ".dsl"] := by
  have hslash : '/' ∉ (name ++ ".dsl").toList := by
    rw [String.toList_append, List.mem_append, not_or]
    exact ⟨hname, by decide⟩
  obtain ⟨d, hd, rfl⟩ := Paths.fileOf_join_plain hslash h
  rw [directoryOf_drafts st] at hd
  rw [← Option.some.inj hd, List.append_assoc]
  rfl

/-- **Names without slashes are harmless.** -/
theorem keeps_of_plain {drafts : List Draft} (h : ∀ d ∈ drafts, '/' ∉ d.1.toList)
    (w : DraftWorld) : KeepsPolicies st drafts w := by
  apply keeps_of_stays
  intro pre d post hdrafts _ f hf hpolicy
  have hplain : '/' ∉ d.1.toList := h d (by rw [hdrafts]; simp)
  rw [draftFile_plain hplain hf] at hpolicy
  -- the file is in another directory
  rcases hpolicy with hactive | ⟨rest, -, hrevision⟩
  · have htail := List.append_cancel_left hactive
    exact absurd htail (by simp)
  · rw [List.append_assoc] at hrevision
    have htail := List.append_cancel_left hrevision
    exact absurd (List.cons.inj htail).1 (by decide)

end

/-- **When drafts are never deployed.** Every run of drafts with any names and texts leaves the active
text, the head, the revisions and the deployed revision alone exactly when no name that is written
leads to the active text or under the revisions, unless the same text is there. -/
theorem keeps_policies_iff (env : DraftEnv) (st : OpenStore env) (drafts : List Draft)
    (w : DraftWorld) : KeepsPolicies st drafts w ↔ StaysInDrafts st drafts w := by
  constructor
  · intro hkeeps pre d post hdrafts hfault f hf hpolicy
    have hfile : IsPolicyFile st f := by
      rcases hpolicy with h | h
      · exact Or.inl h
      · exact Or.inr (Or.inr (Or.inl h))
    have hbefore := hkeeps pre (d :: post) hdrafts f hfile
    have hafter := hkeeps (pre ++ [d]) post (by rw [hdrafts, List.append_assoc]; rfl) f hfile
    rw [afterDrafts_concat] at hafter
    -- the draft has been written
    obtain ⟨-, hnot⟩ | ⟨g, -, hg, hstate⟩ :=
      @writeDraft_cases env st d.1 d.2 (afterDrafts st pre w)
    · rcases hnot with hnot | hnot
      · exact absurd hfault hnot
      · rw [hf] at hnot
        cases hnot
    · obtain rfl := Option.some.inj (hf.symm.trans hg)
      rw [hstate] at hafter
      dsimp only at hafter
      rw [Function.update_self] at hafter
      rw [hbefore, hafter]
  · exact keeps_of_stays

/-! ## A draft over the active text -/

namespace Served

/-- A store in the directory `/srv/policies`. -/
def env : DraftEnv :=
  { cwd := ["srv"]
    isDir := fun f => f ∈ ([[], ["srv"], ["srv", "policies"], ["srv", "policies", "drafts"],
      ["srv", "policies", "revisions"], ["srv", "policies", "deployed"]] : List FilePath)
    fault := fun _ => none
    osError := fun _ => "No such file or directory (os error 2)" }

def store : OpenStore env :=
  { root := "policies"
    dir := ["srv", "policies"]
    root_dir := by decide +kernel
    drafts_dir := by decide +kernel
    revisions_dir := by decide +kernel
    deployed_dir := by decide +kernel }

/-- The files with one active policy. -/
def world : DraftWorld :=
  ⟨fun f => if f = ["srv", "policies", "active.dsl"] then some "policy p\nallow READ DOC" else none, 0⟩

end Served

/-- A draft that is called `../active` replaces the active text. -/
theorem draft_replaces_active :
    ¬KeepsPolicies Served.store [("../active", "policy q\nallow READ SALARY")] Served.world := by
  intro hkeeps
  have hpolicy : IsPolicyFile Served.store ["srv", "policies", "active.dsl"] := Or.inl rfl
  have hactive := hkeeps [("../active", "policy q\nallow READ SALARY")] []
    (List.append_nil _).symm _ hpolicy
  revert hactive
  decide +kernel

end Paac
