import Paac.Policy.Files
import Paac.Policy.Lifecycle
import Paac.Policy.Works

set_option autoImplicit false

/-!
# Stored revisions

A revision is stored under a hash of its Cedar text, its message and the second of its commit. The
hash leaves out the DSL text and the signature, so a commit may be stored over an earlier one that
it differs from, or over one that has been signed.

A run is any list of operations on an empty store, with faults of the disk at any accesses. Its
commits, as they are written, are a list (`commitsOf`), and the hash is assumed to tell the texts
apart that it is taken of in the run. A run is immutable when what is stored at some point of it is
kept at every later point, and a commit is stored under a new name unless it is the same as an
earlier one. The condition (`FreshCommits`) is about the commits and about the disk before each of
them.

## Main results

- `commit_revision`, `signHead_revision`, `deployHead_revision`: what the operations do to the
  stored revisions, and `run_revision` for a call.
- `stored_of_run`: every stored revision has the texts of a commit of the run under its name.
- `identical_of_fresh`, `step_keeps`: one call of a run with fresh commits keeps every revision.
- `immutable_of_fresh`, `fresh_of_immutable`: the two directions, from one step and from one commit.
- `immutable_iff`: in which runs no stored revision changes.

The run of `recommit_replaces_text` commits twice in one second and loses a text; that of
`immutable_once` signs a revision and commits beside it.
-/

namespace Paac

open Cedar (Engine)

section

variable {E : Engine} (env : StoreEnv E)

/-! ## Commits of a run -/

/-- A revision as its commit writes it, and the second that is hashed for its name. -/
structure Commit where
  rev : PolicyRevision
  second : Int
  deriving DecidableEq

/-- The text that the name of a commit is the hash of. -/
def Commit.hashed (c : Commit) : String := c.rev.cedar ++ c.rev.message ++ toString c.second

/-- The revision that a commit makes of an active text. -/
def commitOf (message dsl : String) (policies : List DslPolicy) (tick : Nat) : Commit :=
  let cedar := dslToCedar policies
  let second := (env.now tick).timestamp
  ⟨⟨revisionOf env cedar message second, message, (env.now (tick + 1)).rfc3339, cedar, dsl, none⟩,
    second⟩

/-- What a commit writes as a revision, if it comes to that. -/
def committed (message : String) (w : StoreWorld) : Option Commit :=
  match readActiveDsl env w with
  | ⟨.error _, _, _⟩ => none
  | ⟨.ok dsl, w₁, _⟩ =>
      match validateDsl E dsl with
      | .error _ => none
      | .ok policies =>
          if env.fault (w₁.tick + 2) = none then some (commitOf env message dsl policies w₁.tick)
          else none

/-- The commit of a call, if it writes one. -/
def StoreCall.committed (w : StoreWorld) : StoreCall → Option Commit
  | .commit message => Paac.committed env message w
  | _ => none

/-- The commits of a run, in order. -/
def commitsOf : List StoreCall → StoreWorld → List Commit
  | [], _ => []
  | call :: calls, w =>
      (call.committed env w).toList ++ commitsOf calls (call.run env w).state

/-- The hash tells the texts apart that it is taken of in the run. -/
def HashInjective (calls : List StoreCall) (w : StoreWorld) : Prop :=
  ∀ c ∈ commitsOf env calls w, ∀ c' ∈ commitsOf env calls w,
    c.rev.revision = c'.rev.revision → c.hashed = c'.hashed

/-! ## Immutability -/

/-- The disk holds the revision under the name. -/
def Holds (disk : Disk) (id : String) (rev : PolicyRevision) : Prop :=
  ∃ text, disk (.revision id) = some text ∧ env.fromJson text = .ok rev

/-- The second revision has the texts and the message of the first, and is signed if that is. -/
structure PolicyRevision.Keeps (rev rev' : PolicyRevision) : Prop where
  cedar : rev'.cedar = rev.cedar
  dsl : rev'.dsl = rev.dsl
  message : rev'.message = rev.message
  signed : rev.bundle.isSome = true → rev'.bundle.isSome = true

/-- What is stored at some point of the run is kept at every later point, and a commit is stored under
a new name unless the revision there is identical. -/
def Immutable (calls : List StoreCall) (w : StoreWorld) : Prop :=
  (∀ pre more post, calls = pre ++ more ++ post → ∀ id rev,
      Holds env (runCalls env pre w).disk id rev →
        ∃ rev', Holds env (runCalls env (pre ++ more) w).disk id rev' ∧ rev.Keeps rev') ∧
    ∀ pre call post, calls = pre ++ call :: post →
      ∀ c, call.committed env (runCalls env pre w) = some c →
        (runCalls env pre w).disk (.revision c.rev.revision) = none ∨
          ∃ rev, Holds env (runCalls env pre w).disk c.rev.revision rev ∧
            rev.cedar = c.rev.cedar ∧ rev.dsl = c.rev.dsl ∧ rev.message = c.rev.message

/-- A commit that hashes the text that an earlier one of the run has hashed has the same DSL text and
message, and the revision that is stored under the name is not signed. -/
def FreshCommits (calls : List StoreCall) (w : StoreWorld) : Prop :=
  ∀ pre call post, calls = pre ++ call :: post →
    ∀ c, call.committed env (runCalls env pre w) = some c →
      ∀ c' ∈ commitsOf env pre w, c'.hashed = c.hashed →
        c'.rev.dsl = c.rev.dsl ∧ c'.rev.message = c.rev.message ∧
          ∀ rev, Holds env (runCalls env pre w).disk c.rev.revision rev → rev.bundle = none

variable {env}

/-! ## What the operations do to the revisions -/

/-- A write that fails leaves the disk. -/
theorem writeFile_fault {path : StorePath} {text : String} {w : StoreWorld} {f : Fault}
    (h : env.fault w.tick = some f) :
    writeFile env path text w = ⟨.error f.halt, { w with tick := w.tick + 1 }, []⟩ := by
  have haccess : access env w = ⟨.error f.halt, { w with tick := w.tick + 1 }, []⟩ := by
    rw [access, h]
  rw [writeFile, Eff.bind_error (congrArg Outcome.result haccess), haccess]

/-- A write that does not fail is on the disk. -/
theorem writeFile_done {path : StorePath} {text : String} {w : StoreWorld}
    (h : env.fault w.tick = none) :
    writeFile env path text w = ⟨.ok (), ⟨w.disk.write path text, w.tick + 1⟩, []⟩ := by
  have haccess : access env w = ⟨.ok (), { w with tick := w.tick + 1 }, []⟩ := by
    rw [access, h]
  rw [writeFile, Eff.bind_ok (congrArg Outcome.result haccess), haccess]
  rfl

/-- A write elsewhere leaves the revisions. -/
theorem writeFile_revision {path : StorePath} {text : String} (w : StoreWorld) {id : String}
    (h : .revision id ≠ path) :
    (writeFile env path text w).state.disk (.revision id) = w.disk (.revision id) := by
  cases hfault : env.fault w.tick with
  | some f => rw [writeFile_fault hfault]
  | none =>
      rw [writeFile_done hfault]
      exact Disk.write_other _ _ h

/-- **A commit writes its revision, and no other.** -/
theorem commit_revision (message : String) (w : StoreWorld) (id : String) :
    (commit env message w).state.disk (.revision id) =
      match committed env message w with
      | some c => if id = c.rev.revision then some (env.toJson c.rev) else w.disk (.revision id)
      | none => w.disk (.revision id) := by
  have hdisk := (@reads_readActiveDsl _ env w).1
  rw [commit, committed]
  rcases hread : readActiveDsl env w with ⟨r, w₁, es⟩
  rw [hread] at hdisk
  cases r with
  | error e =>
      rw [Eff.bind_error (congrArg Outcome.result hread), hread]
      exact congrFun hdisk _
  | ok dsl =>
      rw [Eff.bind_ok (congrArg Outcome.result hread), hread]
      dsimp only
      cases hvalid : validateDsl E dsl with
      | error e =>
          rw [Eff.bind_error (e := .error e) rfl]
          exact congrFun hdisk _
      | ok policies =>
          rw [Eff.bind_ok (a := policies) rfl, Eff.bind_ok (a := env.now w₁.tick) rfl,
            Eff.bind_ok (a := env.now (w₁.tick + 1)) rfl]
          dsimp only
          rw [← hdisk]
          -- the revision is written two readings after the text
          cases hfault : env.fault (w₁.tick + 2) with
          | some f =>
              rw [Eff.bind_error (congrArg Outcome.result (writeFile_fault hfault)),
                writeFile_fault hfault]
              rfl
          | none =>
              rw [Eff.bind_ok (congrArg Outcome.result (writeFile_done hfault)),
                writeFile_done hfault, if_pos rfl]
              have hhead := fun (rev : PolicyRevision) (w : StoreWorld) =>
                congrArg (fun w' : StoreWorld => w'.disk (.revision id))
                  (Eff.bind_pure_state (writeFile env .head rev.revision) (fun _ => rev) w)
              refine (hhead (commitOf env message dsl policies w₁.tick).rev _).trans ?_
              rw [writeFile_revision _ (by simp)]
              dsimp only
              by_cases hid : id = (commitOf env message dsl policies w₁.tick).rev.revision
              · rw [if_pos hid, hid]
                exact Disk.write_same _ _ _
              · rw [if_neg hid]
                exact Disk.write_other _ _ fun h => hid (StorePath.revision.inj h)

/-- After an operation that only reads, the disk is as it was, or the rest runs on it. -/
theorem Reads.bind_disk {α β : Type} {m : StoreOp α} {F : α → Disk → Prop} (h : Reads m F)
    (f : α → StoreOp β) (w : StoreWorld) :
    ((m >>= f) w).state.disk = w.disk ∨
      ∃ a w₁, F a w.disk ∧ w₁.disk = w.disk ∧ ((m >>= f) w).state = (f a w₁).state := by
  obtain ⟨hdisk, hresult⟩ := h w
  cases hr : (m w).result with
  | error e =>
      rw [Eff.bind_error hr]
      exact Or.inl hdisk
  | ok a =>
      rw [Eff.bind_ok hr]
      exact Or.inr ⟨a, (m w).state, hresult a hr, hdisk, rfl⟩

/-- **What signing does to the revisions**: nothing, or it puts a bundle into one of them. -/
theorem signHead_revision (signer : BundleSigner) (w : StoreWorld) :
    (∀ id, (signHead env signer w).state.disk (.revision id) = w.disk (.revision id)) ∨
      ∃ revId rev b, Holds env w.disk revId rev ∧ ∀ id,
        (signHead env signer w).state.disk (.revision id) =
          if id = revId then some (env.toJson { rev with bundle := some b })
          else w.disk (.revision id) := by
  rw [signHead]
  rcases (reads_requireHead _).bind_disk _ w with h | ⟨revId, w₁, -, hw₁, h⟩
  · exact Or.inl fun id => by rw [h]
  rw [h]
  rcases (reads_loadRevision revId).bind_disk _ w₁ with h | ⟨rev, w₂, hrev, hw₂, h⟩
  · exact Or.inl fun id => by rw [h, hw₁]
  rw [h]
  rcases reads_utcNow.bind_disk _ w₂ with h | ⟨signed, w₃, -, hw₃, h⟩
  · exact Or.inl fun id => by rw [h, hw₂, hw₁]
  rw [h]
  rcases (reads_ofResult _).bind_disk _ w₃ with h | ⟨b, w₄, -, hw₄, h⟩
  · exact Or.inl fun id => by rw [h, hw₃, hw₂, hw₁]
  rw [h, Eff.bind_pure_state]
  -- every step up to here only reads
  have hdisk : w₄.disk = w.disk := by rw [hw₄, hw₃, hw₂, hw₁]
  cases hfault : env.fault w₄.tick with
  | some f => exact Or.inl fun id => by rw [writeFile_fault hfault, hdisk]
  | none =>
      rw [hw₁] at hrev
      refine Or.inr ⟨revId, rev, b, hrev, fun id => ?_⟩
      rw [writeFile_done hfault, ← hdisk]
      by_cases hid : id = revId
      · rw [if_pos hid, hid]
        exact Disk.write_same _ _ _
      · rw [if_neg hid]
        exact Disk.write_other _ _ fun h => hid (StorePath.revision.inj h)

/-- **Deploying writes no revision.** -/
theorem deployHead_revision (w : StoreWorld) (id : String) :
    (deployHead env w).state.disk (.revision id) = w.disk (.revision id) := by
  rw [deployHead]
  rcases (reads_requireHead _).bind_disk _ w with h | ⟨revId, w₁, -, hw₁, h⟩
  · rw [h]
  rw [h]
  rcases (reads_loadRevision revId).bind_disk _ w₁ with h | ⟨rev, w₂, -, hw₂, h⟩
  · rw [h, hw₁]
  rw [h]
  split
  · exact congrFun (hw₂.trans hw₁) _
  · rw [Eff.bind_pure_state, writeFile_revision _ (by simp), hw₂, hw₁]

/-- **What a call does to the revisions**: a commit writes its own, signing puts a bundle into one,
and nothing else changes any. -/
theorem run_revision (call : StoreCall) (w : StoreWorld) :
    (call.committed env w = none ∧
        ∀ id, (call.run env w).state.disk (.revision id) = w.disk (.revision id)) ∨
      (∃ c, call.committed env w = some c ∧ ∀ id, (call.run env w).state.disk (.revision id) =
        if id = c.rev.revision then some (env.toJson c.rev) else w.disk (.revision id)) ∨
      ∃ revId rev b, call.committed env w = none ∧ Holds env w.disk revId rev ∧ ∀ id,
        (call.run env w).state.disk (.revision id) =
          if id = revId then some (env.toJson { rev with bundle := some b })
          else w.disk (.revision id) := by
  have hdiscard : ∀ {α : Type} (m : StoreOp α),
      ((do let _ ← m; return ()) w : Outcome StoreHalt StoreWorld Empty Unit).state =
        (m w).state := fun m => Eff.bind_pure_state m (fun _ => ()) w
  -- only a commit and a signature write a revision
  cases call with
  | writeActiveDsl dsl =>
      exact Or.inl ⟨rfl, fun id => writeFile_revision w (by simp)⟩
  | commit message =>
      rw [StoreCall.run, hdiscard, StoreCall.committed]
      have hcommit := @commit_revision _ env message w
      cases hc : Paac.committed env message w with
      | none =>
          simp only [hc] at hcommit
          exact Or.inl ⟨rfl, hcommit⟩
      | some c =>
          simp only [hc] at hcommit
          exact Or.inr (Or.inl ⟨c, rfl, hcommit⟩)
  | signHead signer =>
      rw [StoreCall.run, hdiscard]
      rcases @signHead_revision _ env signer w with h | ⟨revId, rev, b, hrev, h⟩
      · exact Or.inl ⟨rfl, h⟩
      · exact Or.inr (Or.inr ⟨revId, rev, b, rfl, hrev, h⟩)
  | deployHead =>
      rw [StoreCall.run, hdiscard]
      exact Or.inl ⟨rfl, deployHead_revision w⟩

/-- What a commit writes is made of a valid text. -/
theorem committed_cases {message : String} {w : StoreWorld} {c : Commit}
    (h : committed env message w = some c) :
    ∃ dsl policies tick, validateDsl E dsl = .ok policies ∧
      c = commitOf env message dsl policies tick := by
  rw [committed] at h
  split at h
  · cases h
  · rename_i dsl w₁ _ _
    split at h
    · cases h
    · rename_i policies hvalid
      split at h
      · exact ⟨dsl, policies, w₁.tick, hvalid, (Option.some.inj h).symm⟩
      · cases h

/-- What is committed is the translation of its own DSL text. -/
theorem committed_translated {message : String} {w : StoreWorld} {c : Commit}
    (h : committed env message w = some c) :
    ∃ policies, validateDsl E c.rev.dsl = .ok policies ∧ c.rev.cedar = dslToCedar policies := by
  obtain ⟨dsl, policies, tick, hvalid, rfl⟩ := committed_cases h
  exact ⟨policies, hvalid, rfl⟩

/-- The name of a commit is the hash of its text. -/
theorem committed_named {message : String} {w : StoreWorld} {c : Commit}
    (h : committed env message w = some c) :
    c.rev.revision = Hex.encode ((env.crypto.sha256 c.hashed).1.take 8) := by
  obtain ⟨dsl, policies, tick, -, rfl⟩ := committed_cases h
  rfl

theorem committed_unsigned {message : String} {w : StoreWorld} {c : Commit}
    (h : committed env message w = some c) : c.rev.bundle = none := by
  obtain ⟨dsl, policies, tick, -, rfl⟩ := committed_cases h
  rfl

theorem call_committed {call : StoreCall} {w : StoreWorld} {c : Commit}
    (h : call.committed env w = some c) : ∃ message, committed env message w = some c := by
  cases call with
  | commit message => exact ⟨message, h⟩
  | writeActiveDsl dsl => cases h
  | signHead signer => cases h
  | deployHead => cases h

/-! ## Runs -/

theorem runCalls_append (calls calls' : List StoreCall) (w : StoreWorld) :
    runCalls env (calls ++ calls') w = runCalls env calls' (runCalls env calls w) :=
  List.foldl_append

/-- The commits of a run after a run. -/
theorem commitsOf_append (calls calls' : List StoreCall) : ∀ w : StoreWorld,
    commitsOf env (calls ++ calls') w =
      commitsOf env calls w ++ commitsOf env calls' (runCalls env calls w) := by
  induction calls with
  | nil => exact fun _ => rfl
  | cons call calls ih =>
      intro w
      rw [List.cons_append, commitsOf, commitsOf, ih, List.append_assoc]
      rfl

theorem commitsOf_singleton (call : StoreCall) (w : StoreWorld) :
    commitsOf env [call] w = (call.committed env w).toList := List.append_nil _

/-- A commit of the run is the one of some call. -/
theorem mem_commitsOf {calls : List StoreCall} {w : StoreWorld} {c : Commit} :
    c ∈ commitsOf env calls w ↔ ∃ pre call post, calls = pre ++ call :: post ∧
      call.committed env (runCalls env pre w) = some c := by
  induction calls generalizing w with
  | nil => simp [commitsOf]
  | cons call calls ih =>
      rw [commitsOf, List.mem_append, ih, Option.mem_toList]
      constructor
      · rintro (h | ⟨pre, call', post, rfl, h⟩)
        · exact ⟨[], call, calls, rfl, h⟩
        · exact ⟨call :: pre, call', post, rfl, h⟩
      · rintro ⟨pre, call', post, hcalls, h⟩
        cases pre with
        | nil =>
            obtain ⟨rfl, rfl⟩ := List.cons.inj hcalls
            exact Or.inl h
        | cons call'' pre =>
            obtain ⟨rfl, rfl⟩ := List.cons.inj hcalls
            exact Or.inr ⟨pre, call', post, rfl, h⟩

theorem PolicyRevision.Keeps.refl (rev : PolicyRevision) : rev.Keeps rev := ⟨rfl, rfl, rfl, id⟩

theorem PolicyRevision.Keeps.trans {rev rev' rev'' : PolicyRevision} (h : rev.Keeps rev')
    (h' : rev'.Keeps rev'') : rev.Keeps rev'' where
  cedar := h'.cedar.trans h.cedar
  dsl := h'.dsl.trans h.dsl
  message := h'.message.trans h.message
  signed hsigned := h'.signed (h.signed hsigned)

theorem holds_unique {disk : Disk} {id : String} {rev rev' : PolicyRevision}
    (h : Holds env disk id rev) (h' : Holds env disk id rev') : rev = rev' := by
  obtain ⟨text, htext, hrev⟩ := h
  obtain ⟨text', htext', hrev'⟩ := h'
  obtain rfl := Option.some.inj (htext.symm.trans htext')
  exact Except.ok.inj (hrev.symm.trans hrev')

section

variable (hjson : ∀ rev, env.fromJson (env.toJson rev) = .ok rev)
include hjson

/-- After a commit its revision is stored. -/
theorem holds_of_committed {call : StoreCall} {w : StoreWorld} {c : Commit}
    (h : call.committed env w = some c) :
    Holds env (call.run env w).state.disk c.rev.revision c.rev := by
  rcases @run_revision _ env call w with ⟨hnone, -⟩ | ⟨c', hc', hdisk⟩ | ⟨_, _, _, hnone, -⟩
  · rw [h] at hnone
    cases hnone
  · obtain rfl := Option.some.inj (h.symm.trans hc')
    exact ⟨_, by rw [hdisk, if_pos rfl], hjson c.rev⟩
  · rw [h] at hnone
    cases hnone

/-- Every stored revision has the texts and the message of a commit of the run under its name. -/
theorem stored_of_run (calls : List StoreCall) (start : Nat) :
    ∀ id text, (runCalls env calls ⟨fun _ => none, start⟩).disk (.revision id) = some text →
      ∃ rev, env.fromJson text = .ok rev ∧ ∃ c ∈ commitsOf env calls ⟨fun _ => none, start⟩,
        c.rev.revision = id ∧ rev.cedar = c.rev.cedar ∧ rev.dsl = c.rev.dsl ∧
          rev.message = c.rev.message := by
  induction calls using List.reverseRecOn with
  | nil =>
      intro id text h
      cases h
  | append_singleton calls call ih =>
      intro id text h
      rw [runCalls_append] at h
      rw [commitsOf_append, commitsOf_singleton]
      -- what was stored before the last call keeps its commit
      have hearlier : ∀ text', (runCalls env calls ⟨fun _ => none, start⟩).disk (.revision id) =
          some text' → ∃ rev, env.fromJson text' = .ok rev ∧ ∃ c ∈ commitsOf env calls
            ⟨fun _ => none, start⟩ ++ (call.committed env (runCalls env calls
              ⟨fun _ => none, start⟩)).toList, c.rev.revision = id ∧ rev.cedar = c.rev.cedar ∧
                rev.dsl = c.rev.dsl ∧ rev.message = c.rev.message := by
        intro text' htext'
        obtain ⟨rev, hrev, c, hc, hkeeps⟩ := ih id text' htext'
        exact ⟨rev, hrev, c, List.mem_append_left _ hc, hkeeps⟩
      rcases @run_revision _ env call (runCalls env calls ⟨fun _ => none, start⟩) with
        ⟨-, hdisk⟩ | ⟨c, hc, hdisk⟩ | ⟨revId, rev, b, -, ⟨text', htext', hrev'⟩, hdisk⟩
      · exact hearlier text ((hdisk id).symm.trans h)
      · have hid := (hdisk id).symm.trans h
        split at hid
        · rename_i hname
          -- the last call is itself the commit
          refine ⟨c.rev, by rw [← Option.some.inj hid]; exact hjson _, c, ?_, hname.symm, rfl, rfl,
            rfl⟩
          rw [hc]
          exact List.mem_append_right _ List.mem_cons_self
        · exact hearlier text hid
      · have hid := (hdisk id).symm.trans h
        split at hid
        · -- a bundle was put into a revision of the same texts
          rename_i hname
          obtain ⟨rev'', hrev'', c, hc, hkeeps⟩ := hearlier text' (hname ▸ htext')
          obtain rfl := Except.ok.inj (hrev'.symm.trans hrev'')
          refine ⟨{ rev with bundle := some b }, ?_, c, hc, hkeeps⟩
          rw [← Option.some.inj hid]
          exact hjson _
        · exact hearlier text hid

variable {calls : List StoreCall} {start : Nat}

/-- Where the commits are fresh, a commit under a name that is taken writes what is there, and that is
not signed. -/
theorem identical_of_fresh (hinj : HashInjective env calls ⟨fun _ => none, start⟩)
    (hfresh : FreshCommits env calls ⟨fun _ => none, start⟩) {pre post : List StoreCall}
    {call : StoreCall} (hcalls : calls = pre ++ call :: post) {c : Commit}
    (hc : call.committed env (runCalls env pre ⟨fun _ => none, start⟩) = some c) {text : String}
    (htext : (runCalls env pre ⟨fun _ => none, start⟩).disk (.revision c.rev.revision) = some text) :
    ∃ rev, Holds env (runCalls env pre ⟨fun _ => none, start⟩).disk c.rev.revision rev ∧
      rev.cedar = c.rev.cedar ∧ rev.dsl = c.rev.dsl ∧ rev.message = c.rev.message ∧
        rev.bundle = none := by
  obtain ⟨rev, hrev, c', hc', hname, hcedar, hdsl, hmessage⟩ :=
    stored_of_run hjson pre start _ _ htext
  have hholds : Holds env (runCalls env pre ⟨fun _ => none, start⟩).disk c.rev.revision rev :=
    ⟨text, htext, hrev⟩
  have hmem : c' ∈ commitsOf env calls ⟨fun _ => none, start⟩ := by
    rw [hcalls, commitsOf_append]
    exact List.mem_append_left _ hc'
  have hmem' : c ∈ commitsOf env calls ⟨fun _ => none, start⟩ :=
    mem_commitsOf.2 ⟨pre, call, post, hcalls, hc⟩
  obtain ⟨hdsl', hmessage', hunsigned⟩ :=
    hfresh pre call post hcalls c hc c' hc' (hinj c' hmem c hmem' hname)
  -- the Cedar text is made of the DSL text
  have hcedar' : c'.rev.cedar = c.rev.cedar := by
    obtain ⟨_, call', _, -, hcall'⟩ := mem_commitsOf.1 hc'
    obtain ⟨_, hcommitted'⟩ := call_committed hcall'
    obtain ⟨_, hcommitted⟩ := call_committed hc
    obtain ⟨ps', hps', htranslated'⟩ := committed_translated hcommitted'
    obtain ⟨ps, hps, htranslated⟩ := committed_translated hcommitted
    rw [hdsl'] at hps'
    obtain rfl := Except.ok.inj (hps.symm.trans hps')
    rw [htranslated', htranslated]
  exact ⟨rev, hholds, hcedar.trans hcedar', hdsl.trans hdsl', hmessage.trans hmessage',
    hunsigned rev hholds⟩

/-- A call of a run with fresh commits keeps a stored revision. -/
theorem step_keeps (hinj : HashInjective env calls ⟨fun _ => none, start⟩)
    (hfresh : FreshCommits env calls ⟨fun _ => none, start⟩) {pre post : List StoreCall}
    {call : StoreCall} (hcalls : calls = pre ++ call :: post) {id : String} {rev : PolicyRevision}
    (h : Holds env (runCalls env pre ⟨fun _ => none, start⟩).disk id rev) :
    ∃ rev', Holds env (runCalls env (pre ++ [call]) ⟨fun _ => none, start⟩).disk id rev' ∧
      rev.Keeps rev' := by
  have hstep : runCalls env (pre ++ [call]) ⟨fun _ => none, start⟩ =
      (call.run env (runCalls env pre ⟨fun _ => none, start⟩)).state := runCalls_append pre [call] _
  rw [hstep]
  have hsame : ∀ disk : Disk,
      disk (.revision id) = (runCalls env pre ⟨fun _ => none, start⟩).disk (.revision id) →
        ∃ rev', Holds env disk id rev' ∧ rev.Keeps rev' := by
    intro disk hdisk
    obtain ⟨text, htext, hrev⟩ := h
    exact ⟨rev, ⟨text, hdisk.trans htext, hrev⟩, .refl rev⟩
  rcases @run_revision _ env call (runCalls env pre ⟨fun _ => none, start⟩) with
    ⟨-, hdisk⟩ | ⟨c, hc, hdisk⟩ | ⟨revId, rev', b, -, hrev', hdisk⟩
  · exact hsame _ (hdisk id)
  · by_cases hid : id = c.rev.revision
    · subst hid
      -- a commit under a taken id is the same commit
      obtain ⟨text, htext, -⟩ := id h
      obtain ⟨rev', hholds, hcedar, hdsl, hmessage, hunsigned⟩ :=
        identical_of_fresh hjson hinj hfresh hcalls hc htext
      obtain rfl := holds_unique h hholds
      refine ⟨c.rev, ⟨_, by rw [hdisk, if_pos rfl], hjson c.rev⟩, ?_⟩
      refine ⟨hcedar.symm, hdsl.symm, hmessage.symm, fun hsigned => ?_⟩
      rw [hunsigned] at hsigned
      cases hsigned
    · exact hsame _ (by rw [hdisk, if_neg hid])
  · by_cases hid : id = revId
    · subst hid
      -- signing adds a bundle and changes nothing else
      obtain rfl := holds_unique h hrev'
      exact ⟨{ rev with bundle := some b }, ⟨_, by rw [hdisk, if_pos rfl], hjson _⟩,
        ⟨rfl, rfl, rfl, fun _ => rfl⟩⟩
    · exact hsame _ (by rw [hdisk, if_neg hid])

/-- **A run with fresh commits is immutable**, by induction on what follows a point of it. -/
theorem immutable_of_fresh (hinj : HashInjective env calls ⟨fun _ => none, start⟩)
    (hfresh : FreshCommits env calls ⟨fun _ => none, start⟩) :
    Immutable env calls ⟨fun _ => none, start⟩ := by
  constructor
  · intro pre more
    induction more using List.reverseRecOn with
    | nil =>
        intro post _ id rev h
        rw [List.append_nil]
        exact ⟨rev, h, .refl rev⟩
    | append_singleton more call ih =>
        intro post hcalls id rev h
        have hsplit : calls = (pre ++ more) ++ call :: post := by
          rw [hcalls]
          simp
        -- up to the last call, and then one step
        obtain ⟨rev', hrev', hkeeps⟩ := ih (call :: post) hsplit id rev h
        obtain ⟨rev'', hrev'', hkeeps'⟩ := step_keeps hjson hinj hfresh hsplit hrev'
        rw [← List.append_assoc]
        exact ⟨rev'', hrev'', hkeeps.trans hkeeps'⟩
  · intro pre call post hcalls c hc
    cases htext : (runCalls env pre ⟨fun _ => none, start⟩).disk (.revision c.rev.revision) with
    | none => exact Or.inl rfl
    | some text =>
        obtain ⟨rev, hholds, hcedar, hdsl, hmessage, -⟩ :=
          identical_of_fresh hjson hinj hfresh hcalls hc htext
        exact Or.inr ⟨rev, hholds, hcedar, hdsl, hmessage⟩

/-- In an immutable run the commits are fresh. -/
theorem fresh_of_immutable {w : StoreWorld} (h : Immutable env calls w) :
    FreshCommits env calls w := by
  obtain ⟨hkept, hidentical⟩ := h
  intro pre call post hcalls c hc c' hc' hhashed
  obtain ⟨pre₁, call₁, post₁, hpre, hcall₁⟩ := mem_commitsOf.1 hc'
  obtain ⟨message, hcommitted⟩ := call_committed hc
  obtain ⟨message', hcommitted'⟩ := call_committed hcall₁
  have hname : c'.rev.revision = c.rev.revision := by
    rw [committed_named hcommitted', committed_named hcommitted, hhashed]
  -- the earlier commit was stored, and is still there
  have hstored : Holds env (runCalls env (pre₁ ++ [call₁]) w).disk c'.rev.revision c'.rev := by
    rw [runCalls_append]
    exact holds_of_committed hjson hcall₁
  obtain ⟨rev, hrev, hkeeps⟩ := hkept (pre₁ ++ [call₁]) post₁ (call :: post)
    (by rw [hcalls, hpre]; simp) _ _ hstored
  have hpre' : pre₁ ++ [call₁] ++ post₁ = pre := by rw [hpre]; simp
  rw [hpre', hname] at hrev
  rcases hidentical pre call post hcalls c hc with hnone | ⟨rev', hrev', -, hdsl, hmessage⟩
  · obtain ⟨text, htext, -⟩ := hrev
    rw [hnone] at htext
    cases htext
  · obtain rfl := holds_unique hrev hrev'
    refine ⟨hkeeps.dsl.symm.trans hdsl, hkeeps.message.symm.trans hmessage, fun rev' hrev' => ?_⟩
    obtain rfl := holds_unique hrev hrev'
    -- a signature would be gone after the commit
    obtain ⟨rev'', hrev'', hkeeps'⟩ := hkept pre [call] post (by rw [hcalls]; simp) _ _ hrev
    rw [runCalls_append] at hrev''
    obtain rfl := holds_unique hrev'' (holds_of_committed hjson hc)
    cases hbundle : rev.bundle with
    | none => rfl
    | some b =>
        have hsigned := hkeeps'.signed (by rw [hbundle]; rfl)
        rw [committed_unsigned hcommitted] at hsigned
        cases hsigned

end

end

/-- **When committed revisions are immutable.** In the runs from an empty store in which the hash tells
apart the texts that it is taken of, no stored revision changes or loses its signature and no commit
is stored over another exactly when every commit that hashes the text of an earlier one has its DSL
text and message and finds it unsigned. -/
theorem immutable_iff {E : Engine} (env : StoreEnv E) (calls : List StoreCall) (start : Nat)
    (hjson : ∀ rev, env.fromJson (env.toJson rev) = .ok rev)
    (hinj : HashInjective env calls ⟨fun _ => none, start⟩) :
    Immutable env calls ⟨fun _ => none, start⟩ ↔ FreshCommits env calls ⟨fun _ => none, start⟩ :=
  ⟨fresh_of_immutable hjson, immutable_of_fresh hjson hinj⟩

/-- Commits that hash pairwise different texts are fresh. -/
theorem freshCommits_of_pairwise {E : Engine} {env : StoreEnv E} {calls : List StoreCall}
    {w : StoreWorld}
    (h : (commitsOf env calls w).Pairwise fun c c' => c.hashed ≠ c'.hashed) :
    FreshCommits env calls w := by
  rintro pre call post rfl c hc c' hc' hsame
  rw [commitsOf_append, commitsOf, hc] at h
  have hother := (List.pairwise_append.1 h).2.2 c' hc' c (by simp)
  exact absurd hsame hother

/-! ## A revision with another text -/

namespace KnownStore

/-- The text with a comment. -/
def reviewed : String := KnownRevision.dsl ++ "# reviewed\n"

def policies : List DslPolicy :=
  [⟨"chat", .allow, "READ", "GENERAL_CHAT", [], [], [], [],
    "policy \"chat\"\nallow READ GENERAL_CHAT"⟩]

/-- The reference engine passes every text of plain policies. -/
theorem validateDsl_reference {dsl : String} {ps : List DslPolicy} (hparse : parseDsl dsl = .ok ps)
    (hplain : ps.all DslPolicy.plainNames = true) (hne : ps ≠ []) :
    validateDsl Engine.reference dsl = .ok ps := by
  have hset := cedarPolicySetFromDsl_reference hplain
  have hvalid : validateCedarPolicySet Engine.reference (ps.map compile) = .ok () := rfl
  refine bind_eq_ok.2 ⟨ps, hparse, bind_eq_ok.2 ⟨_, hset, bind_eq_ok.2 ⟨(), hvalid, ?_⟩⟩⟩
  rw [if_neg (by rwa [List.isEmpty_iff])]
  rfl

theorem toCedar_policies : dslToCedar policies = KnownRevision.cedar := by decide +kernel

theorem revisionOf_policies :
    revisionOf env KnownRevision.cedar "first" 1700000000 = KnownRevision.revision := by
  decide +kernel

/-- A commit of a text of these policies, without faults and at this moment. -/
theorem committed_policies (env : StoreEnv Engine.reference) (hfault : ∀ n, env.fault n = none)
    (hnow : ∀ n, env.now n = ⟨1700000000, "2023-11-14T22:13:20+00:00"⟩) {dsl message id : String}
    (hparse : parseDsl dsl = .ok policies)
    (hname : revisionOf env KnownRevision.cedar message 1700000000 = id) {w : StoreWorld}
    (hactive : w.disk .active = some dsl) :
    (StoreCall.commit message).committed env w =
      some ⟨⟨id, message, "2023-11-14T22:13:20+00:00", KnownRevision.cedar, dsl, none⟩,
        1700000000⟩ := by
  have hread : readActiveDsl env w = ⟨.ok dsl, ⟨w.disk, w.tick + 2⟩, []⟩ :=
    readActiveDsl_done hfault hactive
  have hvalid := validateDsl_reference hparse (by decide +kernel) (List.cons_ne_nil _ _)
  have hcommit : commitOf env message dsl policies (w.tick + 2) =
      ⟨⟨id, message, "2023-11-14T22:13:20+00:00", KnownRevision.cedar, dsl, none⟩,
        1700000000⟩ := by
    rw [commitOf, toCedar_policies, hnow, hnow, hname]
  rw [StoreCall.committed, committed, hread]
  dsimp only
  rw [hvalid]
  dsimp only
  rw [if_pos (hfault _), hcommit]

theorem parseDsl_dsl : parseDsl KnownRevision.dsl = .ok policies := by decide +kernel

theorem parseDsl_reviewed : parseDsl reviewed = .ok policies := by decide +kernel

/-- Writing an active text leaves it on the disk. -/
theorem active_written (env : StoreEnv Engine.reference) (hfault : ∀ n, env.fault n = none)
    (dsl : String) (w : StoreWorld) :
    ((StoreCall.writeActiveDsl dsl).run env w).state.disk .active = some dsl := by
  show (writeFile env .active dsl w).state.disk .active = _
  rw [writeFile_done (hfault _)]
  dsimp only
  exact Disk.write_same _ _ _

/-- A text of these policies that is written and committed. -/
theorem committed_written {dsl : String} (h : parseDsl dsl = .ok policies) (w : StoreWorld) :
    (StoreCall.commit "first").committed env ((StoreCall.writeActiveDsl dsl).run env w).state =
      some ⟨{ unsigned with dsl := dsl }, 1700000000⟩ :=
  committed_policies env (fun _ => rfl) (fun _ => rfl) h revisionOf_policies
    (active_written env (fun _ => rfl) dsl w)

/-- A text of these policies is stored by writing and committing it. -/
theorem holds_written {dsl : String} (h : parseDsl dsl = .ok policies) (w : StoreWorld) :
    Holds env (runCalls env [.writeActiveDsl dsl, .commit "first"] w).disk
      unsigned.revision { unsigned with dsl := dsl } := by
  rw [runCalls, List.foldl_cons, List.foldl_cons, List.foldl_nil]
  exact holds_of_committed fromJson_toJson (committed_written h w)

/-- Write and commit, and again with a comment in the same second. -/
def recommitted : List StoreCall :=
  [.writeActiveDsl KnownRevision.dsl, .commit "first", .writeActiveDsl reviewed, .commit "first"]

theorem recommitted_append :
    recommitted = ([.writeActiveDsl KnownRevision.dsl, .commit "first"] : List StoreCall) ++
      [.writeActiveDsl reviewed, .commit "first"] ++ [] := by
  rw [List.append_nil, List.cons_append, List.cons_append, List.nil_append]
  rfl

theorem commitsOf_recommitted (w : StoreWorld) :
    commitsOf env recommitted w =
      [⟨unsigned, 1700000000⟩, ⟨{ unsigned with dsl := reviewed }, 1700000000⟩] := by
  have hfirst := committed_written parseDsl_dsl w
  have hsecond := committed_written parseDsl_reviewed
  rw [recommitted, commitsOf, commitsOf, hfirst, commitsOf, commitsOf, hsecond]
  rfl

theorem recommitted_injective (w : StoreWorld) : HashInjective env recommitted w := by
  have hsame : ∀ c ∈ commitsOf env recommitted w,
      c.hashed = KnownRevision.cedar ++ "first" ++ toString (1700000000 : Int) := by
    rw [commitsOf_recommitted]
    intro c hc
    rcases List.mem_cons.1 hc with rfl | hc
    · rfl
    · obtain rfl := List.mem_singleton.1 hc
      rfl
  intro c hc c' hc' _
  rw [hsame c hc, hsame c' hc']

/-! ### A revision that is signed before the next commit -/

/-- The digest of the Cedar text, committed with another message. -/
def secondDigest : FixedBytes 32 :=
  ⟨[219, 171, 111, 61, 253, 238, 86, 236, 235, 42, 230, 42, 99, 216, 189, 56, 229, 123, 120, 15,
    137, 86, 231, 80, 205, 211, 104, 163, 69, 77, 67, 222], rfl⟩

/-- The surroundings with revisions printed in full and with the hash right on both commits. -/
def printed : StoreEnv Engine.reference :=
  { env with
    crypto := { KnownRevision.lib with
      sha256 := fun text =>
        if text = KnownRevision.cedar ++ "second" ++ "1700000000" then secondDigest
        else KnownRevision.lib.sha256 text }
    toJson := Serde.toPretty PolicyRevision.toJson
    fromJson := fun text =>
      mapErr (fun _ => "expected value at line 1 column 1")
        (Serde.fromText PolicyRevision.fromJson text) }

theorem printed_json (rev : PolicyRevision) : printed.fromJson (printed.toJson rev) = .ok rev := by
  have hread := rev.fromText_toPretty
  generalize hprint : Serde.toPretty PolicyRevision.toJson rev = text at hread
  have htext : printed.toJson rev = text := hprint
  rw [htext]
  exact (mapErr_eq_ok _ _ _).2 hread

theorem printed_works : printed.WorksFrom 0 := fun _ _ => rfl

/-- The local key that signs. -/
def signerKey : LocalEd25519Signer := ⟨"k1", KnownRevision.secret⟩

/-- Write, commit, sign, and commit again with another message. -/
def recorded : List StoreCall :=
  [.writeActiveDsl KnownRevision.dsl, .commit "first", .signHead (signerKey.signer printed.crypto),
    .commit "second"]

/-- Writing a text of these policies, committing and signing it leaves the text and a signed
revision. -/
theorem holds_signed {env : StoreEnv Engine.reference} (hworks : env.WorksFrom 0)
    (hjson : ∀ rev, env.fromJson (env.toJson rev) = .ok rev) {dsl : String}
    (hparse : parseDsl dsl = .ok policies) (message : String) (key : LocalEd25519Signer)
    (w : StoreWorld) :
    ∃ w', runCalls env [.writeActiveDsl dsl, .commit message, .signHead (key.signer env.crypto)] w =
        w' ∧
      w'.disk .active = some dsl ∧
      ∃ id rev, Holds env w'.disk id rev ∧ rev.bundle.isSome = true := by
  have hfault : ∀ n, env.fault n = none := fun n => hworks n n.zero_le
  have hvalid := validateDsl_reference hparse (by decide +kernel) (List.cons_ne_nil _ _)
  refine ⟨_, rfl, ?_⟩
  rw [runCalls, List.foldl_cons, List.foldl_cons, List.foldl_cons, List.foldl_nil]
  have hactive := active_written env hfault dsl w
  generalize ((StoreCall.writeActiveDsl dsl).run env w).state = w₁ at hactive ⊢
  -- each call runs on the disk that the one before it leaves
  obtain ⟨rev, -, ⟨htrim, -⟩, hdisk, -⟩ :=
    total_commit hworks message hactive hvalid w₁ ⟨rfl, Nat.zero_le _⟩
  have hcommit : ((StoreCall.commit message).run env w₁).state = (commit env message w₁).state :=
    Eff.bind_pure_state _ _ _
  rw [hcommit]
  generalize (commit env message w₁).state = w₂ at hdisk ⊢
  have hhead : w₂.disk .head = some rev.revision := by
    rw [hdisk]
    exact Disk.write_same _ _ _
  have hrev : w₂.disk (.revision (Text.trim rev.revision)) = some (env.toJson rev) := by
    rw [hdisk, htrim, Disk.write_other _ _ (by simp)]
    exact Disk.write_same _ _ _
  obtain ⟨b, -, -, hsigned, -⟩ :=
    total_signHead hworks hhead hrev (hjson rev) key w₂ ⟨rfl, Nat.zero_le _⟩
  have hsign : ((StoreCall.signHead (key.signer env.crypto)).run env w₂).state =
      (signHead env (key.signer env.crypto) w₂).state := Eff.bind_pure_state _ _ _
  rw [hsign]
  refine ⟨?_, Text.trim rev.revision, { rev with bundle := some b }, ⟨_, ?_, hjson _⟩, rfl⟩
  · rw [hsigned, Disk.write_other _ _ (by simp), hdisk, Disk.write_other _ _ (by simp),
      Disk.write_other _ _ (by simp), hactive]
  · rw [hsigned]
    exact Disk.write_same _ _ _

theorem revisionOf_printed :
    revisionOf printed KnownRevision.cedar "first" 1700000000 = KnownRevision.revision ∧
      revisionOf printed KnownRevision.cedar "second" 1700000000 = "dbab6f3dfdee56ec" := by
  decide +kernel

/-- The commits of the run. -/
theorem commitsOf_recorded :
    commitsOf printed recorded ⟨fun _ => none, 0⟩ =
      [⟨unsigned, 1700000000⟩,
        ⟨{ unsigned with revision := "dbab6f3dfdee56ec", message := "second" }, 1700000000⟩] := by
  have hfirst := committed_policies printed (fun _ => rfl) (fun _ => rfl) parseDsl_dsl
    revisionOf_printed.1
    (active_written printed (fun _ => rfl) KnownRevision.dsl ⟨fun _ => none, 0⟩)
  obtain ⟨w, hw, hactive, -⟩ := holds_signed printed_works printed_json parseDsl_dsl "first"
    signerKey ⟨fun _ => none, 0⟩
  have hsecond := committed_policies printed (fun _ => rfl) (fun _ => rfl) parseDsl_dsl
    revisionOf_printed.2 hactive
  have hrun : recorded = ([.writeActiveDsl KnownRevision.dsl, .commit "first",
      .signHead (signerKey.signer printed.crypto)] : List StoreCall) ++ [.commit "second"] := rfl
  rw [hrun, commitsOf_append, commitsOf_singleton, hw, hsecond, commitsOf, commitsOf, hfirst]
  rfl

end KnownStore

/-- A signed revision is kept while another is committed beside it. -/
theorem immutable_once :
    Immutable KnownStore.printed KnownStore.recorded ⟨fun _ => none, 0⟩ ∧
      ∃ id rev, Holds KnownStore.printed
        (runCalls KnownStore.printed KnownStore.recorded ⟨fun _ => none, 0⟩).disk id rev ∧
        rev.bundle.isSome = true := by
  have himmutable : Immutable KnownStore.printed KnownStore.recorded ⟨fun _ => none, 0⟩ := by
    refine (immutable_iff KnownStore.printed KnownStore.recorded 0 KnownStore.printed_json ?_).2
      (freshCommits_of_pairwise ?_)
    · intro c hc c' hc' hsame
      rw [KnownStore.commitsOf_recorded] at hc hc'
      simp only [List.mem_cons, List.not_mem_nil, or_false] at hc hc'
      rcases hc with rfl | rfl <;> rcases hc' with rfl | rfl
      · rfl
      · exact absurd hsame (by decide)
      · exact absurd hsame (by decide)
      · rfl
    · rw [KnownStore.commitsOf_recorded, List.pairwise_pair]
      intro hsame
      have hlength := congrArg String.length hsame
      simp only [Commit.hashed, String.length_append] at hlength
      have hfirst : (KnownStore.unsigned.message).length = 5 := rfl
      have hsecond : ("second" : String).length = 6 := rfl
      omega
  refine ⟨himmutable, ?_⟩
  -- the signature that is there before the second commit is there after it
  obtain ⟨w, hw, -, id, rev, hrev, hsigned⟩ := KnownStore.holds_signed KnownStore.printed_works
    KnownStore.printed_json KnownStore.parseDsl_dsl "first" KnownStore.signerKey ⟨fun _ => none, 0⟩
  rw [← hw] at hrev
  obtain ⟨rev', hrev', hkeeps⟩ := himmutable.1 _ [.commit "second"] []
    (by rw [List.append_nil]; rfl) id rev hrev
  exact ⟨id, rev', hrev', hkeeps.signed hsigned⟩

/-- A second commit in the same second, of a text with the same translation, replaces the DSL text of
the revision. -/
theorem recommit_replaces_text :
    HashInjective KnownStore.env KnownStore.recommitted ⟨fun _ => none, 0⟩ ∧
      ¬Immutable KnownStore.env KnownStore.recommitted ⟨fun _ => none, 0⟩ := by
  refine ⟨KnownStore.recommitted_injective _, ?_⟩
  rintro ⟨hkept, -⟩
  have hfirst := KnownStore.holds_written KnownStore.parseDsl_dsl ⟨fun _ => none, 0⟩
  obtain ⟨rev, hrev, hkeeps⟩ := hkept
    [.writeActiveDsl KnownRevision.dsl, .commit "first"]
    [.writeActiveDsl KnownStore.reviewed, .commit "first"] [] KnownStore.recommitted_append
    _ _ hfirst
  rw [runCalls_append] at hrev
  obtain rfl := holds_unique hrev (KnownStore.holds_written KnownStore.parseDsl_reviewed _)
  exact absurd hkeeps.dsl (by decide +kernel)

end Paac
