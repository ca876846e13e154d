import Paac.Policy.Lifecycle

set_option autoImplicit false

/-!
# The diff of the active text and a revision

`simple_diff` compares two texts line by line and takes a missing line for an empty one. Two texts
without a difference have the same lines up to empty lines at the end, and the parser skips these:
it strips each line of its comment and trims it, and an empty line does nothing.

## Main results

- `simpleDiff_eq_none_iff`: the diff says that there is no difference exactly when every line is the
  same, a missing one being empty.
- `parseLine_empty`, `parseLines_of_empty`, `parseLines_congr`: empty lines at the end do not change
  what is parsed.
- `parseDsl_eq_of_simpleDiff`: texts without a difference have one outcome, policies or an error.
- `no_differences_same_policies`: when the diff of the active text and a revision finds nothing,
  both parse to the same outcome.
-/

namespace Paac

open Cedar (Engine)

/-! ## The source -/

/-- A difference at one line: `-` with the old line and `+` with the new one, unless it is empty. -/
def diffLine (a b : String) : String :=
  if a = b then ""
  else (if a.isEmpty then "" else "- " ++ a ++ "\n") ++ (if b.isEmpty then "" else "+ " ++ b ++ "\n")

/-- `simple_diff`. -/
def simpleDiff (old new : String) : String :=
  let oldLines := Text.lines old
  let newLines := Text.lines new
  let out := (List.range (max oldLines.length newLines.length)).foldl
    (fun out i => out ++ diffLine (oldLines.getD i "") (newLines.getD i "")) ""
  if out.isEmpty then "(no differences)\n" else out

/-- `PolicyStore::diff_active_vs_revision`. -/
def diffActiveVsRevision {E : Engine} (env : StoreEnv E) (revision : String) : StoreOp String := do
  let active ← readActiveDsl env
  let rev ← loadRevision env revision
  return simpleDiff rev.dsl active

/-! ## The text of a diff -/

/-- A line of the diff is empty when the lines are equal. -/
theorem diffLine_eq_empty_iff (a b : String) : diffLine a b = "" ↔ a = b := by
  rw [diffLine]
  split
  · rename_i h
    exact ⟨fun _ => h, fun _ => rfl⟩
  · rename_i h
    refine ⟨fun hempty => ?_, fun hab => absurd hab h⟩
    rw [String.append_eq_empty_iff] at hempty
    -- a line that is not written is empty, and so the two lines are the same
    have ha : a = "" := by
      by_contra hne
      have hfirst := hempty.1
      rw [if_neg (by rwa [String.isEmpty_iff])] at hfirst
      have hchars := congrArg String.toList hfirst
      simp at hchars
    have hb : b = "" := by
      by_contra hne
      have hsecond := hempty.2
      rw [if_neg (by rwa [String.isEmpty_iff])] at hsecond
      have hchars := congrArg String.toList hsecond
      simp at hchars
    exact ha.trans hb.symm

/-- What is written starts with one of the two marks. -/
theorem diffLine_head {a b : String} {c : Char} (h : (diffLine a b).toList.head? = some c) :
    c = '-' ∨ c = '+' := by
  rw [diffLine] at h
  split at h
  · cases h
  · split at h <;> split at h
    · cases h
    · rw [String.empty_append, String.append_assoc, String.toList_append] at h
      exact Or.inr (Option.some.inj h).symm
    · rw [String.append_empty, String.append_assoc, String.toList_append] at h
      exact Or.inl (Option.some.inj h).symm
    · rw [String.append_assoc, String.append_assoc, String.toList_append] at h
      exact Or.inl (Option.some.inj h).symm

/-- The characters of a text that is built by appending. -/
theorem toList_foldl_append {ι : Type} (f : ι → String) (is : List ι) (acc : String) :
    (is.foldl (fun out i => out ++ f i) acc).toList =
      acc.toList ++ is.flatMap fun i => (f i).toList := by
  induction is generalizing acc with
  | nil => exact (List.append_nil _).symm
  | cons i is ih =>
      rw [List.foldl_cons, ih, String.toList_append, List.flatMap_cons, List.append_assoc]

/-- No difference is found exactly when every line is the same, missing ones being empty. -/
theorem simpleDiff_eq_none_iff (old new : String) : simpleDiff old new = "(no differences)\n" ↔
    ∀ i, (Text.lines old).getD i "" = (Text.lines new).getD i "" := by
  rw [simpleDiff]
  generalize Text.lines old = ls
  generalize Text.lines new = ls'
  have htext := toList_foldl_append (fun i => diffLine (ls.getD i "") (ls'.getD i ""))
    (List.range (max ls.length ls'.length)) ""
  rw [String.toList_empty, List.nil_append] at htext
  constructor
  · intro h i
    split at h
    · rename_i hempty
      rw [String.isEmpty_iff] at hempty
      rw [hempty] at htext
      by_cases hi : i < max ls.length ls'.length
      · have hline := List.flatMap_eq_nil_iff.1 htext.symm i (List.mem_range.2 hi)
        rw [← diffLine_eq_empty_iff]
        exact String.toList_inj.1 hline
      · rw [List.getD_eq_default _ _ (by omega), List.getD_eq_default _ _ (by omega)]
    · -- a line that was written starts with a mark
      have hhead := congrArg List.head? htext
      rw [h, List.head?_flatMap] at hhead
      obtain ⟨j, -, hj⟩ := List.exists_of_findSome?_eq_some hhead.symm
      rcases diffLine_head hj with hc | hc <;> cases hc
  · intro h
    apply if_pos
    rw [String.isEmpty_iff, ← String.toList_inj, htext, String.toList_empty,
      List.flatMap_eq_nil_iff]
    intro i _
    rw [(diffLine_eq_empty_iff _ _).2 (h i)]
    rfl

/-! ## Lines that are not there -/

theorem parseLine_empty (s : ParseState) (loc : Nat) : parseLine s loc "" = .ok s := rfl

/-- Empty lines change nothing. -/
theorem parseLines_of_empty {ls : List String} (h : ∀ l ∈ ls, l = "") (s : ParseState) (loc : Nat) :
    parseLines s loc ls = .ok s := by
  induction ls generalizing loc with
  | nil => rfl
  | cons l ls ih =>
      rw [List.forall_mem_cons] at h
      rw [parseLines, h.1, parseLine_empty]
      exact ih h.2 (loc + 1)

/-- Lines that agree where both lists have one, and are empty where one list has none, leave the
parser in the same state. -/
theorem parseLines_congr {ls ls' : List String} (h : ∀ i, ls.getD i "" = ls'.getD i "")
    (s : ParseState) (loc : Nat) : parseLines s loc ls = parseLines s loc ls' := by
  induction ls generalizing ls' s loc with
  | nil =>
      refine (parseLines_of_empty (fun l hl => ?_) s loc).symm
      obtain ⟨i, hi, rfl⟩ := List.getElem_of_mem hl
      rw [← List.getD_eq_getElem ls' "" hi, ← h i]
      rfl
  | cons l ls ih =>
      cases ls' with
      | nil =>
          apply parseLines_of_empty
          intro l' hl'
          obtain ⟨i, hi, rfl⟩ := List.getElem_of_mem hl'
          rw [← List.getD_eq_getElem (l :: ls) "" hi, h i]
          rfl
      | cons l' ls' =>
          obtain rfl : l = l' := h 0
          rw [parseLines, parseLines]
          exact bind_congr fun s' => ih (fun i => h (i + 1)) s' (loc + 1)

theorem parseDsl_eq_of_simpleDiff {old new : String}
    (h : simpleDiff old new = "(no differences)\n") : parseDsl new = parseDsl old := by
  rw [parseDsl, parseDsl, parseLines_congr ((simpleDiff_eq_none_iff old new).1 h)]

/-! ## No difference -/

/-- **A diff without differences.** When the diff of the active text and a stored revision is empty,
the parser reads the same policies, or reports the same error, from both texts. -/
theorem no_differences_same_policies {E : Engine} (env : StoreEnv E) (revision : String)
    (w : StoreWorld)
    (h : (diffActiveVsRevision env revision w).result = .ok "(no differences)\n") :
    ∃ active text rev, (readActiveDsl env w).result = .ok active ∧
      w.disk (.revision revision) = some text ∧ env.fromJson text = .ok rev ∧
      parseDsl active = parseDsl rev.dsl := by
  obtain ⟨active, hactive, h⟩ := Eff.bind_result_ok.1 h
  obtain ⟨rev, hrev, h⟩ := Eff.bind_result_ok.1 h
  obtain ⟨text, hdisk, hjson⟩ := (reads_loadRevision revision _).2 rev hrev
  rw [(reads_readActiveDsl w).1] at hdisk
  exact ⟨active, text, rev, hactive, hdisk, hjson, parseDsl_eq_of_simpleDiff (Except.ok.inj h)⟩

/-! ## A revision without a difference -/

/-- The diff of the active text and a revision when nothing fails. -/
theorem diffActiveVsRevision_done {E : Engine} {env : StoreEnv E} {w : StoreWorld}
    {id active text : String} {rev : PolicyRevision} (hfault : ∀ n, env.fault n = none)
    (hactive : w.disk .active = some active) (hdisk : w.disk (.revision id) = some text)
    (hjson : env.fromJson text = .ok rev) :
    (diffActiveVsRevision env id w).result = .ok (simpleDiff rev.dsl active) := by
  have hread := readActiveDsl_done hfault hactive
  have hload : loadRevision env id ⟨w.disk, w.tick + 2⟩ =
      ⟨.ok rev, ⟨w.disk, w.tick + 2 + 1⟩, []⟩ := loadRevision_done (hfault _) hdisk hjson
  apply Eff.bind_result_ok.2
  refine ⟨active, congrArg Outcome.result hread, ?_⟩
  rw [hread]
  apply Eff.bind_result_ok.2
  exact ⟨rev, congrArg Outcome.result hload, rfl⟩

namespace KnownStore

/-- A store whose active text is that of the revision with empty lines after it. -/
def padded : StoreWorld where
  disk
    | .active => some (KnownRevision.dsl ++ "\n\n")
    | .revision _ => some (env.toJson unsigned)
    | _ => none
  tick := 0

theorem active_padded : padded.disk .active = some (KnownRevision.dsl ++ "\n\n") := rfl

theorem simpleDiff_padded :
    simpleDiff unsigned.dsl (KnownRevision.dsl ++ "\n\n") = "(no differences)\n" := by
  have hold : Text.lines unsigned.dsl = ["policy \"chat\"", "allow READ GENERAL_CHAT"] := by
    decide +kernel
  have hnew : Text.lines (KnownRevision.dsl ++ "\n\n") =
      ["policy \"chat\"", "allow READ GENERAL_CHAT", "", ""] := by decide +kernel
  rw [simpleDiff_eq_none_iff, hold, hnew]
  intro i
  match i with
  | 0 | 1 | 2 | 3 => rfl
  | _ + 4 => rfl

theorem diff_padded : (diffActiveVsRevision env KnownRevision.revision padded).result =
    .ok "(no differences)\n" := by
  have hrev : padded.disk (.revision KnownRevision.revision) = some (env.toJson unsigned) := rfl
  rw [diffActiveVsRevision_done (fun _ => rfl) active_padded hrev (fromJson_toJson unsigned),
    simpleDiff_padded]

end KnownStore

/-- Empty lines at the end are no difference. -/
theorem padded_same_policies : ∃ active text rev,
    (readActiveDsl KnownStore.env KnownStore.padded).result = .ok active ∧
      KnownStore.padded.disk (.revision KnownRevision.revision) = some text ∧
      KnownStore.env.fromJson text = .ok rev ∧ parseDsl active = parseDsl rev.dsl :=
  no_differences_same_policies KnownStore.env KnownRevision.revision KnownStore.padded
    KnownStore.diff_padded

end Paac
