import Paac.Library.Words

set_option autoImplicit false

/-!
# Paths of files

A path is a text whose components stand between slashes. It is resolved from the directory where it
starts, component by component: an empty one and `.` stay, `..` goes to the directory above, and any
other one must be a directory, but for the last, which is the name of the file. Which directories
exist is a parameter; links are not followed, and a path with a NUL names nothing.

Joining is done on texts, as `PathBuf::join` does it: an absolute path replaces the base, and `..`
in the joined part is kept. So a joined path can lead anywhere, and what the lemmas say is where it
starts and what it ends in.

## Main results

- `components_join`: the components of a joined path are those of its two parts.
- `directoryOf_join`: the directory that a joined path starts in.
- `fileIn_getLast`, `fileOf_getLast`: a file that is found has the name of the last component.
- `fileOf_join_plain`: a name without a slash is a file of the directory it is joined to.
-/

namespace Paac.Paths

/-- A file or a directory, by its components from the root of the file system. -/
abbrev FilePath : Type := List String

/-- The components of a path. -/
def components (p : String) : List String := Text.split '/' p

/-- A path that does not start at the working directory. -/
def isAbsolute (p : String) : Bool := Text.startsWith "/" p

/-- `PathBuf::join`; an absolute path replaces the base. -/
def join (base p : String) : String :=
  if isAbsolute p then p
  else if base = "" ∨ Text.endsWith "/" base = true then base ++ p
  else base ++ "/" ++ p

/-- Where the resolution of a path starts. -/
def start (cwd : FilePath) (p : String) : FilePath := if isAbsolute p then [] else cwd

/-- The component names no entry of its directory. -/
def isSpecial (c : String) : Bool := c = "" || c = "." || c = ".."

section

variable (isDir : FilePath → Bool)

/-- One component on the way. -/
def enter (dir : FilePath) (c : String) : Option FilePath :=
  if c = "" ∨ c = "." then some dir
  else if c = ".." then some dir.dropLast
  else if isDir (dir ++ [c]) then some (dir ++ [c])
  else none

/-- The directory at the end of the components. -/
def enterAll (dir : FilePath) (cs : List String) : Option FilePath := cs.foldlM (enter isDir) dir

/-- The directory that a path names. -/
def directoryOf (cwd : FilePath) (p : String) : Option FilePath :=
  enterAll isDir (start cwd p) (components p)

/-- The file at the end of the components. -/
def fileIn (dir : FilePath) (cs : List String) : Option FilePath :=
  match cs.getLast? with
  | none => none
  | some c =>
      if isSpecial c then none
      else ((enterAll isDir dir cs.dropLast).map (· ++ [c])).filter fun f => !isDir f

/-- The file that a path names; a path with a NUL names none. -/
def fileOf (cwd : FilePath) (p : String) : Option FilePath :=
  if p.toList.contains (Char.ofNat 0) then none
  else fileIn isDir (start cwd p) (components p)

end

/-! ## Components of a joined path -/

/-- Splitting a text that has the separator inside. -/
theorem splitChars_append_sep (c : Char) (cs ds : List Char) :
    Text.splitChars c (cs ++ c :: ds) = Text.splitChars c cs ++ Text.splitChars c ds := by
  induction cs with
  | nil => exact Text.splitChars_append List.not_mem_nil ds
  | cons d cs ih =>
      rw [List.cons_append, Text.splitChars, Text.splitChars, ih]
      split
      · rfl
      · cases h : Text.splitChars c cs with
        | nil => exact absurd h (Text.splitChars_ne_nil c cs)
        | cons piece rest => rfl

theorem components_slash (base p : String) :
    components (base ++ "/" ++ p) = components base ++ components p := by
  have hslash : ("/" : String).toList = ['/'] := rfl
  rw [components, Text.split, String.toList_append, String.toList_append, hslash, List.append_assoc,
    List.singleton_append, splitChars_append_sep, List.map_append]
  rfl

theorem components_empty : components "" = [""] := rfl

/-- The components of a relative path come after some that lead where the base leads. -/
theorem components_join {base p : String} (hp : isAbsolute p = false) :
    ∃ cs, components (join base p) = cs ++ components p ∧
      ∀ (isDir : FilePath → Bool) dir,
        enterAll isDir dir cs = enterAll isDir dir (components base) := by
  rw [join, hp, if_neg Bool.false_ne_true]
  split
  · rename_i hbase
    by_cases hnil : base = ""
    · subst hnil
      exact ⟨[], by rw [String.empty_append, List.nil_append], fun _ _ => rfl⟩
    · -- the base ends with a slash, so its last component is empty
      obtain ⟨b, hb⟩ := Option.isSome_iff_exists.1 (hbase.resolve_left hnil)
      have hslash := Text.stripSuffix_eq_some hb
      refine ⟨components b, by rw [hslash, components_slash], fun isDir dir => ?_⟩
      have hsplit := components_slash b ""
      rw [String.append_empty, components_empty] at hsplit
      rw [hslash, hsplit, enterAll, enterAll, List.foldlM_append]
      cases List.foldlM (enter isDir) dir (components b) with
      | none => rfl
      | some d => rfl
  · exact ⟨components base, components_slash base p, fun _ _ => rfl⟩

/-- A path is absolute by its first character. -/
theorem isAbsolute_append {p : String} (hp : p ≠ "") (q : String) :
    isAbsolute (p ++ q) = isAbsolute p := by
  have hlist : p.toList ≠ [] := fun h => hp (String.toList_inj.1 h)
  have hslash : ("/" : String).toList = ['/'] := rfl
  rw [isAbsolute, isAbsolute, Text.startsWith, Text.startsWith, Text.stripPrefix, Text.stripPrefix,
    String.toList_append, hslash, Option.isSome_map, Option.isSome_map]
  cases h : p.toList with
  | nil => exact absurd h hlist
  | cons c cs =>
      simp only [List.cons_append, Text.dropPrefix?]
      split
      · rfl
      · rfl

theorem start_join (cwd : FilePath) {base p : String} (hp : isAbsolute p = false) :
    start cwd (join base p) = start cwd base := by
  rw [join, hp, if_neg Bool.false_ne_true]
  by_cases hnil : base = ""
  · subst hnil
    rw [if_pos (Or.inl rfl), String.empty_append, start, hp]
    rfl
  · split
    · rw [start, start, isAbsolute_append hnil]
    · rw [String.append_assoc, start, start, isAbsolute_append hnil]

/-- **The directory of a joined path** is found from the directory of its base. -/
theorem directoryOf_join (isDir : FilePath → Bool) (cwd : FilePath) {base p : String}
    (hp : isAbsolute p = false) :
    directoryOf isDir cwd (join base p) =
      (directoryOf isDir cwd base).bind fun d => enterAll isDir d (components p) := by
  obtain ⟨cs, hcs, henter⟩ := @components_join base p hp
  rw [directoryOf, start_join cwd hp, hcs, enterAll, List.foldlM_append, directoryOf, ← henter]
  rfl

/-! ## The last component -/

/-- What has no separator ends the last component. -/
theorem getLast_splitChars_append {c : Char} {ds : List Char} (hds : c ∉ ds) (cs : List Char) :
    ∃ l, (Text.splitChars c (cs ++ ds)).getLast? = some (l ++ ds) := by
  induction cs with
  | nil =>
      rw [List.nil_append, Text.splitChars_of_not_mem hds]
      exact ⟨[], rfl⟩
  | cons d cs ih =>
      obtain ⟨l, hl⟩ := ih
      rw [List.cons_append, Text.splitChars]
      cases h : Text.splitChars c (cs ++ ds) with
      | nil => exact absurd h (Text.splitChars_ne_nil _ _)
      | cons piece rest =>
          rw [h] at hl
          split
          · exact ⟨l, by rw [List.getLast?_cons_cons, hl]⟩
          · cases rest with
            | nil =>
                obtain rfl : piece = l ++ ds := Option.some.inj hl
                exact ⟨d :: l, rfl⟩
            | cons piece' rest => exact ⟨l, by rw [List.getLast?_cons_cons] at hl ⊢; exact hl⟩

/-- What a path ends with its last component ends with. -/
theorem getLast_components_append {q : String} (hq : '/' ∉ q.toList) (p : String) :
    ∃ l, (components (p ++ q)).getLast? = some (l ++ q) := by
  obtain ⟨l, hl⟩ := getLast_splitChars_append hq p.toList
  refine ⟨String.ofList l, ?_⟩
  rw [components, Text.split, String.toList_append, List.getLast?_map, hl, Option.map_some,
    String.ofList_append, String.ofList_toList]

theorem join_ends_with (base p : String) : ∃ q, join base p = q ++ p := by
  rw [join]
  split
  · exact ⟨"", by rw [String.empty_append]⟩
  · split
    · exact ⟨base, rfl⟩
    · exact ⟨base ++ "/", rfl⟩

/-- A file that is found has the name of the last component. -/
theorem fileIn_getLast {isDir : FilePath → Bool} {dir f : FilePath} {cs : List String}
    (h : fileIn isDir dir cs = some f) : f.getLast? = cs.getLast? := by
  rw [fileIn] at h
  cases hlast : cs.getLast? with
  | none =>
      rw [hlast] at h
      cases h
  | some c =>
      rw [hlast] at h
      dsimp only at h
      split at h
      · cases h
      · obtain ⟨hmap, -⟩ := Option.filter_eq_some_iff.1 h
        obtain ⟨d, -, rfl⟩ := Option.map_eq_some_iff.1 hmap
        rw [List.getLast?_append_cons, List.getLast?_singleton]

/-- **The name of the file is the last component of its path.** -/
theorem fileOf_getLast {isDir : FilePath → Bool} {cwd f : FilePath} {p : String}
    (h : fileOf isDir cwd p = some f) : f.getLast? = (components p).getLast? := by
  rw [fileOf] at h
  split at h
  · cases h
  · exact fileIn_getLast h

theorem isAbsolute_of_not_mem {p : String} (hp : '/' ∉ p.toList) : isAbsolute p = false := by
  rw [isAbsolute, Text.startsWith, Option.isSome_eq_false_iff, Option.isNone_iff_eq_none]
  cases h : Text.stripPrefix "/" p with
  | none => rfl
  | some rest =>
      have hslash : ("/" : String).toList = ['/'] := rfl
      rw [Text.stripPrefix_eq_some h, String.toList_append, hslash] at hp
      exact absurd List.mem_cons_self hp

/-- **A file without a slash in its name lies in the directory that it is joined to.** -/
theorem fileOf_join_plain {isDir : FilePath → Bool} {cwd f : FilePath} {base p : String}
    (hp : '/' ∉ p.toList) (h : fileOf isDir cwd (join base p) = some f) :
    ∃ d, directoryOf isDir cwd base = some d ∧ f = d ++ [p] := by
  have hrelative := isAbsolute_of_not_mem hp
  have hcomponents : components p = [p] := by
    rw [components, Text.split, Text.splitChars_of_not_mem hp, List.map_singleton,
      String.ofList_toList]
  obtain ⟨cs, hcs, henter⟩ := @components_join base p hrelative
  rw [hcomponents] at hcs
  rw [fileOf] at h
  split at h
  · cases h
  · rw [hcs, start_join cwd hrelative, fileIn, List.getLast?_append_cons, List.getLast?_singleton]
      at h
    dsimp only at h
    split at h
    · cases h
    · obtain ⟨hmap, -⟩ := Option.filter_eq_some_iff.1 h
      obtain ⟨d, hd, rfl⟩ := Option.map_eq_some_iff.1 hmap
      rw [List.dropLast_concat, henter] at hd
      exact ⟨d, hd, rfl⟩

end Paac.Paths
