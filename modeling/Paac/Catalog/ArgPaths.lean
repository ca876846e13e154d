import Paac.Catalog.Arguments

set_option autoImplicit false

/-!
# Reading an argument by its path

A mapping of the catalog reads an argument by a dotted path that starts with `args.` or `$.`. The
reader removes these prefixes as often as they occur, so it also removes the first keys of a path
when they are called `args` or `$`; the last key always stays.

Flattening and the reader are two ways to the same value: flattening writes every scalar under the
key of its path, and the reader follows the path. They are compared on paths of proper keys, which
are not empty and have no dot, since no other path can be written down.

## Main results

- `dropPrefix_join`, `trimStartMatches_join`: what is left of a joined path when a key is stripped,
  once and as often as it stands there.
- `extractNestedArg_join`, `extractNestedArg_args`, `extractNestedArg_dollar`: the path that is read
  in the place of the one written.
- `reaches_of_pointer`: what a pointer finds is what flattening reaches.
- `readers_agree_iff`: the reader behind either prefix returns what flattening writes exactly when
  dropping the leading keys `args` and `$` makes no difference to the text that the path leads to.
- `argument_misread`: a path with a key `args` of its own is misread.
-/

namespace Paac

/-! ## Dotted paths -/

/-- Keys that are not empty and have no dot. -/
def ProperPath (path : List String) : Prop := path ≠ [] ∧ ∀ k ∈ path, k ≠ "" ∧ '.' ∉ k.toList

instance (path : List String) : Decidable (ProperPath path) := inferInstanceAs (Decidable (_ ∧ _))

/-- Drop the key from the front of the path as often as it is there, but never the last key. -/
def dropLeading (key : String) : List String → List String
  | [] => []
  | [k] => [k]
  | k :: k' :: rest => if k = key then dropLeading key (k' :: rest) else k :: k' :: rest

/-- The text that `extract_nested_arg` makes of a value. -/
def Json.valueText : Json → String
  | .str s => s
  | .num n => n
  | .bool b => if b then "true" else "false"
  | other => other.toText

/-- The text of the value that the path leads to. -/
def argAt (args : Json) (path : List String) : Option String :=
  (args.pointer path).map Json.valueText

theorem pointer_eq_foldlM (path : List String) : ∀ args : Json,
    path.foldlM Json.get args = args.pointer path := by
  induction path with
  | nil => exact fun _ => rfl
  | cons k path ih =>
      intro args
      rw [List.foldlM_cons, Json.pointer]
      cases args.get k with
      | none => rfl
      | some v => exact ih v

/-- A key with its dot is in front of a joined path exactly when it is its first key and others
follow. -/
theorem dropPrefix_join {key : String} (hkey : '.' ∉ key.toList) {k : String} {rest : List String}
    (hpath : ∀ x ∈ k :: rest, '.' ∉ x.toList) :
    Text.dropPrefix? (key ++ ".").toList (Text.join "." (k :: rest)).toList =
      if k = key ∧ rest ≠ [] then some (Text.join "." rest).toList else none := by
  have hdot : ("." : String).toList = ['.'] := rfl
  have hk : '.' ∉ k.toList := hpath k List.mem_cons_self
  cases rest with
  | nil =>
      rw [if_neg fun h => h.2 rfl, Text.join_singleton]
      cases h : Text.dropPrefix? (key ++ ".").toList k.toList with
      | none => rfl
      | some cs =>
          have heq := Text.dropPrefix?_eq_some h
          rw [String.toList_append, hdot] at heq
          rw [heq] at hk
          simp at hk
  | cons k' rest =>
      rw [Text.join_cons_cons, String.toList_append, String.toList_append, String.toList_append,
        hdot, List.singleton_append]
      by_cases hsame : k = key
      · subst hsame
        rw [if_pos ⟨rfl, List.cons_ne_nil _ _⟩]
        have hsplit : k.toList ++ '.' :: (Text.join "." (k' :: rest)).toList =
            (k.toList ++ ['.']) ++ (Text.join "." (k' :: rest)).toList := by simp
        rw [hsplit, Text.dropPrefix?_append]
      · rw [if_neg fun h => hsame h.1]
        cases h : Text.dropPrefix? (key.toList ++ ['.'])
            (k.toList ++ '.' :: (Text.join "." (k' :: rest)).toList) with
        | none => rfl
        | some cs =>
            -- both texts have their first dot in the same place
            have heq := Text.dropPrefix?_eq_some h
            rw [List.append_assoc, List.singleton_append] at heq
            have hsplit := Text.splitOnceChars_append hk (Text.join "." (k' :: rest)).toList
            rw [heq, Text.splitOnceChars_append hkey] at hsplit
            have hkeys := congrArg Prod.fst (Option.some.inj hsplit)
            exact absurd (String.toList_inj.1 hkeys.symm) hsame

/-- Removing the key with its dot again and again drops it from the front of the path. -/
theorem dropPrefixes_join {key : String} (hkey : '.' ∉ key.toList) (path : List String)
    (hpath : ∀ x ∈ path, '.' ∉ x.toList) : ∀ n, path.length ≤ n + 1 →
      Text.dropPrefixes (key ++ ".").toList n (Text.join "." path).toList =
        (Text.join "." (dropLeading key path)).toList := by
  -- where the prefix does not match, no number of rounds changes the text
  have hnone : ∀ {cs : List Char}, Text.dropPrefix? (key ++ ".").toList cs = none → ∀ n,
      Text.dropPrefixes (key ++ ".").toList n cs = cs := Text.dropPrefixes_of_none
  induction path using dropLeading.induct key with
  | case1 =>
      intro n _
      apply hnone
      rw [String.toList_append]
      cases key.toList <;> rfl
  | case2 k =>
      intro n _
      apply hnone
      rw [dropPrefix_join hkey hpath, if_neg fun h => h.2 rfl]
  | case3 k' rest ih =>
      intro n hn
      cases n with
      | zero => simp at hn
      | succ n =>
          rw [Text.dropPrefixes, dropPrefix_join hkey hpath, if_pos ⟨rfl, List.cons_ne_nil _ _⟩,
            dropLeading, if_pos rfl]
          apply ih fun x hx => hpath x (List.mem_cons_of_mem _ hx)
          simpa using hn
  | case4 k k' rest hne =>
      intro n _
      rw [dropLeading, if_neg hne]
      apply hnone
      rw [dropPrefix_join hkey hpath, if_neg fun h => hne h.1]

/-- A joined path has a dot between any two keys. -/
theorem length_le_join (path : List String) : path.length ≤ (Text.join "." path).length + 1 := by
  induction path with
  | nil => exact Nat.zero_le _
  | cons k path ih =>
      cases path with
      | nil => simp
      | cons k' path =>
          have hdot : ("." : String).length = 1 := rfl
          rw [Text.join_cons_cons, String.length_append, String.length_append, List.length_cons, hdot]
          omega

/-- Stripping a key in front strips it as often as it begins the path. -/
theorem trimStartMatches_join {key : String} (hkey : '.' ∉ key.toList) {path : List String}
    (hpath : ∀ x ∈ path, '.' ∉ x.toList) :
    Text.trimStartMatches (key ++ ".") (Text.join "." path) =
      Text.join "." (dropLeading key path) := by
  rw [Text.trimStartMatches, dropPrefixes_join hkey path hpath _ (length_le_join path),
    String.ofList_toList]

theorem mem_dropLeading {key x : String} {path : List String} (h : x ∈ dropLeading key path) :
    x ∈ path := by
  induction path using dropLeading.induct key with
  | case1 => exact h
  | case2 k => exact h
  | case3 k' rest ih =>
      rw [dropLeading, if_pos rfl] at h
      exact List.mem_cons_of_mem _ (ih h)
  | case4 k k' rest hne =>
      rw [dropLeading, if_neg hne] at h
      exact h

theorem dropLeading_ne_nil {key : String} {path : List String} (h : path ≠ []) :
    dropLeading key path ≠ [] := by
  induction path using dropLeading.induct key with
  | case1 => exact absurd rfl h
  | case2 k => exact h
  | case3 k' rest ih =>
      rw [dropLeading, if_pos rfl]
      exact ih (List.cons_ne_nil _ _)
  | case4 k k' rest hne =>
      rw [dropLeading, if_neg hne]
      exact h

/-- The key in front of a path is dropped with those behind it. -/
theorem dropLeading_self {key : String} {path : List String} (h : path ≠ []) :
    dropLeading key (key :: path) = dropLeading key path := by
  cases path with
  | nil => exact absurd rfl h
  | cons k path => rw [dropLeading, if_pos rfl]

theorem dropLeading_other {key k : String} (hne : k ≠ key) (path : List String) :
    dropLeading key (k :: path) = k :: path := by
  cases path with
  | nil => rfl
  | cons k' path => rw [dropLeading, if_neg hne]

/-! ## The reader -/

/-- The reader follows the path that is left when the keys `args` and then `$` are dropped. -/
theorem extractNestedArg_join {path : List String} (hne : path ≠ [])
    (hpath : ∀ x ∈ path, '.' ∉ x.toList) (args : Json) :
    extractNestedArg args (Text.join "." path) =
      argAt args (dropLeading "$" (dropLeading "args" path)) := by
  have hargs : ("args." : String) = "args" ++ "." := rfl
  have hdollar : ("$." : String) = "$" ++ "." := rfl
  have hdrop : ∀ x ∈ dropLeading "args" path, '.' ∉ x.toList := fun x hx =>
    hpath x (mem_dropLeading hx)
  -- no name left has a dot, so the joined path splits into its names
  have hsplit : Text.split '.' (Text.join "." (dropLeading "$" (dropLeading "args" path))) =
      dropLeading "$" (dropLeading "args" path) := by
    have hfree : ∀ x ∈ dropLeading "$" (dropLeading "args" path), '.' ∉ x.toList := fun x hx =>
      hdrop x (mem_dropLeading hx)
    have hsome := @dropLeading_ne_nil "$" _ (@dropLeading_ne_nil "args" _ hne)
    generalize dropLeading "$" (dropLeading "args" path) = left at hfree hsome
    cases left with
    | nil => exact absurd rfl hsome
    | cons l ls =>
        rw [Text.split, @Text.splitChars_join '.' "." [] rfl List.not_mem_nil ls l hfree]
        simp [Function.comp_def]
  rw [extractNestedArg, hargs, hdollar, trimStartMatches_join (by decide) hpath,
    trimStartMatches_join (by decide) hdrop, hsplit, pointer_eq_foldlM]
  rfl

theorem join_cons {k : String} {path : List String} (h : path ≠ []) :
    Text.join "." (k :: path) = k ++ "." ++ Text.join "." path := by
  cases path with
  | nil => exact absurd rfl h
  | cons k' path => rw [Text.join_cons_cons, String.append_assoc]

/-- Behind `args.` the keys `args` and then `$` are dropped. -/
theorem extractNestedArg_args {path : List String} (hpath : ProperPath path) (args : Json) :
    extractNestedArg args ("args." ++ Text.join "." path) =
      argAt args (dropLeading "$" (dropLeading "args" path)) := by
  have hkeys : ∀ x ∈ "args" :: path, '.' ∉ x.toList :=
    List.forall_mem_cons.2 ⟨by decide, fun x hx => (hpath.2 x hx).2⟩
  have hjoin : "args." ++ Text.join "." path = Text.join "." ("args" :: path) := by
    rw [join_cons hpath.1]
    rfl
  rw [hjoin, extractNestedArg_join (List.cons_ne_nil _ _) hkeys, dropLeading_self hpath.1]

/-- Behind `$.` the key `$` is dropped. -/
theorem extractNestedArg_dollar {path : List String} (hpath : ProperPath path) (args : Json) :
    extractNestedArg args ("$." ++ Text.join "." path) = argAt args (dropLeading "$" path) := by
  have hkeys : ∀ x ∈ "$" :: path, '.' ∉ x.toList :=
    List.forall_mem_cons.2 ⟨by decide, fun x hx => (hpath.2 x hx).2⟩
  have hjoin : "$." ++ Text.join "." path = Text.join "." ("$" :: path) := by
    rw [join_cons hpath.1]
    rfl
  rw [hjoin, extractNestedArg_join (List.cons_ne_nil _ _) hkeys,
    dropLeading_other (by decide), dropLeading_self hpath.1]

/-! ## The two readers -/

/-- Where the path leads to a scalar, flattening writes its text, and the reader returns the same text
behind either prefix. -/
def ReadersAgree (args : Json) (path : List String) : Prop :=
  ∀ v text, args.pointer path = some v → v.scalarText = some text →
    (argKey "arg_" path, text) ∈ (argVisits args).map (visitEntry "arg_") ∧
      extractNestedArg args ("args." ++ Text.join "." path) = some text ∧
      extractNestedArg args ("$." ++ Text.join "." path) = some text

/-- Where the path leads to a scalar, the paths without the keys that the reader drops lead to values
with the same text. -/
def ShortcutsAgree (args : Json) (path : List String) : Prop :=
  ∀ v text, args.pointer path = some v → v.scalarText = some text →
    argAt args (dropLeading "$" (dropLeading "args" path)) = some text ∧
      argAt args (dropLeading "$" path) = some text

/-- A value at a path is reached along it. -/
theorem reaches_of_pointer {path : List String} (hne : path ≠ []) : ∀ {args v : Json},
    args.pointer path = some v → Reaches args path v := by
  induction path with
  | nil => exact absurd rfl hne
  | cons k path ih =>
      intro args v h
      obtain ⟨w, hget, hrest⟩ := Option.bind_eq_some_iff.1 h
      cases args with
      | obj ms =>
          have hmem : (k, w) ∈ ms := mem_of_lookupEntry hget
          cases path with
          | nil =>
              obtain rfl := Option.some.inj hrest
              exact .member hmem
          | cons k' path => exact .nested hmem (ih (List.cons_ne_nil _ _) hrest)
      | null => cases hget
      | bool b => cases hget
      | num n => cases hget
      | str s => cases hget
      | arr items => cases hget

/-- **When the two readers agree.** On a path of proper keys the reader behind either prefix returns
what flattening writes exactly when dropping the leading keys `args` and `$` makes no difference to
the text that the path leads to. -/
theorem readers_agree_iff (args : Json) (path : List String) (hpath : ProperPath path) :
    ReadersAgree args path ↔ ShortcutsAgree args path := by
  rw [ReadersAgree, ShortcutsAgree]
  constructor
  · intro h v text hv htext
    obtain ⟨-, hargs, hdollar⟩ := h v text hv htext
    rw [extractNestedArg_args hpath] at hargs
    rw [extractNestedArg_dollar hpath] at hdollar
    exact ⟨hargs, hdollar⟩
  · intro h v text hv htext
    obtain ⟨hargs, hdollar⟩ := h v text hv htext
    refine ⟨?_, ?_, ?_⟩
    · have hvisited := mem_argVisits (reaches_of_pointer hpath.1 hv) htext
      have hentry : visitEntry "arg_" (path, v) = (argKey "arg_" path, text) := by
        rw [visitEntry, writtenText_scalar htext]
      rw [← hentry]
      exact List.mem_map_of_mem hvisited
    · rw [extractNestedArg_args hpath, hargs]
    · rw [extractNestedArg_dollar hpath, hdollar]

/-- The amount within the query is read by its path. -/
theorem readers_agree_amount : ReadersAgree SqlQuery.args ["query", "amount"] := by
  apply (readers_agree_iff SqlQuery.args ["query", "amount"] (by decide +kernel)).2
  intro v text hv htext
  obtain rfl : Json.num "50000" = v := Option.some.inj hv
  obtain rfl : "50000" = text := Option.some.inj htext
  decide +kernel

/-- An amount within an argument called `args`, and another one beside it. -/
def argsWithin : Json := .obj [("args", .obj [("amount", .num "5")]), ("amount", .num "9")]

/-- The path to the amount within reads the one beside it. -/
theorem argument_misread : ¬ReadersAgree argsWithin ["args", "amount"] := by
  intro h
  obtain ⟨-, hargs, -⟩ := h (.num "5") "5" rfl rfl
  revert hargs
  decide +kernel

end Paac
