import Paac.Catalog.Resources
import Paac.Library.Words

set_option autoImplicit false

/-!
# Arguments of a tool call in its context

Flattening writes the scalars and arrays of the arguments one after the other under keys that join
the member names with underscores, so paths that join to one key overwrite each other, and so do the
mappings of the catalog, which write behind the arguments.

The values that flattening writes, with their paths and in its order, are a list (`argVisits`), and
its effect on the context is to insert them one by one. What is left under a key is therefore the
last visit of that key: a scalar keeps its text exactly when, of what is written later under its
key, the last has that text again. Arrays are written as well, and can overwrite; they are not
scalars, and nothing is promised for them.

## Main results

- `mem_argVisits`, `reaches_of_mem_argVisits`: flattening visits exactly the scalars and arrays that
  a path reaches, by induction on the arguments.
- `flattenJsonArgs_eq`, `get_writeAll`: so what is left under a key is the last visit that writes
  it.
- `context_authzForTool`: the catalog writes behind the arguments.
- `keeps_arguments_iff`: when every scalar keeps its text.
- `nested_argument_blinded`: a nested argument is overwritten.
-/

namespace Paac

/-! ## Values in the arguments -/

/-- The text of a string, a number or a boolean. -/
def Json.scalarText : Json → Option String
  | .str s => some s
  | .num n => some n
  | .bool b => some (if b then "true" else "false")
  | _ => none

/-- The value is reached from the first through the object members of the path. -/
inductive Reaches : Json → List String → Json → Prop where
  | member {ms : List (String × Json)} {k : String} {v : Json} (h : (k, v) ∈ ms) :
      Reaches (.obj ms) [k] v
  | nested {ms : List (String × Json)} {k : String} {v w : Json} {path : List String}
      (h : (k, v) ∈ ms) (hrest : Reaches v path w) : Reaches (.obj ms) (k :: path) w

theorem Reaches.path_ne_nil {v w : Json} {path : List String} (h : Reaches v path w) :
    path ≠ [] := by
  cases h with
  | member _ => exact List.cons_ne_nil _ _
  | nested _ _ => exact List.cons_ne_nil _ _

/-- The text that flattening writes for a value that is no object. -/
def writtenText : Json → String
  | .arr items => Text.join "," (items.map Json.toText)
  | v => v.scalarText.getD ""

/-- The visit of a member that is written under its own key. -/
def ownVisit (k : String) : Json → List (List String × Json)
  | .obj _ => []
  | .null => []
  | v => [([k], v)]

mutual
/-- The values that flattening writes, with their paths and in the order it comes to them. -/
def argVisits : Json → List (List String × Json)
  | .obj ms => memberVisits ms
  | _ => []

/-- The visits among the members of an object. -/
def memberVisits : List (String × Json) → List (List String × Json)
  | [] => []
  | (k, v) :: rest =>
      ownVisit k v ++ (argVisits v).map (fun e => (k :: e.1, e.2)) ++ memberVisits rest
end

/-- The key for a path. -/
def argKey (pre : String) (path : List String) : String := pre ++ Text.join "_" path

/-- The entry that a visit writes. -/
def visitEntry (pre : String) (e : List String × Json) : String × String :=
  (argKey pre e.1, writtenText e.2)

/-- The entries that the mappings of the catalog write for the tool. -/
def mappingEntries (c : ResourceCatalog) (toolName : String) (args : Json) :
    List (String × String) :=
  match c.findTool toolName with
  | some m => m.argMappings.entries.filterMap fun e =>
      (extractNestedArg args e.2).map fun text => (e.1, text)
  | none => []

/-- What the last of the entries under the key writes. -/
def lastUnder (key : String) (entries : List (String × String)) : Option String :=
  lookupEntry key entries.reverse

/-- Every scalar of the arguments is in the context under the key for its path, with its own text. -/
def KeepsArguments (c : ResourceCatalog) (principal : Principal) (toolName : String)
    (args : Json) : Prop :=
  ∀ path v text, Reaches args path v → v.scalarText = some text →
    (c.authzForTool principal toolName args).context.values.get (argKey "arg_" path) = some text

/-- Of the values that are written after a scalar under the key for its path, those of the arguments
and those of the mappings, the last has the text of the scalar. -/
def NoneBlinded (c : ResourceCatalog) (toolName : String) (args : Json) : Prop :=
  ∀ earlier path v later text, argVisits args = earlier ++ (path, v) :: later →
    v.scalarText = some text → ∀ last,
      lastUnder (argKey "arg_" path)
        (later.map (visitEntry "arg_") ++ mappingEntries c toolName args) = some last → last = text

/-! ## Visits -/

theorem eq_of_mem_ownVisit {k : String} {v : Json} {e : List String × Json}
    (h : e ∈ ownVisit k v) : e = ([k], v) := by
  cases v with
  | obj ms => cases h
  | null => cases h
  | bool b => exact List.mem_singleton.1 h
  | num n => exact List.mem_singleton.1 h
  | str s => exact List.mem_singleton.1 h
  | arr items => exact List.mem_singleton.1 h

theorem mem_ownVisit {k text : String} {v : Json} (h : v.scalarText = some text) :
    ([k], v) ∈ ownVisit k v := by
  cases v with
  | bool b => exact List.mem_cons_self
  | num n => exact List.mem_cons_self
  | str s => exact List.mem_cons_self
  | null => cases h
  | arr items => cases h
  | obj ms => cases h

mutual
theorem reaches_of_mem_argVisits {v : Json} {e : List String × Json} (h : e ∈ argVisits v) :
    Reaches v e.1 e.2 := by
  cases v with
  | obj ms => exact reaches_of_mem_memberVisits (fun _ => id) h
  | null => cases h
  | bool b => cases h
  | num n => cases h
  | str s => cases h
  | arr items => cases h

/-- What is visited among some members of an object is reached from the object. -/
theorem reaches_of_mem_memberVisits {ms all : List (String × Json)} (hms : ∀ m ∈ ms, m ∈ all)
    {e : List String × Json} (h : e ∈ memberVisits ms) : Reaches (.obj all) e.1 e.2 := by
  match ms with
  | [] => cases h
  | (k, v) :: rest =>
      have hmem : (k, v) ∈ all := hms _ List.mem_cons_self
      rw [memberVisits] at h
      rcases List.mem_append.1 h with h | h
      · rcases List.mem_append.1 h with h | h
        · rw [eq_of_mem_ownVisit h]
          exact .member hmem
        · obtain ⟨e', he', rfl⟩ := List.mem_map.1 h
          exact .nested hmem (reaches_of_mem_argVisits he')
      · exact reaches_of_mem_memberVisits (fun m hm => hms m (List.mem_cons_of_mem _ hm)) h
end

/-- What is visited for one member is visited for the object. -/
theorem memberVisits_subset {ms : List (String × Json)} {k : String} {v : Json} (h : (k, v) ∈ ms) :
    ownVisit k v ++ (argVisits v).map (fun e => (k :: e.1, e.2)) ⊆ memberVisits ms := by
  induction ms with
  | nil => cases h
  | cons m ms ih =>
      intro e he
      rw [memberVisits, List.mem_append]
      rcases List.mem_cons.1 h with rfl | h
      · exact Or.inl he
      · exact Or.inr (ih h he)

/-- **Every scalar is visited.** -/
theorem mem_argVisits {args v : Json} {path : List String} (h : Reaches args path v) {text : String}
    (htext : v.scalarText = some text) : (path, v) ∈ argVisits args := by
  induction h with
  | member hmem =>
      apply memberVisits_subset hmem
      exact List.mem_append_left _ (mem_ownVisit htext)
  | nested hmem _ ih =>
      apply memberVisits_subset hmem
      exact List.mem_append_right _ (List.mem_map.2 ⟨_, ih htext, rfl⟩)

/-! ## Flattening writes the visits -/

theorem argKey_cons (pre k : String) {path : List String} (h : path ≠ []) :
    argKey (pre ++ k ++ "_") path = argKey pre (k :: path) := by
  cases path with
  | nil => exact absurd rfl h
  | cons k' path => rw [argKey, argKey, Text.join_cons_cons]; simp only [String.append_assoc]

/-- Insert the entries in order. -/
def writeAll (out : IndexMap String) (entries : List (String × String)) : IndexMap String :=
  entries.foldl (fun m e => m.insert e.1 e.2) out

theorem writeAll_append (out : IndexMap String) (es es' : List (String × String)) :
    writeAll out (es ++ es') = writeAll (writeAll out es) es' := List.foldl_append

theorem get_writeAll (out : IndexMap String) (key : String) (es : List (String × String)) :
    (writeAll out es).get key = (lastUnder key es).or (out.get key) := by
  rw [IndexMap.get, writeAll, IndexMap.entries_foldl_insert, lookupEntry_insertEntries]
  rfl

mutual
/-- **Flattening writes the visits in order.** -/
theorem flattenJsonArgs_eq (v : Json) (pre : String) (out : IndexMap String) :
    flattenJsonArgs v pre out = writeAll out ((argVisits v).map (visitEntry pre)) := by
  cases v with
  | obj ms =>
      rw [flattenJsonArgs, argVisits]
      exact flattenMembers_eq ms pre out
  | null => rfl
  | bool b => rfl
  | num n => rfl
  | str s => rfl
  | arr items => rfl

/-- Flattening members writes their visits. -/
theorem flattenMembers_eq (ms : List (String × Json)) (pre : String) (out : IndexMap String) :
    flattenMembers ms pre out = writeAll out ((memberVisits ms).map (visitEntry pre)) := by
  match ms with
  | [] => rfl
  | (k, v) :: rest =>
      have hsingle : ∀ w : Json, visitEntry pre ([k], w) = (pre ++ k, writtenText w) := by
        intro w
        rw [visitEntry, argKey, Text.join_singleton]
      have hnested : (argVisits v).map (visitEntry (pre ++ k ++ "_")) =
          ((argVisits v).map fun e => (k :: e.1, e.2)).map (visitEntry pre) := by
        rw [List.map_map]
        apply List.map_congr_left
        intro e he
        have hne := (reaches_of_mem_argVisits he).path_ne_nil
        rw [visitEntry, argKey_cons pre k hne]
        rfl
      have hflat := flattenJsonArgs_eq v (pre ++ k ++ "_") out
      rw [hnested] at hflat
      rw [memberVisits, List.map_append, writeAll_append, List.map_append, writeAll_append]
      simp only [flattenMembers]
      rw [flattenMembers_eq rest pre]
      apply congrArg (fun out => writeAll out _)
      -- only an object goes one level down
      cases v with
      | null => rfl
      | bool b => simp only [ownVisit, List.map_cons, hsingle]; rfl
      | num n => simp only [ownVisit, List.map_cons, hsingle]; rfl
      | str s => simp only [ownVisit, List.map_cons, hsingle]; rfl
      | arr items => simp only [ownVisit, List.map_cons, hsingle]; rfl
      | obj ms' => exact hflat
end

/-! ## The context -/

/-- Inserting what there is inserts the entries that have a text. -/
theorem foldl_insertOpt (f : String → Option String) (es : List (String × String)) :
    ∀ ctx : IndexMap String, es.foldl (fun ctx e => insertOpt e.1 (f e.2) ctx) ctx =
      writeAll ctx (es.filterMap fun e => (f e.2).map fun text => (e.1, text)) := by
  induction es with
  | nil => exact fun _ => rfl
  | cons e es ih =>
      intro ctx
      rw [List.foldl_cons, ih]
      cases h : f e.2 with
      | none =>
          rw [List.filterMap_cons, h]
          rfl
      | some text =>
          rw [List.filterMap_cons, h]
          rfl

/-- The context of the request for a tool call: the name, the visits and the mappings, in order. -/
theorem context_authzForTool (c : ResourceCatalog) (principal : Principal) (toolName : String)
    (args : Json) :
    (c.authzForTool principal toolName args).context.values =
      writeAll (IndexMap.empty.insert "tool_name" toolName)
        ((argVisits args).map (visitEntry "arg_") ++ mappingEntries c toolName args) := by
  have hflat : ResourceCatalog.toolContext toolName args =
      writeAll (IndexMap.empty.insert "tool_name" toolName)
        ((argVisits args).map (visitEntry "arg_")) := flattenJsonArgs_eq args "arg_" _
  rw [writeAll_append, ← hflat, ResourceCatalog.authzForTool, mappingEntries]
  cases c.findTool toolName with
  | none => rfl
  | some m => exact foldl_insertOpt (extractNestedArg args) m.argMappings.entries _

/-- A visit of the arguments is found under its key unless something is written there later. -/
theorem get_context_visit {c : ResourceCatalog} (principal : Principal) {toolName : String}
    {args v : Json} {path : List String} {earlier later : List (List String × Json)}
    (h : argVisits args = earlier ++ (path, v) :: later) :
    (c.authzForTool principal toolName args).context.values.get (argKey "arg_" path) =
      (lastUnder (argKey "arg_" path)
        (later.map (visitEntry "arg_") ++ mappingEntries c toolName args)).or
          (some (writtenText v)) := by
  rw [context_authzForTool, h, List.map_append, List.append_assoc, writeAll_append, List.map_cons,
    List.cons_append, writeAll, List.foldl_cons]
  show IndexMap.get (writeAll _ _) _ = _
  rw [get_writeAll, visitEntry, IndexMap.get_insert_self]

theorem writtenText_scalar {v : Json} {text : String} (h : v.scalarText = some text) :
    writtenText v = text := by
  cases v with
  | bool b => exact Option.some.inj h
  | num n => exact Option.some.inj h
  | str s => exact Option.some.inj h
  | null => cases h
  | arr items => cases h
  | obj ms => cases h

/-- **When flattening loses nothing.** Every scalar of the arguments keeps its text in the context
exactly when of the values written later under the same key, by the arguments or by the mappings of
the catalog, the last has that text. -/
theorem keeps_arguments_iff (c : ResourceCatalog) (principal : Principal) (toolName : String)
    (args : Json) : KeepsArguments c principal toolName args ↔ NoneBlinded c toolName args := by
  constructor
  · intro hkeeps earlier path v later text hvisits htext last hlast
    have hmem : (path, v) ∈ argVisits args := by
      rw [hvisits]
      exact List.mem_append_right _ List.mem_cons_self
    have hget := hkeeps path v text (reaches_of_mem_argVisits hmem) htext
    rw [get_context_visit principal hvisits, hlast] at hget
    exact Option.some.inj hget
  · intro hnone path v text hreaches htext
    obtain ⟨earlier, later, hvisits⟩ := List.append_of_mem (mem_argVisits hreaches htext)
    rw [get_context_visit principal hvisits, writtenText_scalar htext]
    cases hlast : lastUnder (argKey "arg_" path)
        (later.map (visitEntry "arg_") ++ mappingEntries c toolName args) with
    | none => rfl
    | some last => rw [hnone earlier path v later text hvisits htext last hlast]; rfl

/-! ## A nested argument overwritten -/

namespace SqlQuery

def catalog : ResourceCatalog :=
  ⟨"1", [], [⟨"sql_query", "TOOL_INVOKE", "DB_TABLE", none, .empty, .empty⟩]⟩

def user : Principal := Principal.withRoles "user:a" []

/-- An amount within the query, and another one beside it. -/
def args : Json :=
  .obj [("query", .obj [("amount", .num "50000")]), ("query_amount", .num "1")]

end SqlQuery

/-- The extra argument replaces the nested one in the context. -/
theorem nested_argument_blinded :
    ¬KeepsArguments SqlQuery.catalog SqlQuery.user "sql_query" SqlQuery.args := by
  intro hkeeps
  have hreaches : Reaches SqlQuery.args ["query", "amount"] (.num "50000") :=
    .nested List.mem_cons_self (.member List.mem_cons_self)
  have hget := hkeeps _ _ _ hreaches rfl
  revert hget
  decide +kernel

end Paac
