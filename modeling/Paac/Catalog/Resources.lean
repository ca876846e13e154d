import Paac.Core.Request
import Paac.Library.Json

set_option autoImplicit false

/-!
# The resource catalog

Catalogued resources and tool mappings, the lookups among them, and the requests built for a tool
call and for a retrieval. The arguments of a tool call are flattened into the context of its
request: a recursion over the JSON value that is passed the map built so far, with one function for
values and one for the members of an object.

A mapping gives a tool its action and the kind of its resource, and may read the resource id from an
argument. A tool that the catalog does not list gets a kind of its own. Validation checks entry by
entry, and the ids of the resources seen so far are its state.

## Main results

- `extends_flattenJsonArgs`: flattening adds keys with its prefix and changes no other, however deep
  the value is.
- `validateResource_run`: what one step of validation leaves.
- `nodup_of_validateCatalog`: the resource ids of a valid catalog are distinct.
- `findResource_id`: what a lookup by id finds.
-/

namespace Paac

/-! ## Entries -/

/-- The errors of the catalog that its validation raises. -/
inductive CatalogError where
  | validate (msg : String)
  deriving DecidableEq, Repr

/-- The `Display` text. -/
def CatalogError.toText : CatalogError → String
  | .validate msg => "catalog validate: " ++ msg

structure CatalogResource where
  id : String
  kind : String
  name : String
  department : Option String
  sensitivity : Option String
  attrs : IndexMap String
  deriving DecidableEq

structure ToolMapping where
  toolName : String
  action : String
  resourceKind : String
  resourceIdArg : Option String
  defaultAttrs : IndexMap String
  argMappings : IndexMap String
  deriving DecidableEq

structure ResourceCatalog where
  version : String
  resources : List CatalogResource
  tools : List ToolMapping
  deriving DecidableEq

/-- Insert the value if there is one. -/
def insertOpt (k : String) (v : Option String) (m : IndexMap String) : IndexMap String :=
  match v with
  | some v => m.insert k v
  | none => m

/-- Department and sensitivity of the entry as attributes. -/
def CatalogResource.insertLabels (r : CatalogResource) (attrs : IndexMap String) :
    IndexMap String :=
  insertOpt "sensitivity" r.sensitivity (insertOpt "department" r.department attrs)

/-- All attributes of the entry. -/
def CatalogResource.insertAttrs (r : CatalogResource) (attrs : IndexMap String) : IndexMap String :=
  r.attrs.entries.foldl (fun m e => m.insert e.1 e.2) (r.insertLabels attrs)

/-! ## Arguments of a tool call -/

mutual
/-- `flatten_json_args`: the members of an object become entries, each under its key path. -/
def flattenJsonArgs (val : Json) (pre : String) (out : IndexMap String) : IndexMap String :=
  match val with
  | .obj map => flattenMembers map pre out
  | _ => out

/-- The loop of `flatten_json_args` over the members. -/
def flattenMembers (map : List (String × Json)) (pre : String) (out : IndexMap String) :
    IndexMap String :=
  match map with
  | [] => out
  | (k, v) :: rest =>
      let out := match v with
        | .str s => out.insert (pre ++ k) s
        | .num n => out.insert (pre ++ k) n
        | .bool b => out.insert (pre ++ k) (if b then "true" else "false")
        | .obj _ => flattenJsonArgs v (pre ++ k ++ "_") out
        -- an array is one value, and its items are not visited
        | .arr items => out.insert (pre ++ k) (Text.join "," (items.map Json.toText))
        | .null => out
      flattenMembers rest pre out
end

/-- The keys that are in `out` or continue `pre`. -/
def Extends (pre : String) (out m : IndexMap String) : Prop :=
  ∀ k ∈ m.keys, k ∈ out.keys ∨ ∃ path, k = pre ++ path

theorem Extends.refl (pre : String) (out : IndexMap String) : Extends pre out out :=
  fun _ hk => Or.inl hk

theorem Extends.trans {pre : String} {m₁ m₂ m₃ : IndexMap String} (h₁ : Extends pre m₁ m₂)
    (h₂ : Extends pre m₂ m₃) : Extends pre m₁ m₃ := by
  intro k hk
  rcases h₂ k hk with hk | hk
  · exact h₁ k hk
  · exact Or.inr hk

theorem Extends.insert (pre k v : String) (out : IndexMap String) :
    Extends pre out (out.insert (pre ++ k) v) := by
  intro k' hk'
  rcases (IndexMap.mem_keys_insert out _ _ v).1 hk' with rfl | hk'
  · exact Or.inr ⟨k, rfl⟩
  · exact Or.inl hk'

/-- A longer prefix is a prefix. -/
theorem Extends.weaken {pre pre' more : String} {out m : IndexMap String} (hpre : pre' = pre ++ more)
    (h : Extends pre' out m) : Extends pre out m := by
  intro k hk
  rcases h k hk with hk | ⟨path, rfl⟩
  · exact Or.inl hk
  · exact Or.inr ⟨more ++ path, by rw [hpre, String.append_assoc]⟩

mutual
/-- **Flattening adds keys under its prefix only**, however deep the value is. -/
theorem extends_flattenJsonArgs (val : Json) (pre : String) (out : IndexMap String) :
    Extends pre out (flattenJsonArgs val pre out) := by
  cases val with
  | obj map =>
      rw [flattenJsonArgs]
      exact extends_flattenMembers map pre out
  | null => exact Extends.refl pre out
  | bool b => exact Extends.refl pre out
  | num n => exact Extends.refl pre out
  | str s => exact Extends.refl pre out
  | arr items => exact Extends.refl pre out

/-- Flattening members adds keys with the prefix only, by induction on the members. -/
theorem extends_flattenMembers (map : List (String × Json)) (pre : String)
    (out : IndexMap String) : Extends pre out (flattenMembers map pre out) := by
  match map with
  | [] => exact Extends.refl pre out
  | (k, v) :: rest =>
      simp only [flattenMembers]
      refine Extends.trans ?_ (extends_flattenMembers rest pre _)
      cases v with
      | str s => exact Extends.insert pre k s out
      | num n => exact Extends.insert pre k n out
      | bool b => exact Extends.insert pre k _ out
      | arr items => exact Extends.insert pre k _ out
      | null => exact Extends.refl pre out
      | obj map' =>
          exact Extends.weaken String.append_assoc
            (extends_flattenJsonArgs (.obj map') (pre ++ k ++ "_") out)
end

/-- `extract_nested_arg`: the text of the value at a dotted path. -/
def extractNestedArg (val : Json) (path : String) : Option String :=
  let parts := Text.split '.' (Text.trimStartMatches "$." (Text.trimStartMatches "args." path))
  (parts.foldlM Json.get val).map fun current =>
    match current with
    | .str s => s
    | .num n => n
    | .bool b => if b then "true" else "false"
    | other => other.toText

/-! ## Requests -/

namespace ResourceCatalog

/-- `find_resource`: the first entry that has the text as its id or as its kind. -/
def findResource (c : ResourceCatalog) (idOrKind : String) : Option CatalogResource :=
  c.resources.find? fun r => r.id = idOrKind || r.kind = idOrKind

/-- `find_tool`. -/
def findTool (c : ResourceCatalog) (name : String) : Option ToolMapping :=
  c.tools.find? fun t => t.toolName = name

/-- The context entries for a tool call before the mapping adds its own. -/
def toolContext (toolName : String) (args : Json) : IndexMap String :=
  flattenJsonArgs args "arg_" (IndexMap.empty.insert "tool_name" toolName)

/-- The request for a tool call, from its action, resource and context. -/
def toolRequest (principal : Principal) (action : String) (resource : Resource)
    (ctx : IndexMap String) : AuthzRequest :=
  { principal
    action := ⟨action⟩
    resource
    subject := none
    context := ⟨ctx⟩
    relationships := []
    actingAs := some "agent:paac-proxy"
    onBehalfOf := none }

/-- The resource id that a mapping reads from the arguments. -/
def argResourceId (m : ToolMapping) (args : Json) : Option String :=
  (m.resourceIdArg.bind args.get).bind Json.asStr

/-- `authz_for_tool`. -/
def authzForTool (c : ResourceCatalog) (principal : Principal) (toolName : String) (args : Json) :
    AuthzRequest :=
  match c.findTool toolName with
  | some m =>
      let resourceId := argResourceId m args
      let attrs := match resourceId.bind c.findResource with
        | some res => res.insertAttrs m.defaultAttrs
        | none => m.defaultAttrs
      let ctx := m.argMappings.entries.foldl
        (fun ctx e => insertOpt e.1 (extractNestedArg args e.2) ctx) (toolContext toolName args)
      toolRequest principal m.action ⟨m.resourceKind, resourceId, attrs⟩ ctx
  -- unknown tool: the resource that no policy should allow
  | none =>
      toolRequest principal "TOOL_INVOKE" ⟨"TOOL_UNKNOWN", some toolName, .empty⟩
        (toolContext toolName args)

/-- `authz_for_retrieve`. -/
def authzForRetrieve (c : ResourceCatalog) (principal : Principal) (collection : String)
    (documentId : Option String) : AuthzRequest :=
  let found := c.findResource collection
  let attrs := match found with
    | some res => res.insertAttrs .empty
    | none => .empty
  -- a collection that the catalog does not list has this kind
  let kind := match found with
    | some res => res.kind
    | none => "VECTOR_COLLECTION"
  { principal
    action := ⟨"READ"⟩
    resource := ⟨kind, some (documentId.getD collection), attrs⟩
    subject := none
    context := ⟨IndexMap.empty.insert "collection" collection⟩
    relationships := []
    actingAs := some "agent:paac-proxy"
    onBehalfOf := none }

end ResourceCatalog

/-! ## Validation -/

/-- The string is empty but for white space. -/
def isBlank (s : String) : Bool := (Text.trim s).isEmpty

/-- One resource against the ids seen before it. -/
def validateResource (ids : List String) (r : CatalogResource) :
    Except CatalogError (List String) :=
  if isBlank r.id || isBlank r.kind then .error (.validate "resource id and kind are required")
  else if ids.contains r.id then .error (.validate ("duplicate resource id " ++ r.id))
  else .ok (r.id :: ids)

/-- One tool mapping. -/
def validateTool (t : ToolMapping) : Except CatalogError Unit :=
  if isBlank t.toolName || isBlank t.resourceKind then
    .error (.validate "tool_name and resource_kind are required")
  else if isBlank t.action then .error (.validate "tool action is required")
  else .ok ()

/-- `validate_catalog`. -/
def validateCatalog (c : ResourceCatalog) : Except CatalogError Unit :=
  if c.resources.isEmpty && c.tools.isEmpty then
    .error (.validate "catalog has no resources or tools")
  else do
    let _ ← c.resources.foldlM validateResource []
    c.tools.forM validateTool

/-- A run of the resource check accepts ids that are new and distinct. -/
theorem validateResource_run {rs : List CatalogResource} :
    ∀ {seen seen' : List String}, rs.foldlM validateResource seen = .ok seen' →
      (rs.map CatalogResource.id).Nodup ∧ ∀ r ∈ rs, r.id ∉ seen := by
  induction rs with
  | nil => exact fun _ => ⟨List.nodup_nil, fun r hr => absurd hr List.not_mem_nil⟩
  | cons r rs ih =>
      intro seen seen' h
      obtain ⟨seen₁, h₁, h⟩ := bind_eq_ok.1 h
      obtain ⟨hnodup, hnew⟩ := ih h
      unfold validateResource at h₁
      -- a blank or a repeated id is an error
      split at h₁
      · cases h₁
      · split at h₁
        · cases h₁
        · rename_i hseen
          rw [List.contains_iff_mem] at hseen
          obtain rfl := Except.ok.inj h₁
          constructor
          · rw [List.map_cons, List.nodup_cons]
            refine ⟨fun hmem => ?_, hnodup⟩
            obtain ⟨r', hr', hid⟩ := List.mem_map.1 hmem
            exact hnew r' hr' (hid ▸ List.mem_cons_self)
          · intro r' hr'
            rcases List.mem_cons.1 hr' with rfl | hr'
            · exact hseen
            · exact fun hmem => hnew r' hr' (List.mem_cons_of_mem _ hmem)

/-- **A validated catalog lists every id once.** -/
theorem nodup_of_validateCatalog {c : ResourceCatalog} (h : validateCatalog c = .ok ()) :
    (c.resources.map CatalogResource.id).Nodup := by
  unfold validateCatalog at h
  split at h
  · cases h
  · obtain ⟨ids, hrun, -⟩ := bind_eq_ok.1 h
    exact (validateResource_run hrun).1

/-- The entry found under an id is the one listed with it, when no entry before it has the id as its
kind. -/
theorem findResource_id {c : ResourceCatalog} (hvalid : validateCatalog c = .ok ())
    {before after : List CatalogResource} {r : CatalogResource}
    (hr : c.resources = before ++ r :: after) (hkind : ∀ r' ∈ before, r'.kind ≠ r.id) :
    c.findResource r.id = some r := by
  have hnodup := nodup_of_validateCatalog hvalid
  rw [hr, List.map_append, List.map_cons, List.nodup_append] at hnodup
  have hbefore : before.find? (fun r' => r'.id = r.id || r'.kind = r.id) = none := by
    rw [List.find?_eq_none]
    intro r' hr' hfound
    rw [Bool.or_eq_true, decide_eq_true_eq, decide_eq_true_eq] at hfound
    rcases hfound with hid | hid
    · exact hnodup.2.2 _ (List.mem_map_of_mem hr') _ List.mem_cons_self hid
    · exact hkind r' hr' hid
  rw [ResourceCatalog.findResource, hr, List.find?_append, hbefore, Option.none_or,
    List.find?_cons_of_pos (by simp)]

end Paac
