import Paac.Catalog.Resources
import Paac.Library.EventStream
import Paac.Proxy.Chat

set_option autoImplicit false

/-!
# Tool calls as a client reads them

A reply carries tool calls in the `tool_calls` of a message, each of the form `function` or
`custom`, and in its older member `function_call`. A streamed reply is a stream of server-sent
events; the data of each event is a JSON chunk, and the chunks carry the same calls in pieces, which
the client joins by choice, index and form.

This is the client's side, read off the format and not off the proxy. Arguments that are no JSON
stand for themselves, so a call with a text for its arguments is still a call; the input of a custom
tool is free text. An event whose data is no JSON, such as the mark at the end of a stream, carries
no call.

## Main definitions and results

- `replyUses`, `streamUses`: the calls of a whole reply, and of a streamed one.
- `Response.uses`: the calls of a response as its client reads it.
- `streamChunks_write`: chunks that are written as events are the chunks the client reads.
- `checkedUse`: the call that the filter checks in place of an entry.
- `entryUses_function`: client and check read a plain function call as the same request.
-/

namespace Paac

/-- A tool call as the client reads it. -/
structure ToolUse where
  name : String
  arguments : Json

section

variable (readJson : String → Except String Json)

/-- The arguments a text stands for: the JSON it is, or else the text itself. -/
def readArguments (text : String) : Json :=
  match readJson text with
  | .ok args => args
  | .error _ => .str text

/-- A call of a function; arguments that are not a text stand for themselves. -/
def functionUse (f : Json) : Option ToolUse :=
  ((f.get "name").bind Json.asStr).map fun name =>
    ⟨name, match f.get "arguments" with
      | some (.str text) => readArguments readJson text
      | some other => other
      | none => .obj []⟩

/-- A call of a custom tool, whose input is free text. -/
def customUse (c : Json) : Option ToolUse :=
  ((c.get "name").bind Json.asStr).map fun name => ⟨name, (c.get "input").getD (.str "")⟩

/-- The calls in one entry of `tool_calls`. -/
def entryUses (tc : Json) : List ToolUse :=
  ((tc.get "function").bind (functionUse readJson)).toList ++
    ((tc.get "custom").bind customUse).toList

/-! ## Whole replies -/

/-- The entries of `tool_calls`. -/
def messageEntries (msg : Json) : List Json :=
  ((msg.get "tool_calls").bind Json.asArray).getD []

/-- The call in the older member. -/
def legacyUse (msg : Json) : List ToolUse :=
  ((msg.get "function_call").bind (functionUse readJson)).toList

/-- The message of a choice, if it has one. -/
def choiceMessage (choice : Json) : Json := (choice.get "message").getD .null

/-- The choices of a reply. -/
def replyChoices (reply : Json) : List Json := ((reply.get "choices").bind Json.asArray).getD []

/-- The calls of a choice. -/
def choiceUses (choice : Json) : List ToolUse :=
  (messageEntries (choiceMessage choice)).flatMap (entryUses readJson) ++
    legacyUse readJson (choiceMessage choice)

/-- The calls of a reply. -/
def replyUses (reply : Json) : List ToolUse :=
  (replyChoices reply).flatMap (choiceUses readJson)

/-! ## Streamed replies -/

inductive CallForm where
  | function
  | custom
  | legacy
  deriving DecidableEq, Repr

/-- A piece of a call: which choice and which call it belongs to, and what it adds. -/
structure CallPiece where
  choice : String
  index : String
  form : CallForm
  name : String
  text : String
  deriving DecidableEq, Repr

def CallPiece.sameCall (p q : CallPiece) : Bool :=
  p.choice = q.choice && p.index = q.index && p.form = q.form

/-- Join a piece to its call, or begin a new one. -/
def addPiece : List CallPiece → CallPiece → List CallPiece
  | [], p => [p]
  | q :: qs, p =>
      if q.sameCall p then { q with name := q.name ++ p.name, text := q.text ++ p.text } :: qs
      else q :: addPiece qs p

/-- The call put together. -/
def CallPiece.toUse (p : CallPiece) : ToolUse :=
  ⟨p.name, match p.form with
    | .custom => .str p.text
    | _ => readArguments readJson p.text⟩

/-- The text under a key, or nothing. -/
def textAt (v : Json) (key : String) : String := ((v.get key).bind Json.asStr).getD ""

/-- The number under a key as text. -/
def indexAt (v : Json) (key : String) : String := ((v.get key).map Json.toText).getD ""

/-- The piece in a member of a delta, whose text is under `key`. -/
def pieceAt (v : Json) (member key choice index : String) (form : CallForm) : List CallPiece :=
  match v.get member with
  | some f => [⟨choice, index, form, textAt f "name", textAt f key⟩]
  | none => []

/-- The pieces of one choice of a chunk. -/
def choicePieces (choice : Json) : List CallPiece :=
  let delta := (choice.get "delta").getD .null
  let number := indexAt choice "index"
  (messageEntries delta).flatMap (fun tc =>
    pieceAt tc "function" "arguments" number (indexAt tc "index") .function ++
      pieceAt tc "custom" "input" number (indexAt tc "index") .custom) ++
    pieceAt delta "function_call" "arguments" number "" .legacy

/-- The chunks of a stream of server-sent events: the events whose data is JSON. -/
def streamChunks (text : String) : List Json :=
  (EventStream.events text).filterMap fun data => (readJson data).toOption

/-- Chunks written as events reach the client as they are. -/
theorem streamChunks_write {ds : List String} (h : ∀ d ∈ ds, '\r' ∉ d.toList) :
    streamChunks readJson (EventStream.write ds) =
      ds.filterMap fun data => (readJson data).toOption := by
  rw [streamChunks, EventStream.events_write h]

/-- The calls of a streamed reply. -/
def streamUses (text : String) : List ToolUse :=
  (((streamChunks readJson text).flatMap fun chunk =>
    (replyChoices chunk).flatMap choicePieces).foldl addPiece []).map (CallPiece.toUse readJson)

/-- The calls of a response. -/
def Response.uses (r : Response) : List ToolUse :=
  match r.body with
  | .json v => replyUses readJson v
  | .stream text => streamUses readJson text

end

/-! ## What the check reads -/

/-- The call that an entry is checked as. -/
def checkedUse (readJson : String → Except String Json) (tc : Json) : ToolUse :=
  ⟨toolCallName tc, toolCallArgs readJson tc⟩

/-- The entry is a function call with texts for its name and its arguments, and nothing else. -/
def IsFunctionCall (tc : Json) : Prop :=
  (∃ name, tc.pointer ["function", "name"] = some (.str name)) ∧
    (∃ text, tc.pointer ["function", "arguments"] = some (.str text)) ∧ tc.get "custom" = none

/-- A value that is no object counts as no arguments. -/
theorem authzForTool_atom (c : ResourceCatalog) (principal : Principal) (toolName text : String) :
    c.authzForTool principal toolName (.str text) = c.authzForTool principal toolName (.obj []) := by
  have hctx : ResourceCatalog.toolContext toolName (.str text) =
      ResourceCatalog.toolContext toolName (.obj []) := by
    simp [ResourceCatalog.toolContext, flattenJsonArgs, flattenMembers]
  have hid : ∀ m, ResourceCatalog.argResourceId m (.str text) =
      ResourceCatalog.argResourceId m (.obj []) := fun _ => rfl
  have harg : ∀ path, extractNestedArg (.str text) path = extractNestedArg (.obj []) path := by
    intro path
    unfold extractNestedArg
    -- a path has a first part, and neither value has a member
    cases hparts : Text.split '.' (Text.trimStartMatches "$." (Text.trimStartMatches "args." path))
      with
    | nil => exact absurd hparts (Text.split_ne_nil _ _)
    | cons part parts => rfl
  simp only [ResourceCatalog.authzForTool, hctx, hid, harg]

/-- Client and check read a function call as the same request. -/
theorem entryUses_function {readJson : String → Except String Json} {tc : Json}
    (h : IsFunctionCall tc) (c : ResourceCatalog) (principal : Principal) :
    ∀ call ∈ entryUses readJson tc, c.authzForTool principal call.name call.arguments =
      c.authzForTool principal (checkedUse readJson tc).name (checkedUse readJson tc).arguments := by
  obtain ⟨⟨name, hname⟩, ⟨text, htext⟩, hcustom⟩ := h
  -- both readers take the name and the arguments from the function
  have hchecked : checkedUse readJson tc = ⟨name, match readJson text with
      | .ok args => args
      | .error _ => .obj []⟩ := by
    simp only [checkedUse, toolCallName, toolCallArgs, toolCallArgsText, hname, htext]
    rfl
  rw [hchecked]
  obtain ⟨f, hf, hname⟩ := Option.bind_eq_some_iff.1 hname
  obtain ⟨f', hf', htext⟩ := Option.bind_eq_some_iff.1 htext
  obtain rfl := Option.some.inj (hf.symm.trans hf')
  have hname : f.get "name" = some (.str name) := by simpa [Json.pointer] using hname
  have htext : f.get "arguments" = some (.str text) := by simpa [Json.pointer] using htext
  have huses : entryUses readJson tc = [⟨name, readArguments readJson text⟩] := by
    rw [entryUses, hf, hcustom, Option.bind_some, functionUse, hname, htext]
    rfl
  intro call hcall
  rw [huses, List.mem_singleton] at hcall
  subst hcall
  unfold readArguments
  -- arguments that are no JSON add nothing to the call on either side
  cases hread : readJson text with
  | ok args => rfl
  | error e => exact authzForTool_atom c principal name text

end Paac
