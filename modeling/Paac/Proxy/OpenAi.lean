import Paac.Library.Json

set_option autoImplicit false

/-!
# Chat completion requests

The records of the chat format with all their declared fields, and the text of a prompt: the last
message of role user counts, whether it has a text or not, and a content of several parts has the
texts of its parts one after the other.
-/

namespace Paac

structure ToolFunction where
  name : String
  arguments : String
  deriving DecidableEq, Repr

structure ToolCallMsg where
  id : String
  type : String
  function : ToolFunction
  deriving DecidableEq, Repr

structure ChatMessage where
  role : String
  content : Option Json
  toolCalls : Option (List ToolCallMsg)
  name : Option String
  toolCallId : Option String

structure ChatCompletionRequest where
  model : String
  messages : List ChatMessage
  stream : Option Bool
  tools : Option (List Json)

structure RetrieveRequest where
  collection : String
  documentId : Option String
  query : Option String
  topK : Option Nat
  deriving DecidableEq, Repr

/-- The texts of the parts of a content, one after the other. -/
def partsText (parts : List Json) : String :=
  parts.foldl (fun t part => t ++ (((part.get "text").bind Json.asStr).getD "")) ""

/-- The text of a content: a string, or the texts of its parts if they have any. -/
def contentText : Option Json → Option String
  | some (.str s) => some s
  | some (.arr parts) => if (partsText parts).isEmpty then none else some (partsText parts)
  | _ => none

/-- `last_user_text`: the text of the last message of role user, whether it has one or not. -/
def lastUserText (messages : List ChatMessage) : Option String :=
  (messages.reverse.find? fun m => m.role = "user").bind fun m => contentText m.content

end Paac
