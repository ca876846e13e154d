import Paac.Library.IndexMap

set_option autoImplicit false

/-!
# JSON values

JSON values with objects in member order, the accessors of `serde_json::Value`, and the compact
printer behind its `Display`. A number is kept as the text it prints as; what reading changes about
a number is the subject of `JsonMeaning.lean`.

The accessors answer with an option, and none for a value of another kind. The printer puts nothing
between lexemes, escapes quotes, backslashes and control characters, and leaves everything else as
it is. It is structural in the value, with one function each for the items of an array and for the
members of an object, so that the reader's round trip is an induction on the value.
-/

namespace Paac

/-- A JSON value; the members of an object are listed in order. -/
inductive Json where
  | null
  | bool (b : Bool)
  | num (text : String)
  | str (s : String)
  | arr (items : List Json)
  | obj (members : List (String × Json))
  deriving Repr, Inhabited

namespace Json

/-- `Value::get` with an object key. -/
def get (j : Json) (key : String) : Option Json :=
  match j with
  | .obj ms => lookupEntry key ms
  | _ => none

/-- `Value::as_str`. -/
def asStr : Json → Option String
  | .str s => some s
  | _ => none

/-- `Value::as_array`. -/
def asArray : Json → Option (List Json)
  | .arr items => some items
  | _ => none

/-- `Value::pointer` along object keys. -/
def pointer (j : Json) : List String → Option Json
  | [] => some j
  | k :: ks => (j.get k).bind fun v => v.pointer ks

/-! ## Printing -/

/-- The lower-case hexadecimal digit of a number below 16. -/
def hexDigit (n : Nat) : Char := if n < 10 then Char.ofNat (48 + n) else Char.ofNat (87 + n)

/-- One character inside a printed string. -/
def escapeChar (c : Char) : List Char :=
  if c = '"' then ['\\', '"']
  else if c = '\\' then ['\\', '\\']
  else if c = '\n' then ['\\', 'n']
  else if c = '\r' then ['\\', 'r']
  else if c = '\t' then ['\\', 't']
  else if c.toNat = 8 then ['\\', 'b']
  else if c.toNat = 12 then ['\\', 'f']
  else if c.toNat < 32 then
    ['\\', 'u', '0', '0', hexDigit (c.toNat / 16), hexDigit (c.toNat % 16)]
  else [c]

/-- A printed string with its quotes. -/
def quote (s : String) : String :=
  "\"" ++ String.ofList (s.toList.flatMap escapeChar) ++ "\""

mutual
/-- The compact text of a value (`Value::to_string`). -/
def toText : Json → String
  | .null => "null"
  | .bool b => if b then "true" else "false"
  | .num text => text
  | .str s => quote s
  | .arr items => "[" ++ Text.join "," (itemTexts items) ++ "]"
  | .obj ms => "\x7b" ++ Text.join "," (memberTexts ms) ++ "\x7d"

/-- The texts of the items of an array. -/
def itemTexts : List Json → List String
  | [] => []
  | v :: vs => v.toText :: itemTexts vs

/-- The texts of the members of an object. -/
def memberTexts : List (String × Json) → List String
  | [] => []
  | (k, v) :: ms => (quote k ++ ":" ++ v.toText) :: memberTexts ms
end

end Json

end Paac
