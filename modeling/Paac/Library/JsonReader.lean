import Paac.Library.Json

set_option autoImplicit false

/-!
# A one-pass JSON reader

RFC 8259 texts are read by a pushdown machine that consumes one character per step. Its state is
the lexeme under construction, the position inside the innermost container, and the positions
that wait in the enclosing containers. A text is a JSON value exactly when the machine ends with
that value at the outermost level (`parse`). A repeated key of an object replaces the earlier
value. A raw control character inside a string is rejected, and so is an escaped surrogate
without its partner.

Reading is a left fold, so what a prefix of a text does to the machine is a state of its own:
`readAll_append` splits a run at any place, and the results about spliced texts start there.

The machine has one function for each kind of thing that can happen between two characters: a value
arrives (`acceptValue`), a string arrives (`acceptString`), a container is closed
(`closeContainer`), a bracket, a colon or a comma is read (`acceptPunctuation`), a word or a number
ends (`endScalar`). `read` only decides which of them it is, by the lexeme under construction. The
grammar of numbers is a function on the characters of a finished lexeme (`isNumber`), so no state of
the machine is inside a number's parts.
-/

namespace Paac

namespace Json

/-! ## States -/

/-- A place in a value under construction that waits for a value. -/
inductive Hole where
  | top
  | member (ms : List (String × Json)) (key : String)
  | item (vs : List Json)

/-- Where the machine stands inside the innermost container. -/
inductive Focus where
  /-- A value must follow. -/
  | value (h : Hole)
  /-- After `{`: a key, or `}`. -/
  | firstKey
  /-- After `,` in an object: a key. -/
  | key (ms : List (String × Json))
  /-- After a key: `:`. -/
  | colon (ms : List (String × Json)) (k : String)
  /-- After a member: `,` or `}`. -/
  | afterMember (ms : List (String × Json))
  /-- After `[`: a value, or `]`. -/
  | firstItem
  /-- After an item: `,` or `]`. -/
  | afterItem (vs : List Json)
  /-- The outermost value is complete. -/
  | done (v : Json)

/-- The lexeme under construction. -/
inductive Lexeme where
  /-- Between two lexemes. -/
  | gap
  /-- Inside a string. -/
  | str (acc : List Char)
  /-- After a backslash inside a string. -/
  | esc (acc : List Char)
  /-- Inside `\u`: `left` digits to come after the value `code` so far; `high` is a first
  surrogate that waits for its partner. -/
  | hex (acc : List Char) (high : Option Nat) (left code : Nat)
  /-- After a first surrogate: the backslash of its partner. -/
  | low (acc : List Char) (high : Nat)
  /-- After that backslash: its `u`. -/
  | lowU (acc : List Char) (high : Nat)
  /-- Inside `true`, `false` or `null`. -/
  | word (acc : List Char)
  /-- Inside a number. -/
  | num (acc : List Char)

/-- Machine state. -/
structure Reader where
  lexeme : Lexeme
  focus : Focus
  stack : List Hole

/-- The state before the first character. -/
def Reader.init : Reader := ⟨.gap, .value .top, []⟩

/-! ## Steps -/

/-- Put a complete value into a hole. -/
def Hole.fill : Hole → Json → Focus
  | .top, v => .done v
  | .member ms k, v => .afterMember (insertEntry k v ms)
  | .item vs, v => .afterItem (vs ++ [v])

/-- The hole a value may go into at a focus, if any. -/
def Focus.hole : Focus → Option Hole
  | .value h => some h
  | .firstItem => some (.item [])
  | _ => none

/-- A scalar value arrives. -/
def acceptValue (v : Json) (f : Focus) (st : List Hole) : Option Reader :=
  f.hole.map fun h => ⟨.gap, h.fill v, st⟩

/-- A string arrives: a key where a key is due, a value elsewhere. -/
def acceptString (s : String) (f : Focus) (st : List Hole) : Option Reader :=
  match f with
  | .firstKey => some ⟨.gap, .colon [] s, st⟩
  | .key ms => some ⟨.gap, .colon ms s, st⟩
  | f => acceptValue (.str s) f st

/-- A container is complete and becomes a value of the enclosing one. -/
def closeContainer (v : Json) : List Hole → Option Reader
  | [] => none
  | h :: st => some ⟨.gap, h.fill v, st⟩

/-- The brackets, the colon and the comma. -/
def acceptPunctuation (c : Char) (f : Focus) (st : List Hole) : Option Reader :=
  match c, f with
  | '{', f => f.hole.map fun h => ⟨.gap, .firstKey, h :: st⟩
  | '[', f => f.hole.map fun h => ⟨.gap, .firstItem, h :: st⟩
  | '}', .firstKey => closeContainer (.obj []) st
  | '}', .afterMember ms => closeContainer (.obj ms) st
  | ']', .firstItem => closeContainer (.arr []) st
  | ']', .afterItem vs => closeContainer (.arr vs) st
  | ':', .colon ms k => some ⟨.gap, .value (.member ms k), st⟩
  | ',', .afterMember ms => some ⟨.gap, .key ms, st⟩
  | ',', .afterItem vs => some ⟨.gap, .value (.item vs), st⟩
  | _, _ => none

/-- The literal a word denotes. -/
def literal? (w : List Char) : Option Json :=
  if w = ['t', 'r', 'u', 'e'] then some (.bool true)
  else if w = ['f', 'a', 'l', 's', 'e'] then some (.bool false)
  else if w = ['n', 'u', 'l', 'l'] then some .null
  else none

/-- The remaining digits of a number part, and whether there was one at all. -/
def skipDigits : List Char → Bool × List Char
  | [] => (false, [])
  | c :: cs => if c.isDigit then (true, (skipDigits cs).2) else (false, c :: cs)

/-- The exponent of a number, or nothing. -/
def isExponent : List Char → Bool
  | [] => true
  | c :: cs =>
      if c = 'e' ∨ c = 'E' then
        let digits := match cs with
          | '+' :: ds => ds
          | '-' :: ds => ds
          | ds => ds
        (skipDigits digits).1 && (skipDigits digits).2.isEmpty
      else false

/-- The fraction and exponent of a number, or nothing. -/
def isFraction : List Char → Bool
  | '.' :: cs => (skipDigits cs).1 && isExponent (skipDigits cs).2
  | cs => isExponent cs

/-- The number grammar of RFC 8259. -/
def isNumber (cs : List Char) : Bool :=
  let digits := match cs with
    | '-' :: ds => ds
    | ds => ds
  match digits with
  | '0' :: rest => isFraction rest
  | c :: rest => c.isDigit && isFraction (skipDigits rest).2
  | [] => false

/-- Complete a word or a number that the next character does not continue. -/
def endScalar (r : Reader) : Option Reader :=
  match r.lexeme with
  | .word acc => (literal? acc).bind fun v => acceptValue v r.focus r.stack
  | .num acc =>
      if isNumber acc then acceptValue (.num (String.ofList acc)) r.focus r.stack else none
  | _ => some r

/-- The whitespace of RFC 8259. -/
def isSpace (c : Char) : Bool := c = ' ' || c = '\t' || c = '\n' || c = '\r'

/-- The characters of numbers. -/
def isNumberChar (c : Char) : Bool := c.isDigit || c = '+' || c = '-' || c = '.' || c = 'e' || c = 'E'

/-- A character read between two lexemes. -/
def stepGap (c : Char) (f : Focus) (st : List Hole) : Option Reader :=
  if isSpace c then some ⟨.gap, f, st⟩
  else if c = '"' then some ⟨.str [], f, st⟩
  else if c.isDigit || c = '-' then some ⟨.num [c], f, st⟩
  else if c.isAlpha then some ⟨.word [c], f, st⟩
  else acceptPunctuation c f st

/-- The value of a hexadecimal digit. -/
def hexValue (c : Char) : Option Nat :=
  if c.isDigit then some (c.toNat - 48)
  else if 'a' ≤ c ∧ c ≤ 'f' then some (c.toNat - 87)
  else if 'A' ≤ c ∧ c ≤ 'F' then some (c.toNat - 55)
  else none

/-- The lexeme after the last digit of a `\u` escape. -/
def endHex (acc : List Char) (high : Option Nat) (code : Nat) : Option Lexeme :=
  match high with
  | none =>
      if 0xD800 ≤ code ∧ code < 0xDC00 then some (.low acc code)
      else if 0xDC00 ≤ code ∧ code < 0xE000 then none
      else some (.str (acc ++ [Char.ofNat code]))
  | some h =>
      if 0xDC00 ≤ code ∧ code < 0xE000 then
        some (.str (acc ++ [Char.ofNat (0x10000 + (h - 0xD800) * 0x400 + (code - 0xDC00))]))
      else none

/-- The character a one-letter escape denotes. -/
def simpleEscape (c : Char) : Option Char :=
  if c = '"' ∨ c = '\\' ∨ c = '/' then some c
  else if c = 'b' then some (Char.ofNat 8)
  else if c = 'f' then some (Char.ofNat 12)
  else if c = 'n' then some '\n'
  else if c = 'r' then some '\r'
  else if c = 't' then some '\t'
  else none

/-- Read one character. -/
def read (r : Reader) (c : Char) : Option Reader :=
  match r.lexeme with
  | .gap => stepGap c r.focus r.stack
  | .str acc =>
      if c = '"' then acceptString (String.ofList acc) r.focus r.stack
      else if c = '\\' then some { r with lexeme := .esc acc }
      else if Text.isControl c then none
      else some { r with lexeme := .str (acc ++ [c]) }
  | .esc acc =>
      if c = 'u' then some { r with lexeme := .hex acc none 3 0 }
      else (simpleEscape c).map fun d => { r with lexeme := .str (acc ++ [d]) }
  | .hex acc high left code =>
      (hexValue c).bind fun d =>
        match left with
        | 0 => (endHex acc high (16 * code + d)).map fun l => { r with lexeme := l }
        | n + 1 => some { r with lexeme := .hex acc high n (16 * code + d) }
  -- a high surrogate must be followed by a low one
  | .low acc high => if c = '\\' then some { r with lexeme := .lowU acc high } else none
  | .lowU acc high => if c = 'u' then some { r with lexeme := .hex acc (some high) 3 0 } else none
  -- words and numbers end at the first character that is not theirs
  | .word acc =>
      if c.isAlpha then some { r with lexeme := .word (acc ++ [c]) }
      else (endScalar r).bind fun r' => stepGap c r'.focus r'.stack
  | .num acc =>
      if isNumberChar c then some { r with lexeme := .num (acc ++ [c]) }
      else (endScalar r).bind fun r' => stepGap c r'.focus r'.stack

/-- Read characters from left to right. -/
def readAll : Reader → List Char → Option Reader
  | r, [] => some r
  | r, c :: cs => (read r c).bind fun r' => readAll r' cs

/-- The value of a state at the end of the input. -/
def finish (r : Reader) : Option Json :=
  (endScalar r).bind fun r' =>
    match r'.lexeme, r'.focus, r'.stack with
    | .gap, .done v, [] => some v
    | _, _, _ => none

/-- The value a text denotes. -/
def parse (s : String) : Option Json := (readAll Reader.init s.toList).bind finish

example : parse "\x7b\"a\": [true, null, -1.5e3], \"a\": \"\\u0041\\\"\"\x7d" =
    some (.obj [("a", .str "A\"")]) := by rfl

end Json

end Paac
