import Paac.Library.Cedar.Semantics

set_option autoImplicit false

/-!
# Reading Cedar policy text

A reader for the concrete syntax of the policies of `Semantics.lean`: a lexer that consumes one
character per step and a pushdown parser that consumes one token per step. Texts outside this
part of the grammar are rejected, so a text that the engine accepts as well is a policy set with
exactly the parsed policies. What the engine refuses beyond that is in `Strings.lean` and
`Typing.lean`.

The lexer knows identifiers, string literals with the escapes of one character, symbols of one and
two characters, and comments. The parser has the complete
policies, a position in the next one, and inside a condition a stack of levels, one for each open
parenthesis, with the disjuncts and conjuncts to the left. Both machines stop at the first character
or token that cannot stand where it does.

## Main results

- `lexAll_append`, `parseTokens_append`: both passes are left folds, so a text can be followed piece
  by piece.
- `LexesTo.append`: the tokens of texts that end at a gap.
- `lexesTo_quoted`: the token of a literal without escapes.
-/

namespace Paac.Cedar

/-! ## Tokens -/

inductive Token where
  | ident (name : String)
  | str (s : String)
  | sym (text : String)
  deriving DecidableEq, Repr

/-- The lexeme under construction. -/
inductive Lexeme where
  /-- Between two tokens. -/
  | gap
  | ident (acc : List Char)
  | str (acc : List Char)
  /-- After a backslash inside a string. -/
  | esc (acc : List Char)
  /-- After the first `/` of a comment. -/
  | slash
  | comment
  /-- After the first character of `==`, `&&`, `||` or `::`. -/
  | double (c : Char)
  deriving DecidableEq, Repr

/-- Lexer state: the lexeme and the tokens so far. -/
structure Lexer where
  lexeme : Lexeme
  tokens : List Token
  deriving DecidableEq, Repr

/-- Characters that continue an identifier. -/
def isIdentChar (c : Char) : Bool := c.isAlphanum || c = '_'

/-- The character an escape denotes. -/
def simpleEscape (c : Char) : Option Char :=
  if c = '"' ∨ c = '\\' ∨ c = '\'' then some c
  else if c = 'n' then some '\n'
  else if c = 'r' then some '\r'
  else if c = 't' then some '\t'
  else if c = '0' then some (Char.ofNat 0)
  else none

/-- The one-character symbols. -/
def isSymbol (c : Char) : Bool := "()\x7b\x7d[],;.@!".toList.contains c

/-- A character read between two tokens. -/
def stepGap (c : Char) (ts : List Token) : Option Lexer :=
  if Text.isWhitespace c then some ⟨.gap, ts⟩
  else if c = '"' then some ⟨.str [], ts⟩
  else if c = '/' then some ⟨.slash, ts⟩
  else if c.isAlpha || c = '_' then some ⟨.ident [c], ts⟩
  else if c = '=' ∨ c = '&' ∨ c = '|' ∨ c = ':' then some ⟨.double c, ts⟩
  else if isSymbol c then some ⟨.gap, ts ++ [.sym (String.singleton c)]⟩
  else none

/-- Read one character. -/
def lexStep (s : Lexer) (c : Char) : Option Lexer :=
  match s.lexeme with
  | .gap => stepGap c s.tokens
  | .ident acc =>
      if isIdentChar c then some ⟨.ident (acc ++ [c]), s.tokens⟩
      else stepGap c (s.tokens ++ [.ident (String.ofList acc)])
  | .str acc =>
      if c = '"' then some ⟨.gap, s.tokens ++ [.str (String.ofList acc)]⟩
      else if c = '\\' then some ⟨.esc acc, s.tokens⟩
      else some ⟨.str (acc ++ [c]), s.tokens⟩
  -- only the escapes of one character are known
  | .esc acc => (simpleEscape c).map fun d => ⟨.str (acc ++ [d]), s.tokens⟩
  | .slash => if c = '/' then some ⟨.comment, s.tokens⟩ else none
  | .comment => if c = '\n' ∨ c = '\r' then some ⟨.gap, s.tokens⟩ else some s
  | .double d =>
      if c = d then some ⟨.gap, s.tokens ++ [.sym (String.ofList [d, c])]⟩ else none

/-- Read characters from left to right. -/
def lexAll : Lexer → List Char → Option Lexer
  | s, [] => some s
  | s, c :: cs => (lexStep s c).bind fun s' => lexAll s' cs

/-- The tokens of a state at the end of the input. -/
def lexEnd (s : Lexer) : Option (List Token) :=
  match s.lexeme with
  | .gap => some s.tokens
  | .comment => some s.tokens
  | .ident acc => some (s.tokens ++ [.ident (String.ofList acc)])
  | _ => none

/-- The tokens of a text. -/
def lex (text : String) : Option (List Token) := (lexAll ⟨.gap, []⟩ text.toList).bind lexEnd

/-! ## Expressions -/

/-- An expression level under construction: the disjuncts and conjuncts to the left, and the
negations in front of the operand that comes next. -/
structure Level where
  ors : Option Expr
  ands : Option Expr
  nots : Nat
  deriving DecidableEq, Repr

/-- A level before its first operand. -/
def Level.empty : Level := ⟨none, none, 0⟩

/-- Where the parser stands inside an expression. -/
inductive Focus where
  /-- An operand must follow. -/
  | operand
  /-- After `context`. -/
  | contextDot
  | attrName
  /-- After an operand. -/
  | member (e : Expr)
  /-- After an operand and a dot. -/
  | method (e : Expr)
  | methodOpen (e : Expr)
  | methodArg (e : Expr)
  | methodClose (e : Expr) (s : String)
  /-- After `==`. -/
  | eqRight (e : Expr)
  /-- After a comparison. -/
  | relation (e : Expr)
  deriving DecidableEq, Repr

/-- `e` behind `n` negations. -/
def negate : Nat → Expr → Expr
  | 0, e => e
  | n + 1, e => .not (negate n e)

/-- The conjunction of a level once its last conjunct `e` is complete. -/
def Level.conjunction (l : Level) (e : Expr) : Expr :=
  match l.ands with
  | none => e
  | some a => .and a e

/-- The value of a level once its last conjunct `e` is complete. -/
def Level.value (l : Level) (e : Expr) : Expr :=
  match l.ors with
  | none => l.conjunction e
  | some o => .or o (l.conjunction e)

/-- The complete conjunct at a focus, if there is one. -/
def Focus.complete (l : Level) : Focus → Option Expr
  | .member e => some (negate l.nots e)
  | .relation e => some e
  | _ => none

/-! ## Policies -/

/-- Where the parser stands in a policy set. -/
inductive Pos where
  | start (annotations : List (String × String))
  | annotationName (annotations : List (String × String))
  | annotationOpen (annotations : List (String × String)) (name : String)
  | annotationArg (annotations : List (String × String)) (name : String)
  | annotationClose (annotations : List (String × String)) (name arg : String)
  | scopeOpen (p : Policy)
  | principal (p : Policy)
  | principalComma (p : Policy)
  | action (p : Policy)
  /-- After `action`: `==` or the comma. -/
  | actionEnd (p : Policy)
  | actionType (p : Policy)
  | actionColons (p : Policy) (type : String)
  | actionId (p : Policy) (type : String)
  | actionComma (p : Policy)
  | resource (p : Policy)
  | scopeClose (p : Policy)
  /-- Behind the scope: `when`, or the semicolon. -/
  | conditions (p : Policy)
  | whenOpen (p : Policy)
  | expr (p : Policy) (outer : List Level) (level : Level) (focus : Focus)
  deriving DecidableEq, Repr

/-- Parser state: the complete policies and the position in the next one. -/
structure Parser where
  policies : List Policy
  pos : Pos
  deriving DecidableEq, Repr

/-- A policy whose effect has just been read. -/
def Policy.open (annotations : List (String × String)) (effect : Effect) : Policy :=
  ⟨annotations, effect, none, []⟩

/-- A token inside an expression. -/
def exprStep (p : Policy) (outer : List Level) (l : Level) (f : Focus) (t : Token) : Option Pos :=
  match f, t with
  | .operand, .sym "!" => some (.expr p outer { l with nots := l.nots + 1 } .operand)
  -- a bracket keeps the levels outside it
  | .operand, .sym "(" => some (.expr p (l :: outer) .empty .operand)
  | .operand, .ident "context" => some (.expr p outer l .contextDot)
  | .contextDot, .sym "." => some (.expr p outer l .attrName)
  | .attrName, .ident name => some (.expr p outer l (.member (.attr name)))
  | .member e, .sym "." => some (.expr p outer l (.method e))
  | .method e, .ident "contains" => some (.expr p outer l (.methodOpen e))
  | .methodOpen e, .sym "(" => some (.expr p outer l (.methodArg e))
  | .methodArg e, .str s => some (.expr p outer l (.methodClose e s))
  | .methodClose e s, .sym ")" => some (.expr p outer l (.member (.containsStr e s)))
  | .member e, .sym "==" => some (.expr p outer l (.eqRight (negate l.nots e)))
  | .eqRight e, .str s => some (.expr p outer l (.relation (.eqStr e s)))
  -- an operator closes the operand in front of it
  | f, .sym "&&" =>
      (f.complete l).map fun e =>
        .expr p outer { l with ands := some (l.conjunction e), nots := 0 } .operand
  | f, .sym "||" =>
      (f.complete l).map fun e => .expr p outer ⟨some (l.value e), none, 0⟩ .operand
  | f, .sym ")" =>
      (f.complete l).bind fun e =>
        match outer with
        | [] => none
        | l' :: outer' => some (.expr p outer' l' (.member (l.value e)))
  | f, .sym "\x7d" =>
      (f.complete l).bind fun e =>
        match outer with
        | [] => some (.conditions { p with conditions := p.conditions ++ [l.value e] })
        | _ :: _ => none
  | _, _ => none

/-- Read one token. -/
def parseStep (s : Parser) (t : Token) : Option Parser :=
  match s.pos, t with
  | .start as, .sym "@" => some { s with pos := .annotationName as }
  | .annotationName as, .ident n => some { s with pos := .annotationOpen as n }
  | .annotationOpen as n, .sym "(" => some { s with pos := .annotationArg as n }
  | .annotationArg as n, .str v => some { s with pos := .annotationClose as n v }
  | .annotationClose as n v, .sym ")" => some { s with pos := .start (as ++ [(n, v)]) }
  | .start as, .ident "permit" => some { s with pos := .scopeOpen (Policy.open as .permit) }
  | .start as, .ident "forbid" => some { s with pos := .scopeOpen (Policy.open as .forbid) }
  | .scopeOpen p, .sym "(" => some { s with pos := .principal p }
  | .principal p, .ident "principal" => some { s with pos := .principalComma p }
  | .principalComma p, .sym "," => some { s with pos := .action p }
  | .action p, .ident "action" => some { s with pos := .actionEnd p }
  | .actionEnd p, .sym "," => some { s with pos := .resource p }
  | .actionEnd p, .sym "==" => some { s with pos := .actionType p }
  | .actionType p, .ident ty => some { s with pos := .actionColons p ty }
  | .actionColons p ty, .sym "::" => some { s with pos := .actionId p ty }
  | .actionId p ty, .str id => some { s with pos := .actionComma { p with action := some ⟨ty, id⟩ } }
  | .actionComma p, .sym "," => some { s with pos := .resource p }
  | .resource p, .ident "resource" => some { s with pos := .scopeClose p }
  | .scopeClose p, .sym ")" => some { s with pos := .conditions p }
  | .conditions p, .ident "when" => some { s with pos := .whenOpen p }
  | .conditions p, .sym ";" => some ⟨s.policies ++ [p], .start []⟩
  | .whenOpen p, .sym "\x7b" => some { s with pos := .expr p [] .empty .operand }
  | .expr p outer l f, t => (exprStep p outer l f t).map fun pos => { s with pos := pos }
  | _, _ => none

/-- Read tokens from left to right. -/
def parseTokens : Parser → List Token → Option Parser
  | s, [] => some s
  | s, t :: ts => (parseStep s t).bind fun s' => parseTokens s' ts

/-- The policies of a state at the end of the input. -/
def parseEnd (s : Parser) : Option (List Policy) :=
  match s.pos with
  | .start [] => some s.policies
  | _ => none

/-- The policies of a text. -/
def parsePolicies (text : String) : Option (List Policy) :=
  (lex text).bind fun ts => (parseTokens ⟨[], .start []⟩ ts).bind parseEnd

example : parsePolicies "@id(\"a\") permit(principal, action, resource)
    when \x7b !(context.self || context.kind == \"X\") \x7d; // end" =
    some [⟨[("id", "a")], .permit, none,
      [.not (.or (.attr "self") (.eqStr (.attr "kind") "X"))]⟩] := by rfl

/-! ## Following a text piece by piece -/

theorem lexAll_append (cs cs' : List Char) :
    ∀ s : Lexer, lexAll s (cs ++ cs') = (lexAll s cs).bind fun s' => lexAll s' cs' := by
  induction cs with
  | nil => intro s; rfl
  | cons c cs ih =>
      intro s
      cases h : lexStep s c with
      | none => simp [lexAll, h]
      | some s' => simp [lexAll, h, ih s']

/-- The parser goes on where it stands. -/
theorem parseTokens_append (ts ts' : List Token) :
    ∀ s : Parser,
      parseTokens s (ts ++ ts') = (parseTokens s ts).bind fun s' => parseTokens s' ts' := by
  induction ts with
  | nil => intro s; rfl
  | cons t ts ih =>
      intro s
      cases h : parseStep s t with
      | none => simp [parseTokens, h]
      | some s' => simp [parseTokens, h, ih s']

/-- The text, read between two tokens, yields the tokens `ts` and ends between two tokens. -/
def LexesTo (text : String) (ts : List Token) : Prop :=
  ∀ ts₀ : List Token, lexAll ⟨.gap, ts₀⟩ text.toList = some ⟨.gap, ts₀ ++ ts⟩

theorem LexesTo.append {a b : String} {ts ts' : List Token} (h : LexesTo a ts)
    (h' : LexesTo b ts') : LexesTo (a ++ b) (ts ++ ts') := by
  intro ts₀
  rw [String.toList_append, lexAll_append, h ts₀, Option.bind_some, h' (ts₀ ++ ts),
    List.append_assoc]

theorem LexesTo.lex_eq {text : String} {ts : List Token} (h : LexesTo text ts) :
    lex text = some ts := by
  rw [lex, h []]
  rfl

/-- A name that needs no escape in a string literal. -/
def isPlain (s : String) : Bool := s.toList.all fun c => c ≠ '"' && c ≠ '\\'

/-- The lexer collects the characters of a literal without escapes. -/
theorem lexAll_str (cs rest : List Char) (ts : List Token)
    (hplain : cs.all (fun c => c ≠ '"' && c ≠ '\\') = true) :
    ∀ acc : List Char, lexAll ⟨.str acc, ts⟩ (cs ++ rest) = lexAll ⟨.str (acc ++ cs), ts⟩ rest := by
  induction cs with
  | nil => intro acc; simp
  | cons c cs ih =>
      intro acc
      rw [List.all_cons, Bool.and_eq_true, Bool.and_eq_true] at hplain
      obtain ⟨⟨hq, hb⟩, hcs⟩ := hplain
      have hq' : ¬c = '"' := of_decide_eq_true hq
      have hb' : ¬c = '\\' := of_decide_eq_true hb
      have hstep : lexAll ⟨.str acc, ts⟩ ((c :: cs) ++ rest) =
          lexAll ⟨.str (acc ++ [c]), ts⟩ (cs ++ rest) := by
        simp [lexAll, lexStep, hq', hb']
      rw [hstep, ih hcs (acc ++ [c]), List.append_assoc, List.singleton_append]

/-- A plain name in quotes is one string token. -/
theorem lexesTo_quoted {s : String} (hplain : isPlain s = true) :
    LexesTo ("\"" ++ s ++ "\"") [.str s] := by
  intro ts₀
  rw [String.toList_append, String.toList_append, List.append_assoc, lexAll_append]
  have hopen : lexAll ⟨.gap, ts₀⟩ "\"".toList = some ⟨.str [], ts₀⟩ := rfl
  rw [hopen, Option.bind_some, lexAll_str s.toList "\"".toList ts₀ hplain, List.nil_append]
  simp [lexAll, lexStep]

end Paac.Cedar
