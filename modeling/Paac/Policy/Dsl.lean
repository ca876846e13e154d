import Paac.Library.Text

set_option autoImplicit false

/-!
# The policy language

The line-oriented parser of the policy language. Each line is stripped of its comment and trimmed; a
`policy` line opens a policy, and every other line adds to the open one. The parser stops at the
first line it cannot read and names its number.

The definitions follow `dsl.rs` function by function, with the texts of its errors. The loop state
is the list of finished policies and the open one (`ParseState`); a policy under construction has
optional parts, and finishing it fails when a part is missing. Names keep the case they are written
in where the source does, and the words of a rule line are put into upper case.
-/

namespace Paac

/-! ## Errors and policies -/

/-- The errors of the policy crate. -/
inductive PolicyError where
  | parse (msg : String)
  | validate (msg : String)
  | store (msg : String)
  | crypto (msg : String)
  | cedar (msg : String)
  | io (msg : String)
  deriving DecidableEq, Repr

/-- The `Display` text. -/
def PolicyError.toText : PolicyError → String
  | .parse msg => "parse error: " ++ msg
  | .validate msg => "validation error: " ++ msg
  | .store msg => "store error: " ++ msg
  | .crypto msg => "crypto error: " ++ msg
  | .cedar msg => "cedar error: " ++ msg
  | .io msg => msg

inductive DslEffect where
  | allow
  | deny
  | review
  deriving DecidableEq, Repr

/-- A parsed policy: no role in `whenRoles` means any role, `whereSubjects` holds `SELF`,
`DIRECT_REPORTS` or literal ids, and `unlessRoles` are the roles that lift the policy. -/
structure DslPolicy where
  id : String
  effect : DslEffect
  action : String
  resource : String
  whenRoles : List String
  whereSubjects : List String
  unlessRoles : List String
  whereSubjectGroups : List String
  raw : String
  deriving DecidableEq, Repr

/-- A policy under construction. -/
structure Partial where
  id : String
  effect : Option DslEffect
  action : Option String
  resource : Option String
  whenRoles : List String
  whereSubjects : List String
  whereSubjectGroups : List String
  unlessRoles : List String
  raw : String
  deriving DecidableEq, Repr

/-- `Partial::new`. -/
def Partial.new (id raw : String) : Partial := ⟨id, none, none, none, [], [], [], [], raw⟩

/-- The value of a part of a policy, or the error that names the policy and the part. -/
def Partial.required {α : Type} (p : Partial) (part : Option α) (what : String) :
    Except PolicyError α :=
  match part with
  | some a => .ok a
  | none => .error (.parse ("policy " ++ p.id ++ ": missing " ++ what))

/-- `Partial::finish`. -/
def Partial.finish (p : Partial) : Except PolicyError DslPolicy := do
  let effect ← p.required p.effect "allow/deny/review"
  let action ← p.required p.action "action"
  let resource ← p.required p.resource "resource"
  return ⟨p.id, effect, action, resource, p.whenRoles, p.whereSubjects, p.unlessRoles,
    p.whereSubjectGroups, p.raw⟩

/-! ## Lines -/

/-- `strip_comment`. -/
def stripComment (line : String) : String :=
  match Text.splitOnce '#' line with
  | some (a, _) => a
  | none => line

/-- What is between the quotes of a string that starts and ends with one. -/
def unquote (s : String) : Option String := (Text.stripPrefix "\"" s).bind (Text.stripSuffix "\"")

/-- `parse_quoted_name`: a quoted name, or else the first word. -/
def parseQuotedName (s : String) : Option String :=
  let s := Text.trim s
  (unquote s).or (Text.splitWhitespace s).head?

/-- `parse_list`. -/
def parseList (s : String) : List String :=
  ((Text.split ',' (Text.trimEndMatchesChar ']' (Text.trimStartMatchesChar '[' (Text.trim s)))).map
    Text.trim).filter fun x => !x.isEmpty

/-- A parse error at a line. -/
def errorAt {α : Type} (loc : Nat) (msg : String) : Except PolicyError α :=
  .error (.parse ("line " ++ toString loc ++ ": " ++ msg))

/-- `parse_when`. -/
def parseWhen (rest : String) (p : Partial) (loc : Nat) : Except PolicyError Partial :=
  let rest := Text.trim rest
  match Text.stripPrefix "role ==" rest with
  | some r => .ok { p with whenRoles := p.whenRoles ++ [Text.trim r] }
  | none =>
      match Text.stripPrefix "role in " rest with
      | some r => .ok { p with whenRoles := p.whenRoles ++ parseList r }
      | none => errorAt loc ("unsupported when: " ++ rest)

/-- `parse_action_resource`. -/
def parseActionResource (rest : String) (p : Partial) (loc : Nat) : Except PolicyError Partial :=
  match Text.splitWhitespace rest with
  | action :: resource :: _ =>
      .ok { p with
        action := some (Text.toAsciiUppercase action)
        resource := some (Text.toAsciiUppercase resource) }
  | _ => errorAt loc "expected ACTION RESOURCE"

/-- `parse_where`. -/
def parseWhere (rest : String) (p : Partial) (loc : Nat) : Except PolicyError Partial :=
  let rest := Text.trim rest
  if rest = "subject == SELF" ∨ rest = "subject==SELF" then
    .ok { p with whereSubjects := p.whereSubjects ++ ["SELF"] }
  else
    match Text.stripPrefix "subject in " rest with
    | some r =>
        let name := Text.trim r
        if name = "DIRECT_REPORTS" then
          .ok { p with whereSubjects := p.whereSubjects ++ ["DIRECT_REPORTS"] }
        else if Text.endsWith "_GROUP" name || name = "EXECUTIVE_GROUP" ||
            Text.contains "GROUP" name then
          -- the suffix is cut off as often as it stands there
          .ok { p with
            whereSubjectGroups := p.whereSubjectGroups ++ [Text.trimEndMatches "_GROUP" name] }
        else .ok { p with whereSubjectGroups := p.whereSubjectGroups ++ [name] }
    | none =>
        match Text.stripPrefix "subject == " rest with
        | some r => .ok { p with whereSubjects := p.whereSubjects ++ [Text.trim r] }
        | none => errorAt loc ("unsupported where: " ++ rest)

/-- `parse_unless`. -/
def parseUnless (rest : String) (p : Partial) (loc : Nat) : Except PolicyError Partial :=
  let rest := Text.trim rest
  match Text.stripPrefix "role ==" rest with
  | some r => .ok { p with unlessRoles := p.unlessRoles ++ [Text.trim r] }
  | none =>
      match Text.stripPrefix "role in " rest with
      | some r => .ok { p with unlessRoles := p.unlessRoles ++ parseList r }
      | none => errorAt loc ("unsupported unless: " ++ rest)

/-- A line inside a policy. -/
def parseStatement (line : String) (p : Partial) (loc : Nat) : Except PolicyError Partial :=
  match Text.stripPrefix "when " line with
  | some rest => parseWhen rest p loc
  | none =>
  match Text.stripPrefix "allow " line with
  | some rest => parseActionResource rest { p with effect := some .allow } loc
  | none =>
  match Text.stripPrefix "deny " line with
  | some rest => parseActionResource rest { p with effect := some .deny } loc
  | none =>
  match Text.stripPrefix "review " line with
  | some rest => parseActionResource rest { p with effect := some .review } loc
  | none =>
  match Text.stripPrefix "where " line with
  | some rest => parseWhere rest p loc
  | none =>
  match Text.stripPrefix "or " line with
  | some rest => parseWhere rest p loc
  | none =>
  match Text.stripPrefix "unless " line with
  | some rest => parseUnless rest p loc
  | none => errorAt loc ("unknown statement: " ++ line)

/-! ## The loop -/

/-- The loop state: the finished policies and the open one. -/
structure ParseState where
  policies : List DslPolicy
  current : Option Partial
  deriving DecidableEq, Repr

/-- Finish the open policy, if there is one. -/
def ParseState.close (s : ParseState) : Except PolicyError (List DslPolicy) :=
  match s.current with
  | some p => do return s.policies ++ [← p.finish]
  | none => .ok s.policies

/-- One line of the input. -/
def parseLine (s : ParseState) (loc : Nat) (rawLine : String) : Except PolicyError ParseState :=
  let line := Text.trim (stripComment rawLine)
  if line.isEmpty then .ok s
  else
    match Text.stripPrefix "policy " line with
    | some rest => do
        -- the open policy is finished first, and its errors name no line
        let policies ← s.close
        match parseQuotedName rest with
        | some id => return ⟨policies, some (Partial.new id rawLine)⟩
        | none => errorAt loc "expected policy \"name\""
    | none =>
        match s.current with
        | none => errorAt loc "statement outside policy"
        | some p => do
            let p ← parseStatement line { p with raw := p.raw ++ "\n" ++ rawLine } loc
            return { s with current := some p }

/-- The lines from number `loc` on. -/
def parseLines : ParseState → Nat → List String → Except PolicyError ParseState
  | s, _, [] => .ok s
  | s, loc, l :: ls => do
      let s ← parseLine s loc l
      parseLines s (loc + 1) ls

/-- `parse_dsl`. -/
def parseDsl (input : String) : Except PolicyError (List DslPolicy) := do
  let s ← parseLines ⟨[], none⟩ 1 (Text.lines input)
  s.close

end Paac
