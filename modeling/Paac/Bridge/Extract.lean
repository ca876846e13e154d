import Paac.Core.Request

set_option autoImplicit false

/-!
# Structured extraction

The bridge reads a proposal out of an utterance by looking for phrases in its lower-case text. The
two patterns it searches with a regular expression are read by a parameter: `captures pattern text`
is the first group of the leftmost match.

The tests for the phrases are written as the source has them, each with its own words, and
`extractStructured` asks them in the order of the source; an utterance that none of them answers is
an error. The confidence of a proposal is kept as the text it prints as, since it only ever becomes
text in the context of a request.
-/

namespace Paac

/-- The errors of the bridge. -/
inductive BridgeError where
  | msg (text : String)
  | authz (e : AuthzError)
  deriving DecidableEq, Repr

/-- The `Display` text. -/
def BridgeError.toText : BridgeError → String
  | .msg text => "bridge error: " ++ text
  | .authz e => e.toText

/-- What is read out of an utterance; the confidence is kept as the text it prints as. -/
structure NlExtraction where
  utterance : String
  action : String
  resourceKind : String
  resourceId : Option String
  subjectId : Option String
  subjectGroups : List String
  directReports : List String
  confidence : String
  deriving DecidableEq, Repr

/-- The utterance mentions executives and their money. -/
def asksExecutiveExpense (lower : String) : Bool :=
  (Text.contains "ceo" lower || Text.contains "executive" lower) &&
    (Text.contains "spend" lower || Text.contains "expense" lower || Text.contains "trip" lower ||
      Text.contains "travel" lower || Text.contains "compensation" lower ||
      Text.contains "salary" lower)

def asksSql (lower : String) : Bool :=
  Text.contains "sql_query" lower || Text.contains "run sql" lower ||
    Text.contains "query table" lower

def asksPayrollExport (lower : String) : Bool :=
  Text.contains "export" lower && (Text.contains "payroll" lower || Text.contains "salary" lower)

def asksRetrieval (lower : String) : Bool :=
  Text.contains "retrieve" lower || Text.contains "search documents" lower ||
    Text.contains "vector" lower

def asksOwnProfile (lower : String) : Bool :=
  Text.contains "my profile" lower || Text.contains "my employee record" lower

def asksAliceTravel (lower : String) : Bool :=
  Text.contains "alice" lower && (Text.contains "expense" lower || Text.contains "travel" lower)

/-- `extract_structured`: the first kind of phrase that occurs decides. -/
def extractStructured (captures : String → String → Option String) (utterance : String) :
    Except BridgeError NlExtraction :=
  let lower := Text.toAsciiLowercase utterance
  if asksExecutiveExpense lower then
    .ok ⟨utterance, "READ", "TRAVEL_EXPENSE", some "db.hr.travel_expenses", some "employee:CEO",
      ["EXECUTIVE"], ["employee:alice"], "0.95"⟩
  else if asksSql lower then
    .ok ⟨utterance, "TOOL_INVOKE", "DB_TABLE", captures "(db\\.[a-z0-9_.]+)" lower, none, [], [],
      "0.85"⟩
  else if asksPayrollExport lower then
    .ok ⟨utterance, "EXPORT", "SALARY", some "api.export.payroll", none, [], [], "0.9"⟩
  else if asksRetrieval lower then
    .ok ⟨utterance, "READ", "VECTOR_COLLECTION", captures "(vec\\.[a-z0-9_.]+)" lower, none, [],
      [], "0.8"⟩
  else if asksOwnProfile lower then
    .ok ⟨utterance, "READ", "EMPLOYEE_PROFILE", some "employee.self_profile", none, [], [], "0.75"⟩
  else if asksAliceTravel lower then
    .ok ⟨utterance, "READ", "TRAVEL_EXPENSE", some "db.hr.travel_expenses", some "employee:alice",
      ["ENGINEERING"], ["employee:alice"], "0.9"⟩
  else
    .error (.msg ("could not extract structured AuthzRequest from: " ++ utterance))

end Paac
