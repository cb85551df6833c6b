import FilterQuery.Calendar.Fixed
import FilterQuery.Reading.Token
import FilterQuery.Value.Literal

/-!
Literals and lists of literals. `DATE` and `TIMESTAMP` are tried before strings, so that their
quoted bodies are never read as texts.
-/

namespace FilterQuery.Rule

open Calendar

/-- The quoted body of a date or a timestamp. -/
def quotedBody (what : Expectation) : Rule String := do
  skipBlanks
  if (← get).peek? = some '\'' then quotedString else unexpected what

/-- What follows the keyword `DATE` that began at `start`. -/
def dateLiteral (start : Cursor) : Rule Literal := do
  let body ← quotedBody .quotedDate
  match Fixed.dateParts? body.toList with
  | none => failSince start (.malformedDate body)
  | some p =>
    match Date.of? p.year p.month p.day with
    | none => failSince start (.missingDate body)
    | some d => return .date d

/-- What follows the keyword `TIMESTAMP` that began at `start`. -/
def timestampLiteral (start : Cursor) : Rule Literal := do
  let body ← quotedBody .quotedTimestamp
  match Fixed.timestampParts? body.toList with
  | none => failSince start (.malformedTimestamp body)
  | some p =>
    match Timestamp.ofParts? p.year p.month p.day p.hour p.minute p.second p.micros p.precision with
    | none => failSince start (.missingTimestamp body)
    | some t => return .timestamp t

/-- A literal that is no list. -/
def scalar : Rule Literal := do
  let start ← get
  if ← eatKeyword .date then dateLiteral start
  else if ← eatKeyword .timestamp then timestampLiteral start
  else if start.atInteger then return .integer (← integer)
  else if start.peek? = some '\'' then return .text (← quotedString)
  else
    match ← boolean? with
    | some b => return .boolean b
    | none => unexpected .literal

/-- The keywords of the literals that may not stand in a list. -/
def scalarKeywords : List Keyword :=
  [.date, .timestamp, .true, .false]

/-- A list holds integers and texts; other literals are refused by name. -/
def listElement : Rule Literal := do
  let start ← get
  if start.atInteger then return .integer (← integer)
  else if start.peek? = some '\'' then return .text (← quotedString)
  else
    match scalarKeywords.find? fun k => (start.eatKeyword? k).isSome with
    | some k => failSince start (.listElement k)
    | none => unexpected .listElement

/-- A comma and the next element, or the end of the list. -/
def listContinuation : Rule (Option Literal) := do
  skipBlanks
  if ← eat "," then
    skipBlanks
    return some (← listElement)
  else if ← eat ")" then return none
  else unexpected .listContinuation

def listLiteral : Rule (List Literal) := do
  symbol "("
  skipBlanks
  if ← eat ")" then return []
  else
    let first ← listElement
    return first :: (← many listContinuation)

def literal : Rule Literal := do
  if (← get).peek? = some '(' then return .list (← listLiteral) else scalar

end FilterQuery.Rule
