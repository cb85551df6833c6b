import FilterQuery.Reading.Rule

/-!
Tokens: identifiers, quoted strings, integers, counts and truth values.
-/

namespace FilterQuery

/-- A minus sign stands here, right before a digit. -/
def Cursor.atSign (c : Cursor) : Bool :=
  c.peek? == some '-' && c.peekNext?.any Char.isDigit

/-- An integer starts here. -/
def Cursor.atInteger (c : Cursor) : Bool :=
  c.peek?.any Char.isDigit || c.atSign

namespace Rule

/-- An identifier, which is the longest run of its characters. -/
def identifier : Rule String := fun c =>
  match c.peek? with
  | none => unexpected .identifier c
  | some x =>
    if isWordStart x then
      .ok (String.ofList (c.rest.takeWhile c.continuesWord), c.skipWhile c.continuesWord)
    else
      failSince c (.identifierStart x) c

/-- A string between single quotes. All characters but the quote stand for themselves. -/
def quotedString : Rule String := fun c =>
  match c.eat? "'" with
  | none => unexpected .quotedString c
  | some d =>
    let stop := d.skipWhile (· != '\'')
    match stop.eat? "'" with
    | some e => .ok (String.ofList (d.rest.takeWhile (· != '\'')), e)
    | none => failSince c .unterminatedString stop

/-- A run of digits, after a sign that began at `start`. Without digits, or with a word right behind
them, the place goes back to `start`. -/
def digits (start : Cursor) : Rule (List Char) := fun c =>
  let run := c.rest.takeWhile Char.isDigit
  let stop := c.skipWhile Char.isDigit
  if run.isEmpty then unexpected .digits start
  else if stop.peek?.any isWordStart then
    .error { error := stop.errorSince start .digitSequence, stop := start }
  else .ok (run, stop)

/-- An integer of 64 bits with an optional minus sign. -/
def integer : Rule Int64 := fun start =>
  match digits start (if start.atSign then start.move 1 else start) with
  | .error r => .error r
  | .ok (run, stop) =>
    let n : Int := if start.atSign then -Decimal.value run else Decimal.value run
    if n < Int64.minValue.toInt then
      failSince start (.integerTooSmall (String.ofList ('-' :: run))) stop
    else if Int64.maxValue.toInt < n then
      failSince start (.integerTooLarge (String.ofList run)) stop
    else .ok (Int64.ofInt n, stop)

/-- A count of 64 bits. -/
def count : Rule UInt64 := fun start =>
  match digits start start with
  | .error r => .error r
  | .ok (run, stop) =>
    if Decimal.value run < UInt64.size then .ok (UInt64.ofNat (Decimal.value run), stop)
    else failSince start (.countTooLarge (String.ofList run)) stop

/-- `true` or `false`, if one of them stands here. -/
def boolean? : Rule (Option Bool) := do
  if ← eatKeyword .true then return some true
  else if ← eatKeyword .false then return some false
  else return none

end Rule

end FilterQuery
