import FilterQuery.Reading.Cursor

/-!
Rules: what reads a part of a text. A rule answers a value and the place after what it read, or it
refuses the text. A refusal too says where reading stopped, since a parser can be used again from
there, and how many groups had been opened by then.
-/

namespace FilterQuery

structure Refusal where
  error : ParseError
  /-- Where reading stopped. -/
  stop : Cursor
  /-- The groups that were opened and not closed. -/
  unclosed : Nat := 0
  deriving DecidableEq

abbrev Rule (α : Type) := StateT Cursor (Except Refusal) α

namespace Rule

variable {α : Type}

/-- Refuses with an error over what was read since `start`. -/
def failSince (start : Cursor) (cause : Cause) : Rule α := fun c =>
  .error { error := c.errorSince start cause, stop := c }

def unexpected (what : Expectation) : Rule α := fun c =>
  .error { error := c.unexpected what, stop := c }

/-- A move that may not apply; the place is kept where it does not. -/
def attempt (move? : Cursor → Option Cursor) : Rule Bool := fun c =>
  match move? c with
  | some d => .ok (true, d)
  | none => .ok (false, c)

def skipBlanks : Rule Unit := fun c =>
  .ok ((), c.skipBlanks)

/-- At least one blank. -/
def blanks : Rule Unit := fun c =>
  if c.peek?.any isBlank then .ok ((), c.skipBlanks) else unexpected .blanks c

def eat (symbol : String) : Rule Bool :=
  attempt (·.eat? symbol)

def symbol (s : String) : Rule Unit := fun c =>
  match c.eat? s with
  | some d => .ok ((), d)
  | none => unexpected (.symbol s) c

def eatKeyword (k : Keyword) : Rule Bool :=
  attempt (·.eatKeyword? k)

def eatSpacedKeyword (k : Keyword) : Rule Bool :=
  attempt (·.eatSpacedKeyword? k)

def keyword (k : Keyword) : Rule Unit := fun c =>
  match c.eatKeyword? k with
  | some d => .ok ((), d)
  | none => unexpected (.keyword k) c

/-- Counts a group as opened if the rest of it is refused. -/
def opened (rule : Rule α) : Rule α := fun c =>
  (rule c).mapError fun r => { r with unclosed := r.unclosed + 1 }

/-- Repeats `item` until it answers nothing, at most `n` times, after the answers in `done`. -/
def repeatUpTo (item : Rule (Option α)) : Nat → List α → Rule (List α)
  | 0, done, c => .ok (done.reverse, c)
  | n + 1, done, c =>
    match item c with
    | .ok (some a, d) => repeatUpTo item n (a :: done) d
    | .ok (none, d) => .ok (done.reverse, d)
    | .error r => .error r

/-- Repeats `item` until it answers nothing. Each answer has to read at least one character, so that
the characters left bound the repetitions. -/
def many (item : Rule (Option α)) : Rule (List α) := fun c =>
  repeatUpTo item (c.rest.length + 1) [] c

end Rule

end FilterQuery
