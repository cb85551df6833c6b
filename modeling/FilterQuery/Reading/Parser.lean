import FilterQuery.Reading.ClauseRule

/-!
Parsers: a text, a dialect and a limit on nested groups. Each call reads all that is left of the
text, and hands on the parser as it then stands. A call that fails leaves the place where reading
stopped, and the groups that it opened count against the limit of later calls.
-/

namespace FilterQuery

def defaultMaxDepth : Nat := 64

structure Parser where
  dialect : Dialect
  maxDepth : Nat
  cursor : Cursor
  /-- The groups that failed calls opened and did not close. -/
  unclosed : Nat := 0

namespace Rule

/-- Refuses what is left of the text, blanks apart. A closing parenthesis has no group to close. -/
def finish : Rule Unit := fun start =>
  let c := start.skipBlanks
  if c.atEnd then .ok ((), c)
  else
    match c.eat? ")" with
    | some d => failSince c .unmatchedParenthesis d
    | none =>
      let span : Span := ⟨c.pos, byteLength c.input⟩
      .error { error := ⟨.trailing, span, c.restText⟩, stop := c }

/-- Applies a rule to the whole text, blanks around it apart. -/
def whole {α : Type} (rule : Rule α) : Rule α := do
  skipBlanks
  let a ← rule
  finish
  return a

end Rule

namespace Parser

variable {α : Type}

def ofString (dialect : Dialect) (maxDepth : Nat) (text : String) : Parser where
  dialect
  maxDepth
  cursor := .ofString text dialect.dottedNames

/-- The nesting that is left under the limit. -/
def levels (p : Parser) : Nat :=
  p.maxDepth - p.unclosed

/-- Applies a rule, and keeps the place and the count of open groups. -/
def run (p : Parser) (rule : Rule α) : Except ParseError α × Parser :=
  match rule p.cursor with
  | .ok (a, c) => (.ok a, { p with cursor := c })
  | .error r => (.error r.error, { p with cursor := r.stop, unclosed := p.unclosed + r.unclosed })

def chainRule (p : Parser) : Rule Chain :=
  Rule.chain p.dialect p.maxDepth p.levels

def chain (p : Parser) : Except ParseError Chain × Parser :=
  p.run (Rule.whole p.chainRule)

/-- A dialect without clauses refuses every text, and reads nothing of it. -/
def clauseSet (p : Parser) : Except ParseError ClauseSet × Parser :=
  if p.dialect.clauses then p.run (Rule.whole (Rule.clauseSet p.chainRule))
  else (.error (p.cursor.errorHere (.clauses p.dialect.name)), p)

def literal (p : Parser) : Except ParseError Literal × Parser :=
  p.run (Rule.whole Rule.literal)

end Parser

/-- Reads the whole text as a chain. -/
def parseChain (dialect : Dialect) (maxDepth : Nat) (text : String) : Except ParseError Chain :=
  (Parser.ofString dialect maxDepth text).chain.1

/-- Reads the whole text as a clause set. -/
def parseClauseSet (dialect : Dialect) (maxDepth : Nat) (text : String) :
    Except ParseError ClauseSet :=
  (Parser.ofString dialect maxDepth text).clauseSet.1

/-- Reads the whole text as one literal, which may be a list. -/
def parseLiteral (dialect : Dialect) (text : String) : Except ParseError Literal :=
  (Parser.ofString dialect defaultMaxDepth text).literal.1

/-- Reads a boolean expression. -/
def parseWhere (text : String) : Except ParseError Chain :=
  parseChain .expression defaultMaxDepth text

/-- Reads a SELECT text. -/
def parseClauses (text : String) : Except ParseError ClauseSet :=
  parseClauseSet .clause defaultMaxDepth text

end FilterQuery
