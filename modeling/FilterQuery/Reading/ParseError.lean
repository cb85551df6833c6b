import FilterQuery.Query.Keyword
import FilterQuery.Text.Decimal
import FilterQuery.Text.Span

/-!
Parse errors: where a text stops being readable, and why. The wording is computed from the cause and
from the text that was left, so that errors are compared by what they mean.
-/

namespace FilterQuery

inductive ErrorKind where
  /-- A malformed token. -/
  | lexical
  /-- A keyword, symbol or token that is missing or not allowed here. -/
  | syntactic
  /-- A well-formed literal that denotes no value. -/
  | literalValue
  /-- The text goes on after all that could be read. -/
  | trailingInput
  deriving DecidableEq, Repr

def ErrorKind.text : ErrorKind → String
  | .lexical => "lexical error"
  | .syntactic => "syntax error"
  | .literalValue => "invalid literal value"
  | .trailingInput => "trailing input"

/-- What was looked for where the text holds something else. -/
inductive Expectation where
  | blanks
  | symbol (text : String)
  | keyword (keyword : Keyword)
  | identifier
  | quotedString
  | digits
  | literal
  | quotedDate
  | quotedTimestamp
  | operator
  | closingParenthesis
  | listElement
  | listContinuation
  | direction
  | described (text : String)
  deriving DecidableEq, Repr

def Expectation.text : Expectation → String
  | .blanks => "whitespace"
  | .symbol s => "'" ++ s ++ "'"
  | .keyword k => k.text
  | .identifier => "identifier"
  | .quotedString => "quoted string"
  | .digits => "digits"
  | .literal => "literal"
  | .quotedDate => "quoted date value"
  | .quotedTimestamp => "quoted timestamp value"
  | .operator => "comparison operator, IS [NOT] NULL or [NOT] IN"
  | .closingParenthesis => "')' to close group"
  | .listElement => "integer or quoted string"
  | .listContinuation => "',' or ')'"
  | .direction => "ASC or DESC"
  | .described s => s

/-- Why a text was refused. The causes that quote the text carry the part they quote; those that a
dialect decides carry its name. -/
inductive Cause where
  | expected (what : Expectation)
  | identifierStart (c : Char)
  | unterminatedString
  | digitSequence
  | integerTooLarge (text : String)
  | integerTooSmall (text : String)
  | countTooLarge (text : String)
  | malformedDate (body : String)
  | missingDate (body : String)
  | malformedTimestamp (body : String)
  | missingTimestamp (body : String)
  | listElement (keyword : Keyword)
  | negatedGroup (dialect : String)
  | negatedLeaf (dialect : String)
  | group (dialect : String)
  | clauses (dialect : String)
  | groupDepth (limit : Nat)
  | unmatchedParenthesis
  | misplacedClause (keyword : Keyword)
  | trailing
  | reported (kind : ErrorKind) (message : String)
  deriving DecidableEq, Repr

namespace Cause

def kind : Cause → ErrorKind
  | .identifierStart _ | .unterminatedString | .digitSequence | .integerTooLarge _
  | .integerTooSmall _ | .malformedDate _ | .malformedTimestamp _ => .lexical
  | .expected _ | .listElement _ | .negatedGroup _ | .negatedLeaf _ | .group _ | .clauses _
  | .groupDepth _ | .unmatchedParenthesis | .misplacedClause _ => .syntactic
  | .countTooLarge _ | .missingDate _ | .missingTimestamp _ => .literalValue
  | .trailing => .trailingInput
  | .reported kind _ => kind

/-- The beginning of a text for a message: at most 24 characters, and dots if there are more. -/
def snippet (text : String) : String :=
  let cs := text.toList
  if cs.length ≤ 24 then text else String.ofList (cs.take 24) ++ "..."

/-- A refusal that names the dialect which makes it. -/
def inDialect (message dialect : String) : String :=
  message ++ " in the " ++ dialect ++ " dialect"

/-- The wording, given the text that was left unread. -/
def message (residual : String) : Cause → String
  | .expected what =>
    if residual = "" then "Unexpected end of input: expected " ++ what.text
    else "Unexpected input: expected " ++ what.text ++ ", found '" ++ snippet residual ++ "'"
  | .identifierStart c => "Invalid identifier start: '" ++ c.toString ++ "'"
  | .unterminatedString => "Unterminated string literal"
  | .digitSequence => "Invalid digit sequence"
  | .integerTooLarge s => "Invalid integer '" ++ s ++ "': number too large to fit in target type"
  | .integerTooSmall s => "Invalid integer '" ++ s ++ "': number too small to fit in target type"
  | .countTooLarge s => "Invalid count '" ++ s ++ "': number too large to fit in target type"
  | .malformedDate s => "Malformed date literal '" ++ s ++ "': expected YYYY-MM-DD"
  | .missingDate s => "Invalid calendar date '" ++ s ++ "'"
  | .malformedTimestamp s =>
    "Malformed timestamp literal '" ++ s ++ "': expected YYYY-MM-DD HH:MM:SS[.ffffff]"
  | .missingTimestamp s => "Invalid timestamp '" ++ s ++ "'"
  | .listElement k =>
    k.text ++ " literals are not allowed in a list; use integers or quoted strings"
  | .negatedGroup d => inDialect "NOT cannot be applied to a parenthesized group" d
  | .negatedLeaf d => inDialect "NOT may only be applied to a parenthesized group" d
  | .group d => inDialect "Parenthesized groups are not supported" d
  | .clauses d => "The " ++ d ++ " dialect does not accept SELECT clauses"
  | .groupDepth limit => "Groups nested deeper than " ++ Decimal.ofNat limit ++ " levels"
  | .unmatchedParenthesis => "Unmatched ')'"
  | .misplacedClause k => k.text ++ " clause is repeated or out of order"
  | .trailing => "Unexpected trailing input '" ++ snippet residual ++ "'"
  | .reported _ message => message

end Cause

/-- A refused text: the cause, the part of the text that shows it, and all the text from there on.
-/
structure ParseError where
  cause : Cause
  span : Span
  residual : String
  deriving DecidableEq, Repr

namespace ParseError

def kind (e : ParseError) : ErrorKind :=
  e.cause.kind

def message (e : ParseError) : String :=
  e.cause.message e.residual

/-- The one-line form: kind, message and place. -/
def text (e : ParseError) : String :=
  e.kind.text ++ ": " ++ e.message ++ " at position " ++
    Decimal.ofNat e.span.start ++ ".." ++ Decimal.ofNat e.span.stop

end ParseError

end FilterQuery
