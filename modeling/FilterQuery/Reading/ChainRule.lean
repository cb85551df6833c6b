import FilterQuery.Query.Condition
import FilterQuery.Query.Dialect
import FilterQuery.Reading.LiteralRule

/-!
Conditions and chains. Groups nest: `chain` takes the number of levels that may still be opened, and
recurs on it. Which of `NOT leaf`, `NOT group` and `group` exist, the dialect decides.
-/

namespace FilterQuery.Rule

/-- The symbol of a comparison, after any blanks. Where there is none, the place stays before the
blanks, although the error is reported behind them. -/
def symbolOperator : Rule Operator := fun c =>
  let d := c.skipBlanks
  match Operator.symbols.findSome? fun (s, op) => (d.eat? s).map fun e => (op, e) with
  | some r => .ok r
  | none => .error { error := d.unexpected .operator, stop := c }

def comparisonOperator : Rule Operator := do
  if ← eatSpacedKeyword .notLike then return .notLike
  else if ← eatSpacedKeyword .like then return .like
  else symbolOperator

/-- The list of a membership test. -/
def members : Rule (List Literal) := do
  skipBlanks
  listLiteral

/-- A condition on one field. Keywords are tried before their own beginnings. -/
def leaf : Rule Leaf := do
  let field ← identifier
  if ← eatSpacedKeyword .isNotNull then return .nullCheck field false
  else if ← eatSpacedKeyword .isNull then return .nullCheck field true
  else if ← eatSpacedKeyword .notIn then return .membership field true (← members)
  else if ← eatSpacedKeyword .in_ then return .membership field false (← members)
  else
    let op ← comparisonOperator
    skipBlanks
    return .comparison field op (← scalar)

/-- A leaf that begins at `start` with the word `NOT`, in a dialect that negates no leaf: the word
is the name of the field. Whatever else is wrong with it, the refusal is that of the negation. -/
def leafNamedNot (start : Cursor) (dialect : String) : Rule Leaf := fun c =>
  (leaf start).mapError fun r => { r with error := c.errorSince start (.negatedLeaf dialect) }

/-- What follows a `NOT` that began at `start`. A negated group keeps the negation to itself; that
of a leaf goes to the link. -/
def negated (d : Dialect) (group : Bool → Rule Condition) (start : Cursor) :
    Rule (Bool × Condition) := do
  skipBlanks
  if (← get).peek? = some '(' then
    if d.groupNegation then return (false, ← group true)
    else failSince start (.negatedGroup d.name)
  else if d.leafNegation then return (true, .leaf (← leaf))
  else return (false, .leaf (← leafNamedNot start d.name))

def plain (d : Dialect) (group : Bool → Rule Condition) : Rule (Bool × Condition) := do
  if (← get).peek? = some '(' then
    if d.grouping then return (false, ← group false)
    else failSince (← get) (.group d.name)
  else return (false, .leaf (← leaf))

/-- `NOT` stands here as a negation; a dialect that negates nothing has no such word. -/
def eatNegation (d : Dialect) : Rule Bool :=
  if d.leafNegation || d.groupNegation then eatKeyword .not else pure false

/-- A condition, and whether the negation before it goes to the link. -/
def condition (d : Dialect) (group : Bool → Rule Condition) : Rule (Bool × Condition) := do
  let start ← get
  if ← eatNegation d then negated d group start else plain d group

def conjunction? : Rule (Option Conjunction) := do
  if ← eatSpacedKeyword .and then return some .and
  else if ← eatSpacedKeyword .or then return some .or
  else return none

/-- A conjunction and the condition that it joins. -/
def nextLink (condition : Rule (Bool × Condition)) : Rule (Option Link) := do
  match ← conjunction? with
  | none => return none
  | some j =>
    skipBlanks
    let (negated, c) ← condition
    return some ⟨some j, negated, c⟩

/-- Conditions joined by conjunctions; the first joins nothing. -/
def links (condition : Rule (Bool × Condition)) : Rule Chain := do
  let (negated, c) ← condition
  return ⟨none, negated, c⟩ :: (← many (nextLink condition))

/-- The rest of a group that has been opened. -/
def groupBody (body : Rule Chain) : Rule Chain := do
  symbol "("
  skipBlanks
  let chain ← body
  skipBlanks
  if ← eat ")" then return chain else unexpected .closingParenthesis

def group (body : Rule Chain) (negated : Bool) : Rule Condition := do
  return .group negated (← opened (groupBody body))

def tooDeep (limit : Nat) : Rule Condition := fun c =>
  failSince c (.groupDepth limit) c

/-- A chain in which groups nest at most `levels` deep. The limit of which they are what is left is
named where a group lies deeper. -/
def chain (d : Dialect) (limit : Nat) : (levels : Nat) → Rule Chain
  | 0, c => links (condition d fun _ => tooDeep limit) c
  | levels + 1, c => links (condition d (group (chain d limit levels))) c

end FilterQuery.Rule
