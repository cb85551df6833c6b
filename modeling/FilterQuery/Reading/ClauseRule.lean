import FilterQuery.Query.ClauseSet
import FilterQuery.Reading.ChainRule

/-!
Clause sets. The clauses stand in a fixed order, each at most once:

    SELECT [DISTINCT] fields [WHERE chain] [GROUP BY fields] [ORDER BY field ASC|DESC]
      [OFFSET count] [LIMIT count]
-/

namespace FilterQuery.Rule

/-- A comma and the next name. Without a comma the place stays before the blanks. -/
def nextField : Rule (Option String) := do
  let start ← get
  skipBlanks
  if ← eat "," then
    skipBlanks
    return some (← identifier)
  else
    set start
    return none

def fields : Rule (List String) := do
  let first ← identifier
  return first :: (← many nextField)

def direction : Rule Direction := do
  if ← eatSpacedKeyword .asc then return .asc
  else if ← eatSpacedKeyword .desc then return .desc
  else unexpected .direction

def orderBy : Rule OrderBy := do
  let field ← identifier
  return ⟨field, ← direction⟩

/-- A clause that may be absent: its keyword, blanks and its body. -/
def clause? {α : Type} (k : Keyword) (body : Rule α) : Rule (Option α) := do
  if ← eatSpacedKeyword k then
    blanks
    return some (← body)
  else
    return none

/-- `DISTINCT` and the blanks after it, if the keyword stands here. -/
def eatDistinct : Rule Bool := do
  if ← eatKeyword .distinct then
    blanks
    return true
  else
    return false

/-- The keywords that begin a clause. -/
def clauseKeywords : List Keyword :=
  [.select, .distinct, .where_, .groupBy, .orderBy, .offset, .limit]

/-- Refuses a clause keyword that is left behind the last clause: its clause has been written
already, or its turn has passed. -/
def noClauseLeft : Rule Unit := fun c =>
  let d := c.skipBlanks
  match clauseKeywords.find? fun k => (d.eatKeyword? k).isSome with
  | some k => .error { error := d.errorHere (.misplacedClause k), stop := c }
  | none => .ok ((), c)

def clauseSet (chain : Rule Chain) : Rule ClauseSet := do
  keyword .select
  blanks
  let distinct ← eatDistinct
  let fields ← fields
  let whereClause ← clause? .where_ chain
  let groupBy ← clause? .groupBy Rule.fields
  let orderBy ← clause? .orderBy orderBy
  let offset ← clause? .offset count
  let limit ← clause? .limit count
  noClauseLeft
  return { fields, distinct, whereClause, groupBy := groupBy.getD [], orderBy, offset, limit }

end FilterQuery.Rule
