import FilterQuery.Query.Condition

/-!
Clause sets: what a SELECT text asks for. Names stand as they were written.
-/

namespace FilterQuery

structure OrderBy where
  field : String
  direction : Direction
  deriving DecidableEq

structure ClauseSet where
  fields : List String := []
  distinct : Bool := false
  whereClause : Option Chain := none
  groupBy : List String := []
  orderBy : Option OrderBy := none
  offset : Option UInt64 := none
  limit : Option UInt64 := none
  deriving DecidableEq

namespace ClauseSet

def renderFields (fields : List String) : String :=
  ", ".intercalate fields

/-- The text of an optional clause; an absent clause has none. -/
def renderClause (keyword : Keyword) (body : Option String) : String :=
  match body with
  | some text => " " ++ keyword.text ++ " " ++ text
  | none => ""

/-- The canonical text: the clauses that are present, in their fixed order. -/
def render (s : ClauseSet) : String :=
  Keyword.select.text ++ " " ++ (if s.distinct then Keyword.distinct.text ++ " " else "") ++
    renderFields s.fields ++
    renderClause .where_ (s.whereClause.map Chain.render) ++
    renderClause .groupBy (if s.groupBy.isEmpty then none else some (renderFields s.groupBy)) ++
    renderClause .orderBy (s.orderBy.map fun o => o.field ++ " " ++ o.direction.text) ++
    renderClause .offset (s.offset.map fun n => Decimal.ofNat n.toNat) ++
    renderClause .limit (s.limit.map fun n => Decimal.ofNat n.toNat)

end ClauseSet

end FilterQuery
