import FilterQuery.Query.Condition

/-!
Flat folds: the links of a chain in order, each tagged with how it joins the entries before it.
-/

namespace FilterQuery

inductive Join where
  | where_ | and | or
  deriving DecidableEq, Repr

namespace Join

def text : Join → String
  | .where_ => Keyword.where_.text
  | .and => Keyword.and.text
  | .or => Keyword.or.text

def ofConjunction : Conjunction → Join
  | .and => .and
  | .or => .or

end Join

structure Tagged where
  join : Join
  negated : Bool
  condition : Condition
  deriving DecidableEq

def Tagged.render (t : Tagged) : String :=
  t.join.text ++ " " ++ notText t.negated ++ t.condition.render

/-- A link that is not the first. One without a conjunction joins with AND. -/
def Link.tagged (l : Link) : Tagged :=
  ⟨.ofConjunction (l.conjunction.getD .and), l.negated, l.condition⟩

/-- The first link opens the list, whatever its conjunction. -/
def Chain.flatten : Chain → List Tagged
  | [] => []
  | first :: rest => ⟨.where_, first.negated, first.condition⟩ :: rest.map Link.tagged

end FilterQuery
