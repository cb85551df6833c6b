import FilterQuery.Query.Keyword

/-!
The operators of conditions, the conjunctions that join conditions, and the directions of an order.
-/

namespace FilterQuery

inductive Operator where
  | eq | notEq | gt | lt | gtEq | ltEq | like | notLike
  | isIn | notIn | isNull | isNotNull | not
  deriving DecidableEq, Repr

namespace Operator

/-- The symbols of comparisons. A symbol stands before each of its own beginnings, so that the first
one that a text starts with is the longest. -/
def symbols : List (String × Operator) :=
  [(">=", .gtEq), ("<=", .ltEq), ("!=", .notEq), ("<>", .notEq), ("=", .eq), (">", .gt), ("<", .lt)]

def text : Operator → String
  | .eq => "="
  | .notEq => "!="
  | .gt => ">"
  | .lt => "<"
  | .gtEq => ">="
  | .ltEq => "<="
  | .like => "LIKE"
  | .notLike => "NOT LIKE"
  | .isIn => "IN"
  | .notIn => "NOT IN"
  | .isNull => "IS NULL"
  | .isNotNull => "IS NOT NULL"
  | .not => "NOT"

/-- A comparison takes one literal on its right. -/
def isComparison : Operator → Bool
  | .eq | .notEq | .gt | .lt | .gtEq | .ltEq | .like | .notLike => true
  | .isIn | .notIn | .isNull | .isNotNull | .not => false

/-- The operator that holds exactly when this one does not. -/
def negate? : Operator → Option Operator
  | .eq => some .notEq
  | .notEq => some .eq
  | .gt => some .ltEq
  | .ltEq => some .gt
  | .lt => some .gtEq
  | .gtEq => some .lt
  | .like => some .notLike
  | .notLike => some .like
  | .isIn => some .notIn
  | .notIn => some .isIn
  | .isNull => some .isNotNull
  | .isNotNull => some .isNull
  | .not => none

end Operator

inductive Conjunction where
  | and | or
  deriving DecidableEq, Repr

namespace Conjunction

def keyword : Conjunction → Keyword
  | .and => .and
  | .or => .or

def text (c : Conjunction) : String :=
  c.keyword.text

end Conjunction

inductive Direction where
  | asc | desc
  deriving DecidableEq, Repr

namespace Direction

def keyword : Direction → Keyword
  | .asc => .asc
  | .desc => .desc

def text (d : Direction) : String :=
  d.keyword.text

end Direction

end FilterQuery
