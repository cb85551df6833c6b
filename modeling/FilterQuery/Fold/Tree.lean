import FilterQuery.Query.Condition

/-!
Filter trees. A chain folds from the left: each link is combined with all that stands before it, so
that `a OR b AND c` is the conjunction of `a OR b` and `c`. A group folds on its own and takes part
as one operand.
-/

namespace FilterQuery

inductive Filter where
  | leaf (condition : Condition)
  | not (inner : Filter)
  | and (left right : Filter)
  | or (left right : Filter)
  deriving DecidableEq, Inhabited

namespace Filter

def combine (left : Filter) : Conjunction → Filter → Filter
  | .and, right => .and left right
  | .or, right => .or left right

def negateIf (negated : Bool) (f : Filter) : Filter :=
  if negated then .not f else f

/-- The conditions at the leaves, from left to right. -/
def leaves : Filter → List Condition
  | .leaf c => [c]
  | .not f => f.leaves
  | .and l r | .or l r => l.leaves ++ r.leaves

def leafCount : Filter → Nat
  | .leaf _ => 1
  | .not f => f.leafCount
  | .and l r | .or l r => l.leafCount + r.leafCount

theorem length_leaves (f : Filter) : f.leaves.length = f.leafCount := by
  induction f <;> simp_all [leaves, leafCount]

def isBinary : Filter → Bool
  | .and .. | .or .. => true
  | .leaf _ | .not _ => false

/-- Every binary node stands in parentheses, and so does whatever NOT applies to. -/
def render : Filter → String
  | .leaf c => c.render
  | .not f => if f.isBinary then "NOT " ++ f.render else "NOT (" ++ f.render ++ ")"
  | .and l r => "(" ++ l.render ++ " " ++ Conjunction.and.text ++ " " ++ r.render ++ ")"
  | .or l r => "(" ++ l.render ++ " " ++ Conjunction.or.text ++ " " ++ r.render ++ ")"

/-- Combines operands from the left. The conjunction of the first joins nothing. -/
def ofOperands? : List (Conjunction × Filter) → Option Filter
  | [] => none
  | (_, first) :: rest => some (rest.foldl (fun left (j, right) => left.combine j right) first)

end Filter

mutual

/-- The operand that a condition stands for; an empty group stands for none. -/
def Condition.operand? : Condition → Option Filter
  | .leaf l => some (.leaf (.leaf l))
  | .group negated body => (Filter.ofOperands? (Chain.operands body)).map (Filter.negateIf negated)

/-- The operands of a chain. A link without a conjunction joins with AND. -/
def Chain.operands : Chain → List (Conjunction × Filter)
  | [] => []
  | ⟨j, negated, c⟩ :: rest =>
    match c.operand? with
    | some f => (j.getD .and, f.negateIf negated) :: Chain.operands rest
    | none => Chain.operands rest

end

/-- The tree of a chain. A chain without any leaf has none. -/
def Chain.foldTree? (chain : Chain) : Option Filter :=
  Filter.ofOperands? (Chain.operands chain)

end FilterQuery
