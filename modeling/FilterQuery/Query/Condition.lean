import FilterQuery.Query.Operator
import FilterQuery.Value.Literal

/-!
Conditions and chains. A chain lists conditions joined by AND and OR, which bind equally and apply
from left to right; a group puts a chain in parentheses and stands as one condition.

The types hold every chain that can be read from data. What a parser produces satisfies more: see
`Chain.push`, which keeps the conjunction off the first link and puts one on every other.
-/

namespace FilterQuery

/-- A condition on one field. -/
inductive Leaf where
  | comparison (field : String) (operator : Operator) (value : Literal)
  | nullCheck (field : String) (expectsNull : Bool)
  | membership (field : String) (negated : Bool) (values : List Literal)
  deriving DecidableEq, Inhabited

mutual

inductive Condition where
  | leaf (leaf : Leaf)
  | group (negated : Bool) (body : List Link)

/-- One element of a chain: how it joins the elements before it, whether NOT stands before it, and
the condition itself. -/
structure Link where
  conjunction : Option Conjunction
  negated : Bool
  condition : Condition

end

abbrev Chain := List Link

namespace Leaf

def field : Leaf → String
  | .comparison f .. | .nullCheck f _ | .membership f .. => f

def operator : Leaf → Operator
  | .comparison _ op _ => op
  | .nullCheck _ true => .isNull
  | .nullCheck _ false => .isNotNull
  | .membership _ false _ => .isIn
  | .membership _ true _ => .notIn

def render : Leaf → String
  | .comparison f op v => f ++ " " ++ op.text ++ " " ++ v.render
  | .membership f negated vs =>
    f ++ " " ++ (Leaf.membership f negated vs).operator.text ++ " " ++ (Literal.list vs).render
  | l@(.nullCheck f _) => f ++ " " ++ l.operator.text

end Leaf

mutual

def Condition.decEq : (a b : Condition) → Decidable (a = b)
  | .leaf a, .leaf b => decidable_of_iff (a = b) (by simp)
  | .group n a, .group m b =>
    have := Chain.decEq a b
    decidable_of_iff (n = m ∧ a = b) (by simp)
  | .leaf _, .group .. | .group .., .leaf _ => isFalse (by simp)

def Link.decEq : (a b : Link) → Decidable (a = b)
  | ⟨c, n, x⟩, ⟨d, m, y⟩ =>
    have := Condition.decEq x y
    decidable_of_iff (c = d ∧ n = m ∧ x = y) (by simp)

def Chain.decEq : (a b : List Link) → Decidable (a = b)
  | [], [] => isTrue rfl
  | [], _ :: _ | _ :: _, [] => isFalse (by simp)
  | a :: as, b :: bs =>
    have := Link.decEq a b
    have := Chain.decEq as bs
    decidable_of_iff (a = b ∧ as = bs) (by simp)

end

instance : DecidableEq Condition := Condition.decEq
instance : DecidableEq Link := Link.decEq
instance : Inhabited Condition := ⟨.leaf default⟩
instance : Inhabited Link := ⟨none, false, default⟩

/-- `NOT ` before what is negated, and nothing before the rest. -/
def notText (negated : Bool) : String :=
  if negated then "NOT " else ""

mutual

/-- The canonical text. -/
def Condition.render : Condition → String
  | .leaf l => l.render
  | .group negated body => notText negated ++ "(" ++ Chain.render body ++ ")"

/-- The links in order, with a conjunction, where there is one, between blanks. -/
def Chain.render : Chain → String
  | [] => ""
  | ⟨none, negated, c⟩ :: rest => notText negated ++ c.render ++ Chain.render rest
  | ⟨some j, negated, c⟩ :: rest =>
    " " ++ j.text ++ " " ++ notText negated ++ c.render ++ Chain.render rest

end

/-- A link alone is written without its conjunction. -/
def Link.render (l : Link) : String :=
  notText l.negated ++ l.condition.render

mutual

/-- The deepest nesting of groups, counting the condition itself if it is one. -/
def Condition.depth : Condition → Nat
  | .leaf _ => 0
  | .group _ body => 1 + Chain.depth body

def Chain.depth : Chain → Nat
  | [] => 0
  | ⟨_, _, c⟩ :: rest => max c.depth (Chain.depth rest)

end

theorem Chain.depth_cons (l : Link) (ch : Chain) :
    Chain.depth (l :: ch) = max l.condition.depth (Chain.depth ch) := by
  cases l
  rfl

/-- A comparison was asked for with an operator that compares nothing. -/
structure NotAComparison where
  operator : Operator
  deriving DecidableEq, Repr

def NotAComparison.message (e : NotAComparison) : String :=
  e.operator.text ++ " is not a comparison operator"

namespace Condition

def comparison (field : String) (op : Operator) (value : Literal) :
    Except NotAComparison Condition :=
  if op.isComparison then .ok (.leaf (.comparison field op value)) else .error ⟨op⟩

def eq (field : String) (value : Literal) : Condition :=
  .leaf (.comparison field .eq value)

def isNull (field : String) : Condition :=
  .leaf (.nullCheck field true)

def isNotNull (field : String) : Condition :=
  .leaf (.nullCheck field false)

def inList (field : String) (values : List Literal) : Condition :=
  .leaf (.membership field false values)

def notInList (field : String) (values : List Literal) : Condition :=
  .leaf (.membership field true values)

def isLeaf : Condition → Bool
  | .leaf _ => true
  | .group .. => false

def field? : Condition → Option String
  | .leaf l => some l.field
  | .group .. => none

def operator? : Condition → Option Operator
  | .leaf l => some l.operator
  | .group .. => none

end Condition

namespace Chain

def single (condition : Condition) : Chain :=
  [⟨none, false, condition⟩]

/-- Appends a link. The first link of a chain joins nothing, so that its conjunction is dropped. -/
def push (chain : Chain) (conjunction : Conjunction) (negated : Bool) (condition : Condition) :
    Chain :=
  chain ++ [⟨if chain.isEmpty then none else some conjunction, negated, condition⟩]

def and (chain : Chain) (condition : Condition) : Chain :=
  push chain .and false condition

def or (chain : Chain) (condition : Condition) : Chain :=
  push chain .or false condition

def not (chain : Chain) (conjunction : Conjunction) (condition : Condition) : Chain :=
  push chain conjunction true condition

end Chain

end FilterQuery
