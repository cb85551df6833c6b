import FilterQuery.Fold.Tree

/-!
Parameterised SQL conditions: the values of a filter are bound as parameters, in order, and only
their marks stand in the text.
-/

namespace FilterQuery

structure Sql where
  text : String
  params : List Literal

namespace Sql

/-- Text without parameters. -/
def plain (text : String) : Sql :=
  ⟨text, []⟩

def append (a b : Sql) : Sql :=
  ⟨a.text ++ b.text, a.params ++ b.params⟩

instance : Append Sql := ⟨append⟩

def parenthesized (a : Sql) : Sql :=
  plain "(" ++ a ++ plain ")"

/-- No SQL list is empty: nothing is a member of the empty list, and everything is outside it. -/
def ofLeaf : Leaf → Sql
  | .comparison f op v => ⟨f ++ " " ++ op.text ++ " ?", [v]⟩
  | .nullCheck f expectsNull => plain (f ++ " " ++ (Leaf.nullCheck f expectsNull).operator.text)
  | .membership _ negated [] => plain (if negated then "1 = 1" else "1 = 0")
  | .membership f negated (v :: vs) =>
    ⟨f ++ " " ++ (Leaf.membership f negated (v :: vs)).operator.text ++ " (" ++
      ", ".intercalate ((v :: vs).map fun _ => "?") ++ ")", v :: vs⟩

/-- The condition that a filter stands for. A filter with a group at a leaf has none. -/
def ofFilter? : Filter → Option Sql
  | .leaf (.leaf l) => some (ofLeaf l)
  | .leaf (.group ..) => none
  | .not f => do
    let inner ← ofFilter? f
    return plain "NOT " ++ inner.parenthesized
  | .and l r => do
    let left ← ofFilter? l
    let right ← ofFilter? r
    return (left ++ plain " AND " ++ right).parenthesized
  | .or l r => do
    let left ← ofFilter? l
    let right ← ofFilter? r
    return (left ++ plain " OR " ++ right).parenthesized

end Sql

end FilterQuery
