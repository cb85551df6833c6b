import FilterQuery.Fold.Flat
import FilterQuery.Fold.Tree
import FilterQuery.Query.Dialect

/-!
Chains folded into the shape that a dialect asks for.
-/

namespace FilterQuery

inductive Folded where
  | tree (filter : Filter)
  | flat (entries : List Tagged)
  deriving DecidableEq

def Folded.shape : Folded → FoldShape
  | .tree _ => .tree
  | .flat _ => .flat

/-- There is no tree of a chain without leaves; there is always a flat fold. -/
def Chain.resolve? (chain : Chain) (dialect : Dialect) : Option Folded :=
  match dialect.foldShape with
  | .tree => chain.foldTree?.map .tree
  | .flat => some (.flat chain.flatten)

end FilterQuery
