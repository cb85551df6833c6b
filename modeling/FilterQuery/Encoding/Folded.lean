import FilterQuery.Encoding.Condition
import FilterQuery.Fold.Folded

/-!
Folded chains in JSON. A node of a tree is an object whose only key names the node.
-/

namespace FilterQuery

open Decoder

namespace Join

def toJson : Join → Json
  | .where_ => .str "where"
  | .and => .str "and"
  | .or => .str "or"

def ofJson : Decoder Join :=
  oneOf [("where", .where_), ("and", .and), ("or", .or)]

end Join

namespace Tagged

def toJson (t : Tagged) : Json :=
  .obj [("join", t.join.toJson), ("negated", .bool t.negated), ("condition", t.condition.toJson)]

def ofJson : Decoder Tagged :=
  record ["join", "negated", "condition"] fun r =>
    mk <$> r.part "join" Join.ofJson <*> r.part "negated" bool
      <*> r.part "condition" Condition.ofJson

end Tagged

namespace Filter

def toJson : Filter → Json
  | .leaf c => .obj [("leaf", c.toJson)]
  | .not f => .obj [("not", f.toJson)]
  | .and l r => .obj [("and", .arr [l.toJson, r.toJson])]
  | .or l r => .obj [("or", .arr [l.toJson, r.toJson])]

/-- Two operands; that there are more is found after the second. -/
def pairOfJson (operand : Decoder Filter) : Decoder (Filter × Filter)
  | s, .arr items => do
    match ← (items.take 2).mapM (operand s), items.length with
    | [left, right], 2 => return (left, right)
    | _, _ => throw .malformed
  | _, _ => .error .malformed

/-- Reads a tree of at most `levels` levels. -/
def ofJsonUpTo : (levels : Nat) → Decoder Filter
  | levels + 1, s, .obj [(node, j)] =>
    match node with
    | "leaf" => .leaf <$> Condition.ofJson s j
    | "not" => .not <$> ofJsonUpTo levels s j
    | "and" => (fun (l, r) => .and l r) <$> pairOfJson (ofJsonUpTo levels) s j
    | "or" => (fun (l, r) => .or l r) <$> pairOfJson (ofJsonUpTo levels) s j
    | _ => .error .malformed
  | _, _, _ => .error .malformed

def ofJson : Decoder Filter := fun s j =>
  ofJsonUpTo j.height s j

end Filter

namespace Folded

def toJson : Folded → Json
  | .tree f => .obj [("shape", .str "tree"), ("value", f.toJson)]
  | .flat entries => .obj [("shape", .str "flat"), ("value", .arr (entries.map Tagged.toJson))]

def ofJson : Decoder Folded :=
  tagged "shape" [("tree", fun s j => .tree <$> Filter.ofJson s j),
    ("flat", fun s j => .flat <$> list Tagged.ofJson s j)]

end Folded

end FilterQuery
