import FilterQuery.Encoding.Literal
import FilterQuery.Query.Condition

/-!
Conditions and chains in JSON. A condition is a record that tells its kind, a chain is the array of
its links.
-/

namespace FilterQuery

open Decoder

namespace Operator

def jsonName : Operator → String
  | .eq => "eq"
  | .notEq => "not_eq"
  | .gt => "gt"
  | .lt => "lt"
  | .gtEq => "gt_eq"
  | .ltEq => "lt_eq"
  | .like => "like"
  | .notLike => "not_like"
  | .isIn => "in"
  | .notIn => "not_in"
  | .isNull => "is_null"
  | .isNotNull => "is_not_null"
  | .not => "not"

def all : List Operator :=
  [.eq, .notEq, .gt, .lt, .gtEq, .ltEq, .like, .notLike, .isIn, .notIn, .isNull, .isNotNull, .not]

def toJson (op : Operator) : Json :=
  .str op.jsonName

def ofJson : Decoder Operator :=
  oneOf (all.map fun op => (op.jsonName, op))

end Operator

namespace Conjunction

def toJson : Conjunction → Json
  | .and => .str "and"
  | .or => .str "or"

def ofJson : Decoder Conjunction :=
  oneOf [("and", .and), ("or", .or)]

end Conjunction

namespace Leaf

def toJson : Leaf → Json
  | .comparison f op v =>
    .obj [("kind", .str "comparison"), ("field", .str f), ("operator", op.toJson),
      ("value", v.toJson)]
  | .nullCheck f expectsNull =>
    .obj [("kind", .str "null_check"), ("field", .str f), ("expects_null", .bool expectsNull)]
  | .membership f negated vs =>
    .obj [("kind", .str "membership"), ("field", .str f), ("negated", .bool negated),
      ("values", .arr (Literal.itemsToJson vs))]

end Leaf

mutual

def Condition.toJson : Condition → Json
  | .leaf l => l.toJson
  | .group negated body =>
    .obj [("kind", .str "group"), ("body", .arr (Chain.linksToJson body)),
      ("negated", .bool negated)]

def Chain.linksToJson : List Link → List Json
  | [] => []
  | ⟨j, negated, c⟩ :: rest =>
    .obj [("conjunction", Json.ofOption Conjunction.toJson j), ("negated", .bool negated),
      ("condition", c.toJson)] :: Chain.linksToJson rest

end

def Link.toJson (l : Link) : Json :=
  .obj [("conjunction", Json.ofOption Conjunction.toJson l.conjunction),
    ("negated", .bool l.negated), ("condition", l.condition.toJson)]

def Chain.toJson (chain : Chain) : Json :=
  .arr (Chain.linksToJson chain)

def Link.ofJsonWith (condition : Decoder Condition) : Decoder Link :=
  record ["conjunction", "negated", "condition"] fun r =>
    Link.mk <$> r.nullable "conjunction" Conjunction.ofJson <*> r.part "negated" bool
      <*> r.part "condition" condition

namespace Condition

/-- How the members of a condition are read, by its kind. The links of a group are read by
`link`. -/
def formsOfJson (link : Decoder Link) : List (String × Decoder Condition) :=
  [("comparison", record ["field", "operator", "value"] fun r =>
      (fun f op v => .leaf (.comparison f op v)) <$> r.part "field" str
        <*> r.part "operator" Operator.ofJson <*> r.part "value" Literal.ofJson),
    ("null_check", record ["field", "expects_null"] fun r =>
      (fun f expectsNull => .leaf (.nullCheck f expectsNull)) <$> r.part "field" str
        <*> r.part "expects_null" bool),
    ("membership", record ["field", "negated", "values"] fun r =>
      (fun f negated vs => .leaf (.membership f negated vs)) <$> r.part "field" str
        <*> r.part "negated" bool <*> r.part "values" (list Literal.ofJson)),
    ("group", record ["body", "negated"] fun r =>
      (fun body negated => .group negated body) <$> r.part "body" (list link)
        <*> r.part "negated" bool)]

/-- Reads a condition in which groups nest at most `levels` deep, counting the condition itself. All
that stands inside a condition is spelled leniently. -/
def ofJsonUpTo : (levels : Nat) → Decoder Condition
  | 0, _, _ => .error .malformed
  | levels + 1, s, j =>
    let forms := formsOfJson (Link.ofJsonWith (ofJsonUpTo levels))
    variant "kind" (forms.map fun (kind, members) => (kind, lenient members)) s j

def ofJson : Decoder Condition := fun s j =>
  ofJsonUpTo j.height s j

end Condition

def Link.ofJson : Decoder Link :=
  Link.ofJsonWith Condition.ofJson

def Chain.ofJson : Decoder Chain :=
  list Link.ofJson

end FilterQuery
