import FilterQuery.Encoding.Condition
import FilterQuery.Query.ClauseSet

/-!
Clause sets in JSON. Absent clauses are null, and may be left out where a clause set is read.
-/

namespace FilterQuery

open Decoder

namespace Direction

def toJson : Direction → Json
  | .asc => .str "asc"
  | .desc => .str "desc"

def ofJson : Decoder Direction :=
  oneOf [("asc", .asc), ("desc", .desc)]

end Direction

namespace OrderBy

def toJson (o : OrderBy) : Json :=
  .obj [("field", .str o.field), ("direction", o.direction.toJson)]

def ofJson : Decoder OrderBy :=
  record ["field", "direction"] fun r =>
    mk <$> r.part "field" str <*> r.part "direction" Direction.ofJson

end OrderBy

namespace ClauseSet

def names (fields : List String) : Json :=
  .arr (fields.map .str)

def countToJson (n : UInt64) : Json :=
  .int n.toNat

def toJson (s : ClauseSet) : Json :=
  .obj [("fields", names s.fields), ("distinct", .bool s.distinct),
    ("where_clause", Json.ofOption Chain.toJson s.whereClause), ("group_by", names s.groupBy),
    ("order_by", Json.ofOption OrderBy.toJson s.orderBy),
    ("offset", Json.ofOption countToJson s.offset), ("limit", Json.ofOption countToJson s.limit)]

def ofJson : Decoder ClauseSet :=
  record ["fields", "distinct", "where_clause", "group_by", "order_by", "offset", "limit"] fun r =>
    mk <$> r.part "fields" (list str) <*> r.part "distinct" bool
      <*> r.nullable "where_clause" Chain.ofJson <*> r.part "group_by" (list str)
      <*> r.nullable "order_by" OrderBy.ofJson <*> r.nullable "offset" uint64
      <*> r.nullable "limit" uint64

end ClauseSet

end FilterQuery
