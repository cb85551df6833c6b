import FilterQuery.Json.Record
import FilterQuery.Value.Literal

/-!
Literals in JSON. Dates and date-times are texts; every literal is a record of its type and its
value.
-/

namespace FilterQuery

open Calendar Decoder

def Calendar.Date.ofJson : Decoder Date
  | _, .str text => need (Date.read? text)
  | _, _ => .error .malformed

def Calendar.DateTime.ofJson : Decoder DateTime
  | _, .str text => need (DateTime.read? text)
  | _, _ => .error .malformed

namespace Timestamp

def toJson (t : Timestamp) : Json :=
  .obj [("datetime", .str t.moment.text), ("precision", .int t.precision)]

def partsOfJson : Decoder Timestamp :=
  record ["datetime", "precision"] fun r =>
    mk <$> r.part "datetime" DateTime.ofJson <*> r.part "precision" (natBelow 256)

/-- Reads a timestamp, and checks that its fraction fits its precision. -/
def ofJson : Decoder Timestamp := fun s j => do
  let t ← partsOfJson s j
  match t.check? with
  | some t => return t
  | none => throw (.unfitTimestamp t.precision)

/-- The wording for a timestamp whose fraction does not fit. -/
def unfitMessage (precision : Nat) : String :=
  "timestamp fraction does not fit precision " ++ Decimal.ofNat precision

end Timestamp

namespace Literal

def typed (type : String) (value : Json) : Json :=
  .obj [("type", .str type), ("value", value)]

mutual

def toJson : Literal → Json
  | .integer n => typed "integer" (.int n.toInt)
  | .text s => typed "text" (.str s)
  | .boolean b => typed "boolean" (.bool b)
  | .date d => typed "date" (.str d.text)
  | .timestamp t => typed "timestamp" t.toJson
  | .list items => typed "list" (.arr (itemsToJson items))

def itemsToJson : List Literal → List Json
  | [] => []
  | l :: rest => l.toJson :: itemsToJson rest

end

/-- How the value of a literal is read, by the type of the literal. -/
def valuesOfJson (item : Decoder Literal) : List (String × Decoder Literal) :=
  [("integer", fun s j => .integer <$> int64 s j),
    ("text", fun s j => .text <$> str s j),
    ("boolean", fun s j => .boolean <$> bool s j),
    ("date", fun s j => .date <$> Date.ofJson s j),
    ("timestamp", fun s j => .timestamp <$> Timestamp.ofJson s j),
    ("list", fun s j => .list <$> Decoder.list item s j)]

/-- Reads a literal in which lists nest at most `levels` deep, counting the literal itself. -/
def ofJsonUpTo : (levels : Nat) → Decoder Literal
  | 0, _, _ => .error .malformed
  | levels + 1, s, j => tagged "type" (valuesOfJson (ofJsonUpTo levels)) s j

def ofJson : Decoder Literal := fun s j =>
  ofJsonUpTo j.height s j

end Literal

end FilterQuery
