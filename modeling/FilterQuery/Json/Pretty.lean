import FilterQuery.Json.Value
import FilterQuery.Text.Decimal

/-!
JSON texts over several lines: one item or member a line, two blanks for each level. Empty arrays
and objects stay on one line.
-/

namespace FilterQuery.Json

/-- Quotes, backslashes and control characters are escaped, and nothing else is. -/
def escape (c : Char) : List Char :=
  if c = '"' then ['\\', '"']
  else if c = '\\' then ['\\', '\\']
  else if c.toNat = 0x08 then ['\\', 'b']
  else if c.toNat = 0x0C then ['\\', 'f']
  else if c = '\n' then ['\\', 'n']
  else if c = '\r' then ['\\', 'r']
  else if c = '\t' then ['\\', 't']
  else if c.toNat < 0x20 then
    ['\\', 'u', '0', '0', Nat.digitChar (c.toNat / 16), Nat.digitChar (c.toNat % 16)]
  else [c]

def quote (s : String) : String :=
  "\"" ++ String.ofList (s.toList.flatMap escape) ++ "\""

/-- A new line at a level. -/
def newline (level : Nat) : String :=
  "\n" ++ String.ofList (List.replicate (2 * level) ' ')

mutual

/-- The text of a value that stands at `level`. -/
def pretty (level : Nat) : Json → String
  | .null => "null"
  | .bool true => "true"
  | .bool false => "false"
  | .int n => Decimal.ofInt n
  | .decimal text => text
  | .str s => quote s
  | .arr [] => "[]"
  | .arr (x :: rest) =>
    "[" ++ newline (level + 1) ++ pretty (level + 1) x ++ prettyItems (level + 1) rest ++
      newline level ++ "]"
  | .obj [] => "\x7b\x7d"
  | .obj ((k, x) :: rest) =>
    "\x7b" ++ newline (level + 1) ++ quote k ++ ": " ++ pretty (level + 1) x ++
      prettyMembers (level + 1) rest ++ newline level ++ "\x7d"

/-- The items after the first. -/
def prettyItems (level : Nat) : List Json → String
  | [] => ""
  | x :: rest => "," ++ newline level ++ pretty level x ++ prettyItems level rest

/-- The members after the first. -/
def prettyMembers (level : Nat) : List (String × Json) → String
  | [] => ""
  | (k, x) :: rest =>
    "," ++ newline level ++ quote k ++ ": " ++ pretty level x ++ prettyMembers level rest

end

end FilterQuery.Json
