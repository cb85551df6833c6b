import FilterQuery.Json.Value

/-!
Reading values out of JSON.
-/

namespace FilterQuery

/-- A JSON value that is not what was asked for. A timestamp whose fraction does not fit its
precision is told apart from all else that may be wrong. -/
inductive DecodeError where
  | malformed
  | unfitTimestamp (precision : Nat)
  deriving DecidableEq, Repr

/-- How names are spelled. A name is a text, or the only key of an object, with null as its value.
Lenient spelling also allows an empty object there, and a number for the form of a record. -/
inductive Spelling where
  | strict
  | lenient
  deriving DecidableEq, Repr

abbrev Decoder (α : Type) := Spelling → Json → Except DecodeError α

namespace Decoder

variable {α : Type}

/-- A value that must be there. -/
def need : Option α → Except DecodeError α
  | some a => .ok a
  | none => .error .malformed

/-- Reads leniently, however the value around this one is read. -/
def lenient (value : Decoder α) : Decoder α := fun _ j =>
  value .lenient j

def bool : Decoder Bool
  | _, .bool b => .ok b
  | _, _ => .error .malformed

def str : Decoder String
  | _, .str s => .ok s
  | _, _ => .error .malformed

def int64 : Decoder Int64
  | _, .int n =>
    if Int64.minValue.toInt ≤ n ∧ n ≤ Int64.maxValue.toInt then .ok (Int64.ofInt n)
    else .error .malformed
  | _, _ => .error .malformed

/-- An integer from zero up to, but not including, `bound`. -/
def natBelow (bound : Nat) : Decoder Nat
  | _, .int n => if 0 ≤ n ∧ n < bound then .ok n.toNat else .error .malformed
  | _, _ => .error .malformed

def uint64 : Decoder UInt64 := fun s j =>
  (natBelow UInt64.size s j).map UInt64.ofNat

def list (item : Decoder α) : Decoder (List α)
  | s, .arr items => items.mapM (item s)
  | _, _ => .error .malformed

/-- Null is read as an absent value. -/
def nullable (value : Decoder α) : Decoder (Option α)
  | _, .null => .ok none
  | s, j => some <$> value s j

/-- What may stand with a name that is the only key of an object. -/
def isBlank : Spelling → Json → Bool
  | _, .null => true
  | .lenient, .obj [] => true
  | _, _ => false

/-- One of the named values. -/
def oneOf (names : List (String × α)) : Decoder α
  | _, .str name => need (names.lookup name)
  | s, .obj [(name, j)] => if isBlank s j then need (names.lookup name) else .error .malformed
  | _, _ => .error .malformed

end Decoder

end FilterQuery
