import FilterQuery.Value.Timestamp

/-!
Literals, the values that a filter compares with, and their canonical texts.
-/

namespace FilterQuery

open Calendar

inductive Literal where
  | integer (value : Int64)
  | text (value : String)
  | boolean (value : Bool)
  | date (value : Date)
  | timestamp (value : Timestamp)
  | list (items : List Literal)
  deriving Inhabited

namespace Literal

mutual

def decEq : (a b : Literal) → Decidable (a = b)
  | .integer a, .integer b => decidable_of_iff (a = b) (by simp)
  | .text a, .text b => decidable_of_iff (a = b) (by simp)
  | .boolean a, .boolean b => decidable_of_iff (a = b) (by simp)
  | .date a, .date b => decidable_of_iff (a = b) (by simp)
  | .timestamp a, .timestamp b => decidable_of_iff (a = b) (by simp)
  | .list a, .list b =>
    have := decEqList a b
    decidable_of_iff (a = b) (by simp)
  | .integer _, .text _ | .integer _, .boolean _ | .integer _, .date _ | .integer _, .timestamp _
  | .integer _, .list _ | .text _, .integer _ | .text _, .boolean _ | .text _, .date _
  | .text _, .timestamp _ | .text _, .list _ | .boolean _, .integer _ | .boolean _, .text _
  | .boolean _, .date _ | .boolean _, .timestamp _ | .boolean _, .list _ | .date _, .integer _
  | .date _, .text _ | .date _, .boolean _ | .date _, .timestamp _ | .date _, .list _
  | .timestamp _, .integer _ | .timestamp _, .text _ | .timestamp _, .boolean _
  | .timestamp _, .date _ | .timestamp _, .list _ | .list _, .integer _ | .list _, .text _
  | .list _, .boolean _ | .list _, .date _ | .list _, .timestamp _ => isFalse (by simp)

def decEqList : (a b : List Literal) → Decidable (a = b)
  | [], [] => isTrue rfl
  | [], _ :: _ | _ :: _, [] => isFalse (by simp)
  | a :: as, b :: bs =>
    have := decEq a b
    have := decEqList as bs
    decidable_of_iff (a = b ∧ as = bs) (by simp)

end

instance : DecidableEq Literal := decEq

/-- The date literal with these parts, if the day exists. -/
def date? (year : Int) (month day : Nat) : Option Literal :=
  (Date.of? year month day).map .date

def typeName : Literal → String
  | .integer _ => "integer"
  | .text _ => "text"
  | .boolean _ => "boolean"
  | .date _ => "date"
  | .timestamp _ => "timestamp"
  | .list _ => "list"

/-- A list holds integers and texts. -/
def isListElement : Literal → Bool
  | .integer _ | .text _ => true
  | _ => false

def booleanText : Bool → String
  | true => "true"
  | false => "false"

mutual

/-- The canonical text. Quotes inside a text are not marked, so that such a text cannot be read
back. -/
def render : Literal → String
  | .integer n => Decimal.ofInt n.toInt
  | .text s => "'" ++ s ++ "'"
  | .boolean b => booleanText b
  | .date d => "DATE '" ++ d.text ++ "'"
  | .timestamp t => "TIMESTAMP '" ++ t.text ++ "'"
  | .list items => "(" ++ renderItems items ++ ")"

/-- The items with a comma and a blank between them. -/
def renderItems : List Literal → String
  | [] => ""
  | [l] => l.render
  | l :: m :: rest => l.render ++ ", " ++ renderItems (m :: rest)

end

end Literal

end FilterQuery
