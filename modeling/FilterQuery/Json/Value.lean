/-!
JSON values. Integers stand apart from all other numbers, and an object keeps its members in order.
-/

namespace FilterQuery

inductive Json where
  | null
  | bool (value : Bool)
  | int (value : Int)
  /-- A number that is not written as an integer, as it is written. -/
  | decimal (text : String)
  | str (value : String)
  | arr (items : List Json)
  | obj (members : List (String × Json))
  deriving Inhabited

namespace Json

mutual

def decEq : (a b : Json) → Decidable (a = b)
  | .null, .null => isTrue rfl
  | .bool a, .bool b => decidable_of_iff (a = b) (by simp)
  | .int a, .int b => decidable_of_iff (a = b) (by simp)
  | .decimal a, .decimal b => decidable_of_iff (a = b) (by simp)
  | .str a, .str b => decidable_of_iff (a = b) (by simp)
  | .arr a, .arr b =>
    have := decEqItems a b
    decidable_of_iff (a = b) (by simp)
  | .obj a, .obj b =>
    have := decEqMembers a b
    decidable_of_iff (a = b) (by simp)
  | .null, .bool _ | .null, .int _ | .null, .decimal _ | .null, .str _ | .null, .arr _
  | .null, .obj _ | .bool _, .null | .bool _, .int _ | .bool _, .decimal _ | .bool _, .str _
  | .bool _, .arr _ | .bool _, .obj _ | .int _, .null | .int _, .bool _ | .int _, .decimal _
  | .int _, .str _ | .int _, .arr _ | .int _, .obj _ | .decimal _, .null | .decimal _, .bool _
  | .decimal _, .int _ | .decimal _, .str _ | .decimal _, .arr _ | .decimal _, .obj _
  | .str _, .null | .str _, .bool _ | .str _, .int _ | .str _, .decimal _ | .str _, .arr _
  | .str _, .obj _ | .arr _, .null | .arr _, .bool _ | .arr _, .int _ | .arr _, .decimal _
  | .arr _, .str _ | .arr _, .obj _ | .obj _, .null | .obj _, .bool _ | .obj _, .int _
  | .obj _, .decimal _ | .obj _, .str _ | .obj _, .arr _ => isFalse (by simp)

def decEqItems : (a b : List Json) → Decidable (a = b)
  | [], [] => isTrue rfl
  | [], _ :: _ | _ :: _, [] => isFalse (by simp)
  | a :: as, b :: bs =>
    have := decEq a b
    have := decEqItems as bs
    decidable_of_iff (a = b ∧ as = bs) (by simp)

def decEqMembers : (a b : List (String × Json)) → Decidable (a = b)
  | [], [] => isTrue rfl
  | [], _ :: _ | _ :: _, [] => isFalse (by simp)
  | (k, a) :: as, (l, b) :: bs =>
    have := decEq a b
    have := decEqMembers as bs
    decidable_of_iff ((k = l ∧ a = b) ∧ as = bs) (by simp)

end

instance : DecidableEq Json := decEq

mutual

/-- The deepest nesting of values, counting the value itself. -/
def height : Json → Nat
  | .arr items => 1 + heightItems items
  | .obj members => 1 + heightMembers members
  | .null | .bool _ | .int _ | .decimal _ | .str _ => 1

def heightItems : List Json → Nat
  | [] => 0
  | x :: rest => max x.height (heightItems rest)

def heightMembers : List (String × Json) → Nat
  | [] => 0
  | (_, x) :: rest => max x.height (heightMembers rest)

end

/-- A value that may be absent is written as null. -/
def ofOption {α : Type} (toJson : α → Json) : Option α → Json
  | some a => toJson a
  | none => .null

end Json

end FilterQuery
