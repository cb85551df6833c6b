/-!
Decimal numbers as texts: the value of a run of digits, and numbers written with a least width or
with a sign.
-/

namespace FilterQuery.Decimal

/-- The number that a run of decimal digits denotes; the empty run is zero. -/
def value (digits : List Char) : Nat :=
  Nat.ofDigitChars 10 digits 0

/-- Ten to the power of `n`. -/
def scale (n : Nat) : Nat :=
  Nat.pow 10 n

/-- The digits of `n`, with zeros in front up to `width`. -/
def padded (width n : Nat) : String :=
  let digits := Nat.toDigits 10 n
  String.ofList (List.replicate (width - digits.length) '0' ++ digits)

def ofNat (n : Nat) : String :=
  String.ofList (Nat.toDigits 10 n)

/-- A minus sign stands before the digits of a negative number, and nothing before the others. -/
def ofInt (n : Int) : String :=
  if n < 0 then "-" ++ ofNat n.natAbs else ofNat n.natAbs

/-- A number is written in decimal digits, after an optional plus sign, and lies below `bound`. -/
def readBelow? (bound : Nat) (text : String) : Option Nat :=
  let digits := match text.toList with
    | '+' :: cs => cs
    | cs => cs
  if digits.isEmpty || !digits.all Char.isDigit then none
  else if value digits < bound then some (value digits)
  else none

end FilterQuery.Decimal
