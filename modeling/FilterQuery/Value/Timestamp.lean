import FilterQuery.Calendar.Iso

/-!
Timestamps: a date-time with the number of fraction digits that its text shows. `ofParts?` checks
that the fraction fits that number; `ofDateTime` shows none and keeps the fraction.
-/

namespace FilterQuery

open Calendar

/-- A timestamp shows at most microseconds. -/
def maxPrecision : Nat := 6

structure Timestamp where
  moment : DateTime
  precision : Nat
  deriving DecidableEq

namespace Timestamp

/-- The timestamp with these parts. There is none if the date or the time does not exist, or if the
microseconds need more digits than `precision` shows. -/
def ofParts? (year : Int) (month day hour minute second micros precision : Nat) :
    Option Timestamp :=
  if precision ≤ maxPrecision ∧ micros % Decimal.scale (maxPrecision - precision) = 0 ∧
      micros < 1000000 then
    (DateTime.of? year month day hour minute second (1000 * micros)).map fun moment =>
      ⟨moment, precision⟩
  else
    none

def ofDateTime (moment : DateTime) : Timestamp :=
  ⟨moment, 0⟩

/-- The fraction of the second, in microseconds; a million or more in a leap second. -/
def micros (t : Timestamp) : Nat :=
  t.moment.time.nanos / 1000

def text (t : Timestamp) : String :=
  t.moment.date.text ++ " " ++ t.moment.time.text ++
    if t.precision = 0 then ""
    else "." ++ Decimal.padded t.precision (t.micros / Decimal.scale (maxPrecision - t.precision))

/-- The fraction fits the precision, and there is no leap second. -/
def Fits (t : Timestamp) : Prop :=
  t.precision ≤ maxPrecision ∧ t.moment.time.nanos < 1000000000 ∧
    t.moment.time.nanos % Decimal.scale (9 - t.precision) = 0

instance (t : Timestamp) : Decidable t.Fits :=
  inferInstanceAs (Decidable (_ ∧ _ ∧ _))

/-- The same timestamp built again from its parts, which succeeds when its fraction fits. -/
def check? (t : Timestamp) : Option Timestamp :=
  if t.moment.time.nanos % 1000 = 0 then
    ofParts? t.moment.date.year t.moment.date.month t.moment.date.day t.moment.time.hour
      t.moment.time.minute t.moment.time.second t.micros t.precision
  else
    none

end Timestamp

end FilterQuery
