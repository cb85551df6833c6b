import FilterQuery.Text.Decimal

/-!
Fixed forms of dates and times: every number has its own width, and nothing stands around them. A
form is given by an example, in which each digit stands for any digit.
-/

namespace FilterQuery.Calendar.Fixed

/-- The text has the form of the example: a digit where it has one, and the same character
elsewhere. -/
def fits : List Char → List Char → Bool
  | [], [] => true
  | e :: es, c :: cs => (if e.isDigit then c.isDigit else c == e) && fits es cs
  | _, _ => false

/-- The number in the `width` characters from `start` on. -/
def numberAt (cs : List Char) (start width : Nat) : Nat :=
  Decimal.value ((cs.drop start).take width)

structure DateParts where
  year : Nat
  month : Nat
  day : Nat
  deriving DecidableEq, Repr

def dateParts? (cs : List Char) : Option DateParts :=
  if fits "0000-00-00".toList cs then some ⟨numberAt cs 0 4, numberAt cs 5 2, numberAt cs 8 2⟩
  else none

structure TimestampParts extends DateParts where
  hour : Nat
  minute : Nat
  second : Nat
  micros : Nat
  precision : Nat
  deriving DecidableEq, Repr

/-- Microseconds and number of digits of what follows the seconds: nothing, or a dot and one to six
digits. -/
def fraction? : List Char → Option (Nat × Nat)
  | [] => some (0, 0)
  | c :: run =>
    if c = '.' ∧ 1 ≤ run.length ∧ run.length ≤ 6 ∧ run.all Char.isDigit then
      some (Decimal.value run * Decimal.scale (6 - run.length), run.length)
    else
      none

def timestampParts? (cs : List Char) : Option TimestampParts :=
  let front := cs.take 19
  if fits "0000-00-00 00:00:00".toList front then
    (fraction? (cs.drop 19)).map fun (micros, precision) =>
      { year := numberAt front 0 4, month := numberAt front 5 2, day := numberAt front 8 2
        hour := numberAt front 11 2, minute := numberAt front 14 2, second := numberAt front 17 2
        micros, precision }
  else
    none

end FilterQuery.Calendar.Fixed
