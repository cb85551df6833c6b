import FilterQuery.Calendar.DateTime
import FilterQuery.Text.Decimal

/-!
The written forms of dates and times, `2024-02-29` and `2024-02-29T23:59:58.120`, and their readers.
Writing pads every number. Reading takes unpadded numbers too, and blanks around every part.
-/

namespace FilterQuery.Calendar

/-- A year of four digits is written bare, any other with its sign. -/
def yearText (year : Int) : String :=
  if 0 ≤ year ∧ year ≤ 9999 then Decimal.padded 4 year.natAbs
  else (if year < 0 then "-" else "+") ++ Decimal.padded 4 year.natAbs

def Date.text (d : Date) : String :=
  yearText d.year ++ "-" ++ Decimal.padded 2 d.month ++ "-" ++ Decimal.padded 2 d.day

namespace TimeOfDay

/-- Hours, minutes and seconds; a leap second is written as second 60. -/
def text (t : TimeOfDay) : String :=
  Decimal.padded 2 t.hour ++ ":" ++ Decimal.padded 2 t.minute ++ ":" ++
    Decimal.padded 2 (t.second + t.nanos / 1000000000)

/-- The fraction of the second in the fewest groups of three digits that are exact. -/
def fractionText (t : TimeOfDay) : String :=
  let nanos := t.nanos % 1000000000
  if nanos = 0 then ""
  else if nanos % 1000000 = 0 then "." ++ Decimal.padded 3 (nanos / 1000000)
  else if nanos % 1000 = 0 then "." ++ Decimal.padded 6 (nanos / 1000)
  else "." ++ Decimal.padded 9 nanos

end TimeOfDay

def DateTime.text (m : DateTime) : String :=
  m.date.text ++ "T" ++ m.time.text ++ m.time.fractionText

namespace Iso

/-- The blanks of the Unicode standard (its property White_Space). -/
def isSpace (c : Char) : Bool :=
  let n := c.toNat
  (0x09 ≤ n && n ≤ 0x0D) || n == 0x20 || n == 0x85 || n == 0xA0 || n == 0x1680 ||
    (0x2000 ≤ n && n ≤ 0x200A) || n == 0x2028 || n == 0x2029 || n == 0x202F || n == 0x205F ||
    n == 0x3000

/-- A reader takes a front part of the characters and hands on the rest. -/
abbrev Reader := StateT (List Char) Option

def spaces : Reader Unit := fun cs =>
  some ((), cs.dropWhile isSpace)

/-- One character, after any blanks. -/
def mark (c : Char) : Reader Unit := fun cs =>
  match cs.dropWhile isSpace with
  | d :: rest => if d = c then some ((), rest) else none
  | [] => none

/-- One character, if it stands here. -/
def eat (c : Char) : Reader Bool := fun cs =>
  match cs with
  | d :: rest => if d = c then some (true, rest) else some (false, cs)
  | [] => some (false, cs)

/-- A run of one to `most` digits. -/
def digits (most : Nat) : Reader (List Char) := fun cs =>
  let run := (cs.take most).takeWhile Char.isDigit
  if run.isEmpty then none else some (run, cs.drop run.length)

/-- A number of at most `most` digits, after any blanks. -/
def number (most : Nat) : Reader Nat := do
  spaces
  return Decimal.value (← digits most)

/-- A run of one or more digits. -/
def allDigits : Reader (List Char) := fun cs =>
  digits cs.length cs

/-- A year has up to four digits, or a sign and any number of digits. -/
def year : Reader Int := do
  spaces
  if ← eat '-' then return -(Decimal.value (← allDigits))
  else if ← eat '+' then return Decimal.value (← allDigits)
  else return Decimal.value (← digits 4)

def date : Reader Date := do
  let y ← year
  mark '-'
  let m ← number 2
  mark '-'
  let d ← number 2
  spaces
  (Date.of? y m d : Option Date)

/-- The nanoseconds of a fraction; digits after the ninth do not count. -/
def fraction : Reader Nat := do
  if ← eat '.' then
    let run ← digits 9
    modify (·.dropWhile Char.isDigit)
    return Decimal.value run * Decimal.scale (9 - run.length)
  else return 0

/-- Second 60 is a leap second, in any minute. -/
def time : Reader TimeOfDay := do
  let h ← number 2
  mark ':'
  let m ← number 2
  mark ':'
  let s ← number 2
  let nanos ← fraction
  spaces
  if s = 60 then (TimeOfDay.of? h m 59 (1000000000 + nanos) : Option TimeOfDay)
  else (TimeOfDay.of? h m s nanos : Option TimeOfDay)

/-- Runs a reader over the whole text. -/
def whole {α : Type} (r : Reader α) (text : String) : Option α :=
  match r text.toList with
  | some (a, []) => some a
  | _ => none

end Iso

def Date.read? (text : String) : Option Date :=
  Iso.whole Iso.date text

def DateTime.read? (text : String) : Option DateTime :=
  Iso.whole (do
    let date ← Iso.date
    Iso.mark 'T'
    return ⟨date, ← Iso.time⟩) text

end FilterQuery.Calendar
