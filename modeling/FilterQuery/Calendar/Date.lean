/-!
Dates of the Gregorian calendar, extended to all years on both sides: year 0 comes before year 1 and
is a leap year. A date carries the proof that its day exists.
-/

namespace FilterQuery.Calendar

def isLeapYear (year : Int) : Bool :=
  year % 4 == 0 && (year % 100 != 0 || year % 400 == 0)

def daysInMonth (year : Int) : Nat → Nat
  | 2 => if isLeapYear year then 29 else 28
  | 4 | 6 | 9 | 11 => 30
  | _ => 31

/-- The day exists and its year is in the supported range. -/
def DayExists (year : Int) (month day : Nat) : Prop :=
  (-262143 ≤ year ∧ year ≤ 262142) ∧ (1 ≤ month ∧ month ≤ 12) ∧
    (1 ≤ day ∧ day ≤ daysInMonth year month)

instance (year : Int) (month day : Nat) : Decidable (DayExists year month day) :=
  inferInstanceAs (Decidable (_ ∧ _ ∧ _))

structure Date where
  year : Int
  month : Nat
  day : Nat
  dayExists : DayExists year month day
  deriving DecidableEq

namespace Date

/-- The date with these parts, if there is one. -/
def of? (year : Int) (month day : Nat) : Option Date :=
  if h : DayExists year month day then some ⟨year, month, day, h⟩ else none

theorem of?_eq_some_iff {year : Int} {month day : Nat} {d : Date} :
    of? year month day = some d ↔ d.year = year ∧ d.month = month ∧ d.day = day := by
  obtain ⟨y, m, n, h⟩ := d
  unfold of?
  constructor
  · split
    · intro e
      cases e
      exact ⟨rfl, rfl, rfl⟩
    · simp
  · rintro ⟨rfl, rfl, rfl⟩
    simp [h]

@[simp] theorem of?_parts (d : Date) : of? d.year d.month d.day = some d :=
  of?_eq_some_iff.2 ⟨rfl, rfl, rfl⟩

end Date

end FilterQuery.Calendar
