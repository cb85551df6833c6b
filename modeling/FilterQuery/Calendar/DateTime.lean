import FilterQuery.Calendar.Date

/-!
Times of day to the nanosecond, and date-times without a time zone. A leap second is second 59 with
a thousand million nanoseconds or more.
-/

namespace FilterQuery.Calendar

/-- The time exists; the nanoseconds exceed a second only within a leap second. -/
def TimeExists (hour minute second nanos : Nat) : Prop :=
  hour < 24 ∧ minute < 60 ∧ second < 60 ∧
    (nanos < 1000000000 ∨ second = 59 ∧ nanos < 2000000000)

instance (hour minute second nanos : Nat) : Decidable (TimeExists hour minute second nanos) :=
  inferInstanceAs (Decidable (_ ∧ _ ∧ _ ∧ _))

structure TimeOfDay where
  hour : Nat
  minute : Nat
  second : Nat
  nanos : Nat
  timeExists : TimeExists hour minute second nanos
  deriving DecidableEq

namespace TimeOfDay

/-- The time with these parts, if there is one. -/
def of? (hour minute second nanos : Nat) : Option TimeOfDay :=
  if h : TimeExists hour minute second nanos then some ⟨hour, minute, second, nanos, h⟩ else none

theorem of?_eq_some_iff {hour minute second nanos : Nat} {t : TimeOfDay} :
    of? hour minute second nanos = some t ↔
      t.hour = hour ∧ t.minute = minute ∧ t.second = second ∧ t.nanos = nanos := by
  obtain ⟨h, m, s, n, valid⟩ := t
  unfold of?
  constructor
  · split
    · intro e
      cases e
      exact ⟨rfl, rfl, rfl, rfl⟩
    · simp
  · rintro ⟨rfl, rfl, rfl, rfl⟩
    simp [valid]

@[simp] theorem of?_parts (t : TimeOfDay) : of? t.hour t.minute t.second t.nanos = some t :=
  of?_eq_some_iff.2 ⟨rfl, rfl, rfl, rfl⟩

end TimeOfDay

structure DateTime where
  date : Date
  time : TimeOfDay
  deriving DecidableEq

namespace DateTime

/-- The date-time with these parts, if both its date and its time exist. -/
def of? (year : Int) (month day hour minute second nanos : Nat) : Option DateTime :=
  match Date.of? year month day, TimeOfDay.of? hour minute second nanos with
  | some date, some time => some ⟨date, time⟩
  | _, _ => none

end DateTime

end FilterQuery.Calendar
