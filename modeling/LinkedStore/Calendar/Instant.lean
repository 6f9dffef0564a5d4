/-!
# Instants and civil dates

An instant is a count of seconds from the start of 1970 and a fraction in nanoseconds.  In the last
second of a minute the fraction may run on for a second more: that is a leap second.  Civil dates
are those of the proleptic Gregorian calendar.

## Main definitions

* `Instant` : a moment in time, ordered by seconds and then by fraction.
* `CivilDate.ofDays`, `CivilDate.toDays` : the calendar date of a day count and back.
-/

namespace LinkedStore

/-- A moment in time; `nanos` reaches past a second only within a leap second. -/
structure Instant where
  seconds : Int
  nanos : Nat
  deriving DecidableEq, Repr, Inhabited

namespace Instant

/-- The start of 1970. -/
def epoch : Instant := ⟨0, 0⟩

/-- Instants are ordered by seconds and then by fraction. -/
def le (x y : Instant) : Prop :=
  x.seconds < y.seconds ∨ x.seconds = y.seconds ∧ x.nanos ≤ y.nanos

instance : LE Instant := ⟨le⟩

instance (x y : Instant) : Decidable (x ≤ y) :=
  inferInstanceAs (Decidable (x.seconds < y.seconds ∨ x.seconds = y.seconds ∧ x.nanos ≤ y.nanos))

theorem le_def {x y : Instant} :
    x ≤ y ↔ x.seconds < y.seconds ∨ x.seconds = y.seconds ∧ x.nanos ≤ y.nanos := Iff.rfl

/-- The instant a number of seconds later. -/
def later (x : Instant) (seconds : Int) : Instant := ⟨x.seconds + seconds, x.nanos⟩

/-- The count of milliseconds from the start of 1970. -/
def millis (x : Instant) : Int := x.seconds * 1000 + x.nanos / 1000000

end Instant

/-- A day of the proleptic Gregorian calendar. -/
structure CivilDate where
  year : Int
  month : Nat
  day : Nat
  deriving DecidableEq, Repr

namespace CivilDate

/-- A year has a leap day if it is divisible by four, unless it is divisible by a hundred and not
by four hundred. -/
def isLeapYear (year : Int) : Bool := year % 4 == 0 && (year % 100 != 0 || year % 400 == 0)

/-- The number of days of a month. -/
def daysIn (year : Int) (month : Nat) : Nat :=
  if month = 2 then if isLeapYear year then 29 else 28
  else if month = 4 ∨ month = 6 ∨ month = 9 ∨ month = 11 then 30
  else 31

/-- The date so many days after the start of 1970.  Years are counted from March, so that a leap
day is the last of its year, and four hundred of them make an era of 146097 days. -/
def ofDays (days : Int) : CivilDate :=
  let shifted := days + 719468
  let era := shifted / 146097
  let dayOfEra := shifted % 146097
  let yearOfEra := (dayOfEra - dayOfEra / 1460 + dayOfEra / 36524 - dayOfEra / 146096) / 365
  let dayOfYear := dayOfEra - (365 * yearOfEra + yearOfEra / 4 - yearOfEra / 100)
  let marchMonth := (5 * dayOfYear + 2) / 153
  let day := dayOfYear - (153 * marchMonth + 2) / 5 + 1
  let month := if marchMonth < 10 then marchMonth + 3 else marchMonth - 9
  let year := yearOfEra + era * 400 + if month ≤ 2 then 1 else 0
  ⟨year, month.toNat, day.toNat⟩

/-- The number of days from the start of 1970 to a date. -/
def toDays (d : CivilDate) : Int :=
  let year := if d.month ≤ 2 then d.year - 1 else d.year
  let era := year / 400
  let yearOfEra := year % 400
  let marchMonth : Int := if d.month ≤ 2 then d.month + 9 else d.month - 3
  let dayOfYear := (153 * marchMonth + 2) / 5 + d.day - 1
  let dayOfEra := yearOfEra * 365 + yearOfEra / 4 - yearOfEra / 100 + dayOfYear
  era * 146097 + dayOfEra - 719468

end CivilDate

end LinkedStore
