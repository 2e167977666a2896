/-!
# The Gregorian calendar

Dates of the proleptic Gregorian calendar, civil times, and the instants they denote. An instant
counts seconds from the first of January 1970 in UTC, without leap seconds; a leap second is told
from the second before it by nanoseconds of a billion and more.

## Main definitions

* `Date` — a year, a month and a day
* `Date.dayNumber` — days since the first of January 1970
* `CivilTime` — a date and a time of day
* `Instant` — seconds and nanoseconds
* `CivilTime.instant` — the instant of a civil time at an offset from UTC
-/

namespace BucketWire

/-! ### Dates -/

/-- Whether `year` has a twenty-ninth of February. -/
def isLeapYear (year : Int) : Bool :=
  year % 4 == 0 && (year % 100 != 0 || year % 400 == 0)

/-- The length of a month, for months from 1 to 12. -/
def daysInMonth (year : Int) : Nat → Nat
  | 2 => if isLeapYear year then 29 else 28
  | 4 | 6 | 9 | 11 => 30
  | _ => 31

/-- A year, a month and a day, which need not exist. -/
structure Date where
  year : Int
  month : Nat
  day : Nat
  deriving DecidableEq, Repr

namespace Date

/-- Whether the calendar has this date. -/
def isValid (d : Date) : Bool :=
  1 ≤ d.month && d.month ≤ 12 && 1 ≤ d.day && d.day ≤ daysInMonth d.year d.month

/-- Days from the first of January of the year 1 to that of `year`. -/
def daysBeforeYear (year : Int) : Int :=
  365 * (year - 1) + (year - 1) / 4 - (year - 1) / 100 + (year - 1) / 400

/-- Days from the start of `year` to the start of `month`. -/
def daysBeforeMonth (year : Int) (month : Nat) : Nat :=
  (List.range' 1 (month - 1)).foldl (fun days month => days + daysInMonth year month) 0

/-- Days since the first of January 1970, negative before it. -/
def dayNumber (d : Date) : Int :=
  daysBeforeYear d.year - daysBeforeYear 1970 + daysBeforeMonth d.year d.month + d.day - 1

end Date

/-! ### Instants -/

/-- A point in time in UTC. -/
structure Instant where
  /-- Whole seconds since the start of 1970; a leap second counts as the second before it. -/
  seconds : Int
  /-- Nanoseconds within the second, and a billion more within a leap second. -/
  nanos : Nat
  deriving DecidableEq, Repr

/-- A date and a time of day, which need not exist. -/
structure CivilTime where
  date : Date
  hour : Nat
  minute : Nat
  /-- Up to 60, which names a leap second. -/
  second : Nat
  nanos : Nat
  deriving DecidableEq, Repr

namespace CivilTime

/-- Whether the calendar has this date and the clock this time. -/
def isValid (t : CivilTime) : Bool :=
  t.date.isValid && t.hour < 24 && t.minute < 60 && t.second ≤ 60

/-- The instant at which a clock that is `offset` seconds ahead of UTC shows `t`. -/
def instant (t : CivilTime) (offset : Int) : Instant where
  seconds :=
    86400 * t.date.dayNumber + (3600 * t.hour + 60 * t.minute + min t.second 59 : Nat) - offset
  nanos := if t.second = 60 then 1000000000 + t.nanos else t.nanos

end CivilTime

end BucketWire
