/-
Workflow.Time.Calendar — dates and instants.

Dates are those of the Gregorian calendar, extended to all years; day 0 is
the first of January 1970. An instant is a number of seconds since then and
the nanoseconds of the current second, which go beyond a thousand million
only within a leap second.

* `Date` — year, month and day; `Date.ofDay`, `Date.day` convert to day numbers.
* `Date.ofParts?` — a date, if there is one with these parts.
* `Date.weekday`, `Date.ordinal`, `Date.isoWeek` — derived parts.
* `Instant` — a moment in time; `Instant.millis`, `Instant.ofMillis?`.
-/

namespace Workflow

/-- A date of the Gregorian calendar. -/
structure Date where
  year : Int
  month : Nat
  day : Nat
deriving DecidableEq, Repr

namespace Date

/-- Years that a date can have. -/
def firstYear : Int := -262143

/-- The last year that a date can have. -/
def lastYear : Int := 262142

/-- A leap year is divisible by four, and by four hundred if it ends a century. -/
def isLeap (year : Int) : Bool :=
  Int.emod year 4 == 0 && (Int.emod year 100 != 0 || Int.emod year 400 == 0)

/-- The number of days of a month. -/
def monthDays (year : Int) : Nat → Nat
  | 2 => if isLeap year then 29 else 28
  | 4 | 6 | 9 | 11 => 30
  | _ => 31

/-- The number of days of a year. -/
def yearDays (year : Int) : Nat := if isLeap year then 366 else 365

/-- The number of days of a year before a month. -/
def daysBefore (year : Int) : Nat → Nat
  | 0 => 0
  | 1 => 0
  | n + 1 => daysBefore year n + monthDays year n

/-- The place of a date in its year, from 1. -/
def ordinal (d : Date) : Nat := daysBefore d.year d.month + d.day

/-- The number of days from the start of year 1 to the start of a year. -/
def daysToYear (year : Int) : Int :=
  let y := year - 1
  365 * y + Int.fdiv y 4 - Int.fdiv y 100 + Int.fdiv y 400

/-- The day number of the first of January 1970, counted from the start of year 1. -/
def epochDay : Int := 719162

/-- The day number of a date. -/
def dayNumber (d : Date) : Int := daysToYear d.year + (d.ordinal : Int) - 1 - epochDay

/-- The month and day at a place of a year, from a month on. -/
def monthAt (year : Int) : Nat → Nat → Nat → Nat × Nat
  | 0, month, rest => (month, rest + 1)
  | fuel + 1, month, rest =>
    if rest < monthDays year month then (month, rest + 1)
    else monthAt year fuel (month + 1) (rest - monthDays year month)

/-- The date of a day number. -/
def ofDayNumber (n : Int) : Date :=
  let days := n + epochDay
  -- A year has at most 366 days, so the estimate is never above the year sought.
  let estimate := Int.fdiv (days * 400) 146097 + 1
  let year :=
    if days < daysToYear estimate then estimate - 1
    else if daysToYear (estimate + 1) ≤ days then estimate + 1
    else estimate
  let (month, day) := monthAt year 12 1 (days - daysToYear year).toNat
  ⟨year, month, day⟩

/-- The date with the given parts, if the calendar has it. -/
def ofParts? (year : Int) (month day : Nat) : Option Date :=
  if firstYear ≤ year ∧ year ≤ lastYear ∧ 1 ≤ month ∧ month ≤ 12 ∧ 1 ≤ day ∧
      day ≤ monthDays year month then
    some ⟨year, month, day⟩
  else none

/-- The day of the week of a day number, Monday being 0. -/
def weekdayOf (n : Int) : Nat := (Int.emod (n + 3) 7).toNat

/-- The day of the week, Monday being 0. -/
def weekday (d : Date) : Nat := weekdayOf d.dayNumber

/-- The number of weeks of a year in the week calendar. -/
def isoWeeksIn (year : Int) : Nat :=
  let firstDay := weekday ⟨year, 1, 1⟩
  if firstDay = 3 ∨ (isLeap year ∧ firstDay = 2) then 53 else 52

/-- Year and week in the week calendar, whose weeks start on Monday and whose first week holds the
first Thursday of the year. -/
def isoWeek (d : Date) : Int × Nat :=
  let week : Int := Int.fdiv ((d.ordinal : Int) - (d.weekday + 1) + 10) 7
  if week < 1 then (d.year - 1, isoWeeksIn (d.year - 1))
  else if week > isoWeeksIn d.year then (d.year + 1, 1)
  else (d.year, week.toNat)

/-- The number of the week, counted from the first day of the year that starts a week. -/
def weeksFrom (d : Date) (sinceStart : Nat) : Nat := (d.ordinal + 6 - sinceStart) / 7

end Date

/-- A moment in time, by the seconds since 1970 and the nanoseconds of the second. -/
structure Instant where
  seconds : Int
  nanos : Nat
deriving DecidableEq, Repr

namespace Instant

/-- The number of seconds of a day. -/
def daySeconds : Int := 86400

/-- The date of an instant. -/
def date (i : Instant) : Date := Date.ofDayNumber (Int.fdiv i.seconds daySeconds)

/-- The second of the day of an instant. -/
def secondOfDay (i : Instant) : Nat := (Int.emod i.seconds daySeconds).toNat

/-- Hour, minute and second; a leap second is second 60. -/
def clock (i : Instant) : Nat × Nat × Nat :=
  let s := i.secondOfDay
  (s / 3600, s / 60 % 60, s % 60 + i.nanos / 1000000000)

/-- The nanoseconds shown for an instant. -/
def subsecond (i : Instant) : Nat := i.nanos % 1000000000

/-- The instant of a date and a second of that day. -/
def ofDate (d : Date) (second : Int) (nanos : Nat) : Instant :=
  ⟨d.dayNumber * daySeconds + second, nanos⟩

/-- The first and the last second of the calendar. -/
def firstSecond : Int := Date.dayNumber ⟨Date.firstYear, 1, 1⟩ * daySeconds

/-- The last second of the calendar. -/
def lastSecond : Int := (Date.dayNumber ⟨Date.lastYear, 12, 31⟩ + 1) * daySeconds - 1

/-- Whether the calendar has a second. -/
def inCalendar (seconds : Int) : Bool := firstSecond ≤ seconds && seconds ≤ lastSecond

/-- The milliseconds since 1970, the rest dropped. -/
def millis (i : Instant) : Int := i.seconds * 1000 + (i.nanos / 1000000 : Nat)

/-- The instant of a number of milliseconds since 1970, if the calendar has it. -/
def ofMillis? (n : Int) : Option Instant :=
  let seconds := Int.fdiv n 1000
  if inCalendar seconds then some ⟨seconds, (Int.emod n 1000).toNat * 1000000⟩ else none

/-- The nanoseconds since 1970. -/
def totalNanos (i : Instant) : Int := i.seconds * 1000000000 + i.nanos

/-- The instant so many nanoseconds after 1970 began. -/
def ofTotalNanos (n : Int) : Instant := ⟨Int.fdiv n 1000000000, (Int.emod n 1000000000).toNat⟩

/-- The instant so many milliseconds later. -/
def addMillis (i : Instant) (n : Nat) : Instant := ofTotalNanos (i.totalNanos + n * 1000000)

end Instant

end Workflow
