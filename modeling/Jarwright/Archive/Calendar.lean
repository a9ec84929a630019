import Jarwright.Archive.Entry

/-!
# The calendar of archives

The times of entries carry no zone and are read as universal time.

* `dayNumber` numbers the days of the proleptic Gregorian calendar from the first of January 1970;
* `Stamp.seconds` is the second that a stamp names, counted from the start of that day.

Years are counted from March on, so that the leap day is the last day of a year; 400 such years
have always the same number of days. The numbers for all years that a stamp can have are far within
64 bits.
-/

namespace Jarwright.Archive

/-- The number of a day; that of the first of January 1970 is zero. Quotients are cut towards zero,
so negative years are moved down for the eras before the year zero. -/
def dayNumber (year month day : Int) : Int :=
  let y := if month ≤ 2 then year - 1 else year
  let era := (if 0 ≤ y then y else y - 399).tdiv 400
  let yearOfEra := y - era * 400
  let monthFromMarch := (month + 9).tmod 12
  let dayOfYear := (153 * monthFromMarch + 2).tdiv 5 + day - 1
  let dayOfEra := yearOfEra * 365 + yearOfEra.tdiv 4 - yearOfEra.tdiv 100 + dayOfYear
  era * 146097 + dayOfEra - 719468

/-- Whether a year has a leap day. -/
def isLeapYear (year : Int) : Bool := year % 4 == 0 && (year % 100 != 0 || year % 400 == 0)

/-- The length of a month. -/
def monthLength (year month : Int) : Int :=
  if month = 2 then if isLeapYear year then 29 else 28
  else if month = 4 ∨ month = 6 ∨ month = 9 ∨ month = 11 then 30
  else 31

namespace Stamp

/-- Whether a stamp names a time. -/
def isValid (t : Stamp) : Bool :=
  1980 ≤ t.year && t.year ≤ 2107 && 1 ≤ t.month && t.month ≤ 12 && 1 ≤ t.day
    && decide ((t.day : Int) ≤ monthLength t.year t.month) && t.hour ≤ 23 && t.minute ≤ 59
    && t.second ≤ 60

/-- The second that a stamp names; times before the first of them are moved to it. -/
def seconds (t : Stamp) : Nat :=
  (dayNumber t.year t.month t.day * 86400 + t.hour * 3600 + t.minute * 60 + t.second).toNat

end Stamp

end Jarwright.Archive
