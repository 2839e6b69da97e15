import Cron.Calendar.Date
import Cron.Text.Decimal

/-!
# Whole minutes

Schedules run on whole minutes of a wall clock.  Like a day, a minute is an
integer: the number of minutes since 1970-01-01T00:00 on that clock, negative
before it, so that the next minute, hour and day are sums.

## Main results

* `lt_nextHour`, `lt_nextDay`, `lt_nextMonth` — the start of the next hour,
  day and month lie strictly later.
-/

namespace Cron.Calendar

/-! ## Text of a point in time -/

/-- Years `0`–`9999` have four digits.  Others have a sign and at least four. -/
def yearText (year : Int) : List Char :=
  let digits := Text.Decimal.writePadded 4 year.natAbs
  if year < 0 then '-' :: digits
  else if 9999 < year then '+' :: digits
  else digits

/-- A day, then `sep`, then hour, minute and second in two digits each. -/
def stamp (sep : Char) (day : Int) (hour minute second : Nat) : List Char :=
  let two := Text.Decimal.writePadded 2
  let date := Date.ofDay day
  yearText date.year ++ '-' :: two date.month ++ '-' :: two date.day ++
    sep :: two hour ++ ':' :: two minute ++ ':' :: two second

/-! ## Minutes -/

namespace Minute

/-- The number of minutes in a day. -/
def perDay : Int := 1440

/-- The day that a minute lies in. -/
def day (m : Int) : Int := m / perDay

/-- The date of a minute. -/
def date (m : Int) : Date := Date.ofDay (day m)

/-- The hour of the day. -/
def hour (m : Int) : Nat := (m / 60 % 24).toNat

/-- The minute of the hour. -/
def ofHour (m : Int) : Nat := (m % 60).toNat

/-! ## Starts of the next hour, day and month -/

/-- The first minute of a day. -/
def startOfDay (n : Int) : Int := n * perDay

/-- The first minute of the next hour. -/
def nextHour (m : Int) : Int := (m / 60 + 1) * 60

/-- The first minute of the next day. -/
def nextDay (m : Int) : Int := startOfDay (day m + 1)

/-- The first minute of the next month. -/
def nextMonth (m : Int) : Int := startOfDay (Calendar.nextMonth (day m))

theorem lt_nextHour (m : Int) : m < nextHour m := by
  simp only [nextHour]
  omega

theorem lt_nextDay (m : Int) : m < nextDay m := by
  simp only [nextDay, startOfDay, day, perDay]
  omega

theorem lt_nextMonth (m : Int) : m < nextMonth m := by
  have hLt := Calendar.lt_nextMonth (day m)
  simp only [nextMonth, startOfDay, day, perDay] at *
  omega

/-! ## Text -/

/-- The date and time of a minute, with zero seconds. -/
def text (sep : Char) (m : Int) : List Char := stamp sep (day m) (hour m) (ofHour m) 0

end Minute

end Cron.Calendar
