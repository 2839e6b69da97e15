import Cron.Text.Decimal

/-!
# Durations

A duration is a signed number of nanoseconds.  Whole units of it are counted
toward zero, so that a duration and its negation have the same digits.
-/

namespace Cron.Calendar

/-- The number of nanoseconds in a second. -/
def billion : Int := 1000000000

/-- A signed length of time. -/
structure Duration where
  nanos : Int
deriving DecidableEq, Repr

namespace Duration

/-- Seconds and nanoseconds, added up. -/
def ofSeconds (seconds : Int) (nanos : Int) : Duration := ⟨seconds * billion + nanos⟩

/-- A number of days. -/
def ofDays (days : Int) : Duration := ofSeconds (days * 86400) 0

/-- The seconds, without the fraction. -/
def wholeSeconds (d : Duration) : Int := d.nanos.tdiv billion

/-- The nanoseconds beyond the whole seconds; they have the duration's sign. -/
def fraction (d : Duration) : Int := d.nanos.tmod billion

/-- The days, without the rest. -/
def wholeDays (d : Duration) : Int := d.nanos.tdiv (86400 * billion)

/-! ## Text -/

/-- The digits of a fraction of a second after its point, without trailing
zeros. -/
def fractionDigits (nanos : Nat) : List Char :=
  ((Text.Decimal.writePadded 9 nanos).reverse.dropWhile (· == '0')).reverse

/-- A duration in ISO 8601 style: `P0D` for none at all, and otherwise seconds
only, such as `PT90S` or `-PT0.5S`. -/
def text (d : Duration) : List Char :=
  if d.nanos = 0 then ['P', '0', 'D']
  else
    let point := if d.fraction = 0 then [] else '.' :: fractionDigits d.fraction.natAbs
    (if d.nanos < 0 then ['-'] else []) ++ 'P' :: 'T' ::
      Text.Decimal.write d.wholeSeconds.natAbs ++ point ++ ['S']

end Duration

end Cron.Calendar
