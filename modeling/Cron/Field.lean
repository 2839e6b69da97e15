import Cron.Calendar.DateTime

/-!
# The fields of an expression

An expression has five fields.  Each constrains one component of a wall-clock
minute, and each bounds the numbers that may be written in it.

Where a component does not match, no minute matches before the next value of
that component comes up: `Field.skip` goes there, and `Field.skip?` only as far
as the calendar reaches.

## Main results

* `lt_skip` — skipping goes forward.
-/

namespace Cron

open Calendar

/-- A field of an expression, and the component of a minute it constrains. -/
inductive Field where
  | minute
  | hour
  | dayOfMonth
  | month
  /-- Counted from Sunday, `0`. -/
  | dayOfWeek
deriving DecidableEq, Repr

namespace Field

/-- All fields, in the order of an expression. -/
def all : List Field := [minute, hour, dayOfMonth, month, dayOfWeek]

/-- The name of the field in messages. -/
def name : Field → String
  | minute => "minute"
  | hour => "hour"
  | dayOfMonth => "day of month"
  | month => "month"
  | dayOfWeek => "day of week"

/-! ## Bounds -/

/-- The least number of the field. -/
def min : Field → Nat
  | minute | hour | dayOfWeek => 0
  | dayOfMonth | month => 1

/-- The greatest number of the field. -/
def max : Field → Nat
  | minute => 59
  | hour => 23
  | dayOfMonth => 31
  | month => 12
  | dayOfWeek => 6

/-- Every bound fits a byte. -/
theorem max_lt (f : Field) : f.max < 256 := by
  cases f <;> decide

/-! ## Components of a minute -/

/-- The component of a minute that the field constrains. -/
def valueAt : Field → Int → Nat
  | minute, m => Minute.ofHour m
  | hour, m => Minute.hour m
  | dayOfMonth, m => (Minute.date m).day
  | month, m => (Minute.date m).month
  | dayOfWeek, m => weekday (Minute.day m)

/-- The first minute after `m` at which the field's component may differ.  Both
day fields go to the next day. -/
def skip : Field → Int → Int
  | minute, m => m + 1
  | hour, m => Minute.nextHour m
  | dayOfMonth, m | dayOfWeek, m => Minute.nextDay m
  | month, m => Minute.nextMonth m

theorem lt_skip (f : Field) (m : Int) : m < f.skip m := by
  cases f with
  | minute => exact Int.lt_succ m
  | hour => exact Minute.lt_nextHour m
  | dayOfMonth | dayOfWeek => exact Minute.lt_nextDay m
  | month => exact Minute.lt_nextMonth m

/-- The minute that `skip` goes to; none if it lies beyond the calendar. -/
def skip? (f : Field) (m : Int) : Option Int :=
  if Minute.Spanned (f.skip m) then some (f.skip m) else none

theorem spanned_of_skip?_eq_some {f : Field} {m n : Int} (h : f.skip? m = some n) :
    Minute.Spanned n := by
  rw [skip?] at h
  split at h
  · rename_i hSpan
    rw [← Option.some.inj h]
    exact hSpan
  · cases h

theorem skip?_eq_some {f : Field} {m n : Int} (h : f.skip? m = some n) : n = f.skip m := by
  rw [skip?] at h
  split at h
  · exact (Option.some.inj h).symm
  · cases h

end Field

end Cron
