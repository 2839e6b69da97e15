import Cron.Schedule.Basic

/-!
# Edits

An edit sets one field of a schedule: to a text, or to a pattern given by
numbers.  Apart from the two shortcuts to `*`, an edit by numbers writes the
text of its pattern and reads it like any other, so that it accepts the same
numbers and fails in the same way.

An edit that fails leaves the schedule as it is.

Programs make their edits by name.  Each name stands for one kind of edit and
one field.  The day of the week has no steps, and so there is no name either
for an edit that sets it to a step or lets it match every value.

## Main results

* `named_iff` — all other edits have a name.
* `field_run_of_ne` — an edit leaves all other fields alone.
* `run_of_error`, `run_of_ok` — an edit that fails leaves the schedule alone,
  and one that succeeds puts its pattern into its field.
-/

namespace Cron

/-- A change of one field. -/
inductive Edit where
  /-- The field gets the pattern of a text. -/
  | set (field : Field) (text : String)
  /-- The field matches every value. -/
  | every (field : Field)
  /-- The field matches every value at a multiple of the interval. -/
  | everyNth (field : Field) (interval : UInt32)
  /-- The field matches every value at a multiple of the interval from an anchor. -/
  | everyNthFrom (field : Field) (anchor interval : UInt32)
  /-- The field matches the values from `first` to `last`. -/
  | range (field : Field) (first last : UInt32)
  /-- The field matches the values listed. -/
  | on (field : Field) (values : List UInt32)
deriving DecidableEq

namespace Edit

/-- The field that an edit is aimed at. -/
def field : Edit → Field
  | set f _ | every f | everyNth f _ | everyNthFrom f .. | range f .. | on f _ => f

private def number (n : UInt32) : List Char := Text.Decimal.write n.toNat

/-- The text that an edit reads; none if it goes to `*` directly, as a step of
one does, and one from one.  Listed values are written in ascending order, each
once. -/
def text? : Edit → Option (List Char)
  | set _ text => some text.toList
  | every _ => none
  | everyNth _ interval => if interval = 1 then none else some ('*' :: '/' :: number interval)
  | everyNthFrom _ anchor interval =>
      if anchor = 1 ∧ interval = 1 then none else some (number anchor ++ '/' :: number interval)
  | range _ first last => some (number first ++ '-' :: number last)
  | on _ values => some ([','].intercalate ((Ascending.ofList compare values).map number))

/-- The pattern that an edit stores. -/
def pattern (e : Edit) : Except Error Pattern :=
  match e.text? with
  | some cs => Pattern.parseChars e.field cs
  | none => .ok .all

/-- The schedule after an edit. -/
def apply (e : Edit) (s : Schedule) : Except Error Schedule := do
  return s.put e.field (← e.pattern)

/-! ## Names

By name a field gets the pattern of a text, every value, the values of a step from
zero or from an anchor, those of a range, or those listed. -/

def setMinute (text : String) : Edit := set .minute text
def setHour (text : String) : Edit := set .hour text
def setDay (text : String) : Edit := set .dayOfMonth text
def setMonth (text : String) : Edit := set .month text
def setDayOfWeek (text : String) : Edit := set .dayOfWeek text

def everyMinute : Edit := every .minute
def everyHour : Edit := every .hour
def everyDay : Edit := every .dayOfMonth
def everyMonth : Edit := every .month

def everyNthMinute (interval : UInt32) : Edit := everyNth .minute interval
def everyNthHour (interval : UInt32) : Edit := everyNth .hour interval
def everyNthDay (interval : UInt32) : Edit := everyNth .dayOfMonth interval
def everyNthMonth (interval : UInt32) : Edit := everyNth .month interval

def everyNthMinuteFrom (anchor interval : UInt32) : Edit := everyNthFrom .minute anchor interval
def everyNthHourFrom (anchor interval : UInt32) : Edit := everyNthFrom .hour anchor interval
def everyNthDayFrom (anchor interval : UInt32) : Edit := everyNthFrom .dayOfMonth anchor interval
def everyNthMonthFrom (anchor interval : UInt32) : Edit := everyNthFrom .month anchor interval

def rangeOfMinutes (first last : UInt32) : Edit := range .minute first last
def rangeOfHours (first last : UInt32) : Edit := range .hour first last
def rangeOfDays (first last : UInt32) : Edit := range .dayOfMonth first last
def rangeOfMonths (first last : UInt32) : Edit := range .month first last
def rangeOfDaysOfWeek (first last : UInt32) : Edit := range .dayOfWeek first last

def onMinutes (minutes : List UInt32) : Edit := on .minute minutes
def onHours (hours : List UInt32) : Edit := on .hour hours
def onDays (days : List UInt32) : Edit := on .dayOfMonth days
def onMonths (months : List UInt32) : Edit := on .month months
def onDaysOfWeek (days : List UInt32) : Edit := on .dayOfWeek days

/-- The edits that a program can make by name. -/
inductive Named : Edit → Prop
  | setMinute (text : String) : Named (setMinute text)
  | setHour (text : String) : Named (setHour text)
  | setDay (text : String) : Named (setDay text)
  | setMonth (text : String) : Named (setMonth text)
  | setDayOfWeek (text : String) : Named (setDayOfWeek text)
  | everyMinute : Named everyMinute
  | everyHour : Named everyHour
  | everyDay : Named everyDay
  | everyMonth : Named everyMonth
  | everyNthMinute (n : UInt32) : Named (everyNthMinute n)
  | everyNthHour (n : UInt32) : Named (everyNthHour n)
  | everyNthDay (n : UInt32) : Named (everyNthDay n)
  | everyNthMonth (n : UInt32) : Named (everyNthMonth n)
  | everyNthMinuteFrom (a n : UInt32) : Named (everyNthMinuteFrom a n)
  | everyNthHourFrom (a n : UInt32) : Named (everyNthHourFrom a n)
  | everyNthDayFrom (a n : UInt32) : Named (everyNthDayFrom a n)
  | everyNthMonthFrom (a n : UInt32) : Named (everyNthMonthFrom a n)
  | rangeOfMinutes (a b : UInt32) : Named (rangeOfMinutes a b)
  | rangeOfHours (a b : UInt32) : Named (rangeOfHours a b)
  | rangeOfDays (a b : UInt32) : Named (rangeOfDays a b)
  | rangeOfMonths (a b : UInt32) : Named (rangeOfMonths a b)
  | rangeOfDaysOfWeek (a b : UInt32) : Named (rangeOfDaysOfWeek a b)
  | onMinutes (values : List UInt32) : Named (onMinutes values)
  | onHours (values : List UInt32) : Named (onHours values)
  | onDays (values : List UInt32) : Named (onDays values)
  | onMonths (values : List UInt32) : Named (onMonths values)
  | onDaysOfWeek (values : List UInt32) : Named (onDaysOfWeek values)

/-- The edit lets its field match every value, or every value of a step. -/
def IsPeriodic : Edit → Prop
  | every _ | everyNth .. | everyNthFrom .. => True
  | set .. | range .. | on .. => False

theorem named_iff (e : Edit) : e.Named ↔ ¬(e.IsPeriodic ∧ e.field = .dayOfWeek) := by
  constructor
  · rintro hNamed ⟨hPeriodic, hField⟩
    cases hNamed <;> first | exact False.elim hPeriodic | cases hField
  · intro hAllowed
    cases e with
    | set f text =>
        cases f with
        | minute => exact .setMinute text
        | hour => exact .setHour text
        | dayOfMonth => exact .setDay text
        | month => exact .setMonth text
        | dayOfWeek => exact .setDayOfWeek text
    | every f =>
        cases f with
        | minute => exact .everyMinute
        | hour => exact .everyHour
        | dayOfMonth => exact .everyDay
        | month => exact .everyMonth
        | dayOfWeek => exact absurd ⟨trivial, rfl⟩ hAllowed
    | everyNth f n =>
        cases f with
        | minute => exact .everyNthMinute n
        | hour => exact .everyNthHour n
        | dayOfMonth => exact .everyNthDay n
        | month => exact .everyNthMonth n
        | dayOfWeek => exact absurd ⟨trivial, rfl⟩ hAllowed
    | everyNthFrom f a n =>
        cases f with
        | minute => exact .everyNthMinuteFrom a n
        | hour => exact .everyNthHourFrom a n
        | dayOfMonth => exact .everyNthDayFrom a n
        | month => exact .everyNthMonthFrom a n
        | dayOfWeek => exact absurd ⟨trivial, rfl⟩ hAllowed
    | range f a b =>
        cases f with
        | minute => exact .rangeOfMinutes a b
        | hour => exact .rangeOfHours a b
        | dayOfMonth => exact .rangeOfDays a b
        | month => exact .rangeOfMonths a b
        | dayOfWeek => exact .rangeOfDaysOfWeek a b
    | on f values =>
        cases f with
        | minute => exact .onMinutes values
        | hour => exact .onHours values
        | dayOfMonth => exact .onDays values
        | month => exact .onMonths values
        | dayOfWeek => exact .onDaysOfWeek values

end Edit

namespace Schedule

/-- The schedule after an edit that may fail. -/
def run (s : Schedule) (e : Edit) : Schedule :=
  match e.apply s with
  | .ok edited => edited
  | .error _ => s

theorem run_of_error {s : Schedule} {e : Edit} {err : Error} (h : e.pattern = .error err) :
    s.run e = s := by
  rw [run, Edit.apply, h]
  rfl

theorem run_of_ok {s : Schedule} {e : Edit} {p : Pattern} (h : e.pattern = .ok p) :
    s.run e = s.put e.field p := by
  rw [run, Edit.apply, h]
  rfl

theorem field_run_of_ne (s : Schedule) (e : Edit) {f : Field} (h : f ≠ e.field) :
    (s.run e).field f = s.field f := by
  cases hp : e.pattern with
  | error err => rw [run_of_error hp]
  | ok p => rw [run_of_ok hp, field_put_of_ne s p h]

end Schedule

end Cron
