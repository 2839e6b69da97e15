import Cron.MonthDay
import Cron.Pattern.Parse

/-!
# Schedules

A schedule is a pattern for each field; it runs at the wall-clock minutes
whose components match all five.  An expression writes the patterns in the
order of `Field.all`, with blanks between them.

## Main results

* `field_put_self`, `field_put_of_ne` — setting one field changes no other.
* `runsAt_iff` — a schedule runs at a minute exactly if every field accepts
  its component of the minute.
-/

namespace Cron

/-- The patterns of the five fields.  The default runs every minute. -/
structure Schedule where
  minute : Pattern := .all
  hour : Pattern := .all
  dayOfMonth : Pattern := .all
  month : Pattern := .all
  dayOfWeek : Pattern := .all
deriving DecidableEq

namespace Schedule

instance : Inhabited Schedule := ⟨{}⟩

/-! ## Fields -/

/-- The pattern of a field. -/
def field (s : Schedule) : Field → Pattern
  | .minute => s.minute
  | .hour => s.hour
  | .dayOfMonth => s.dayOfMonth
  | .month => s.month
  | .dayOfWeek => s.dayOfWeek

/-- The schedule with another pattern in one field. -/
def put (s : Schedule) (f : Field) (p : Pattern) : Schedule :=
  match f with
  | .minute => { s with minute := p }
  | .hour => { s with hour := p }
  | .dayOfMonth => { s with dayOfMonth := p }
  | .month => { s with month := p }
  | .dayOfWeek => { s with dayOfWeek := p }

@[simp] theorem field_put_self (s : Schedule) (f : Field) (p : Pattern) :
    (s.put f p).field f = p := by
  cases f <;> rfl

theorem field_put_of_ne (s : Schedule) {f g : Field} (p : Pattern) (h : g ≠ f) :
    (s.put f p).field g = s.field g := by
  cases f <;> cases g <;> first | rfl | exact absurd rfl h

/-! ## Text -/

/-- The patterns with a space between them. -/
def chars (s : Schedule) : List Char :=
  s.minute.chars ++ ' ' :: s.hour.chars ++ ' ' :: s.dayOfMonth.chars ++ ' ' :: s.month.chars ++
    ' ' :: s.dayOfWeek.chars

/-- The canonical expression of a schedule. -/
def text (s : Schedule) : String := String.ofList s.chars

/-- Reads the texts of the five fields; the first that is refused decides the
error. -/
def ofFields (minute hour dayOfMonth month dayOfWeek : String) : Except Error Schedule := do
  let minute ← Pattern.parse .minute minute
  let hour ← Pattern.parse .hour hour
  let dayOfMonth ← Pattern.parse .dayOfMonth dayOfMonth
  let month ← Pattern.parse .month month
  let dayOfWeek ← Pattern.parse .dayOfWeek dayOfWeek
  return { minute, hour, dayOfMonth, month, dayOfWeek }

/-- The words of an expression. -/
def fieldTexts (expression : String) : List String :=
  (Text.words expression.toList).map String.ofList

/-- Reads an expression. -/
def parse (expression : String) : Except Error Schedule :=
  match fieldTexts expression with
  | [minute, hour, dayOfMonth, month, dayOfWeek] =>
      ofFields minute hour dayOfMonth month dayOfWeek
  | texts => .error (.fieldCount texts.length)

/-! ## Validity -/

/-- Checks that a schedule which names one day of one month names a day that
the month has. -/
def validate (s : Schedule) : Except Error Unit :=
  match s.dayOfMonth.value?, s.month.value? with
  | some day, some month => MonthDay.check day.toNat month.toNat
  | _, _ => .ok ()

/-- The canonical expression of a valid schedule. -/
def toExpression (s : Schedule) : Except Error String := do
  s.validate
  return s.text

/-! ## Order -/

/-- Compares schedules field by field, in the order of an expression. -/
def order (s t : Schedule) : Ordering :=
  Field.all.foldr (fun f rest => (Pattern.order (s.field f) (t.field f)).then rest) .eq

/-! ## Running -/

/-- The first field, in the order of an expression, that refuses a minute. -/
def mismatch? (s : Schedule) (m : Int) : Option Field :=
  Field.all.find? fun f => !(s.field f).accepts (f.valueAt m)

/-- Whether the schedule runs at a minute of the wall clock. -/
def runsAt (s : Schedule) (m : Int) : Bool := (s.mismatch? m).isNone

theorem runsAt_iff (s : Schedule) (m : Int) :
    s.runsAt m = true ↔ ∀ f, (s.field f).accepts (f.valueAt m) = true := by
  have hAll (f : Field) : f ∈ Field.all := by cases f <;> decide
  simp only [runsAt, mismatch?, Option.isNone_iff_eq_none, List.find?_eq_none]
  exact ⟨fun h f => by simpa using h f (hAll f), fun h f _ => by simp [h f]⟩

end Schedule

end Cron
