import Cron.Error
import Cron.Text.Decimal

/-!
# Days of explicit months

A schedule that names one day of one month should name a day that the month
has in some year: February counts with its leap day.  `check` decides it for
numbers, and `checkTexts` for the raw texts of the two fields, of which it
looks at plain numbers only.

## Main results

* `check_eq_ok_iff` — what passes are the days of leap years.
-/

namespace Cron.MonthDay

open Calendar

/-- Checks that a month has a day in some year. -/
def check (day month : Nat) : Except Error Unit :=
  match monthLength? true month with
  | none => .error (.outOfRange .month month Field.month.min Field.month.max)
  | some max => if 1 ≤ day ∧ day ≤ max then .ok () else .error (.noSuchDay day month max)

theorem check_eq_ok_iff (day month : Nat) :
    check day month = .ok () ↔
      ∃ max, monthLength? true month = some max ∧ 1 ≤ day ∧ day ≤ max := by
  rw [check]
  cases monthLength? true month with
  | none => simp
  | some max => by_cases h : 1 ≤ day ∧ day ≤ max <;> simp [h]

/-- Checks the texts of a day and a month if both are plain numbers.  Anything
else passes, well formed or not. -/
def checkTexts (day month : String) : Except Error Unit :=
  match Text.Decimal.read? day.toList, Text.Decimal.read? month.toList with
  | some day, some month => check day month
  | _, _ => .ok ()

end Cron.MonthDay
