import Cron.Proofs.Horizon

/-!
# Schedules that run at all

Whether a schedule ever runs is decided by its month and its day of the month
alone, with February counted as in a leap year.  The minute and the hour are no
obstacle, since no field of a reachable schedule is dead, and neither is the day
of the week, since a date of a leap year falls on every weekday in some year.
The years from 2000 to 2024 are enough for that, so the time that is found lies
well inside the calendar.

The check of an explicit day against an explicit month asks for the same dates.
It therefore refuses the schedules that never run, and no others.

## Main results

* `Schedule.exists_time_iff_hasDate` — a schedule with canonical fields runs at
  some time exactly if it names a date of a leap year.
* `Schedule.reachable_runs_iff_hasDate` — the same for reachable schedules, with
  what it says about the check.
-/

namespace Cron

open Calendar

theorem Pattern.accepts_value_iff (x : UInt8) (v : Nat) :
    (value x).accepts v = true ↔ v = x.toNat := by
  simp only [accepts, test, beq_iff_eq]

namespace Schedule

/-! ## Some time -/

theorem spanned_of_day {m : Int} (hFrom : yearStart 2000 ≤ Minute.day m)
    (hTo : Minute.day m < yearStart 2025) : Minute.Spanned m := by
  simp only [Minute.Spanned, firstSecond, lastSecond, Minute.day, Minute.perDay, yearStart] at *
  omega

theorem exists_time_of_hasDate {s : Schedule} (hCanonical : ∀ f, (s.field f).Canonical f)
    (hDate : s.HasDate) : ∃ t : DateTime, s.runsAt t.minute := by
  obtain ⟨month, day, max, -, hMax, ⟨hOne, hLe⟩, hMonth, hDay⟩ := hDate
  obtain ⟨w, -, hWeek, hAccepts⟩ := (hCanonical .dayOfWeek).exists_accepts
  obtain ⟨d, hFrom, hTo, rfl, rfl, rfl⟩ := exists_date_weekday hMax hOne hLe hWeek
  obtain ⟨m, rfl, hRuns⟩ := exists_runsAt_onDay hCanonical hMonth hDay hAccepts
  obtain ⟨t, -, rfl⟩ := DateTime.exists_isMinute (spanned_of_day hFrom hTo)
  exact ⟨t, hRuns⟩

theorem exists_time_iff_hasDate {s : Schedule} (hCanonical : ∀ f, (s.field f).Canonical f) :
    (∃ t : DateTime, s.runsAt t.minute) ↔ s.HasDate := by
  constructor
  · intro ⟨t, hRuns⟩
    exact hasDate_of_runsAt hRuns
  · exact exists_time_of_hasDate hCanonical

/-! ## One day of one month -/

section

variable {s : Schedule} {day month : UInt8} (hDay : s.dayOfMonth = .value day)
  (hMonth : s.month = .value month)

include hDay hMonth

theorem validate_eq_check : s.validate = MonthDay.check day.toNat month.toNat := by
  rw [validate, hDay, hMonth]
  rfl

/-- The only date that the schedule may name is the one that the check is about. -/
theorem hasDate_iff_validate_eq_ok : s.HasDate ↔ s.validate = .ok () := by
  rw [validate_eq_check hDay hMonth, MonthDay.check_eq_ok_iff, HasDate, hDay, hMonth]
  simp only [Pattern.accepts_value_iff]
  constructor
  · rintro ⟨_, _, max, -, hMax, hRange, rfl, rfl⟩
    exact ⟨max, hMax, hRange⟩
  · rintro ⟨max, hMax, hRange⟩
    exact ⟨_, _, max, month_le_of_monthLength? hMax, hMax, hRange, rfl, rfl⟩

end

theorem exists_validate_error_iff (s : Schedule) :
    (∃ e, s.validate = .error e) ↔ s.validate ≠ .ok () := by
  cases s.validate with
  | error e => simp
  | ok => simp

/-- A reachable schedule runs at some time of the calendar exactly if some day that
its day field accepts exists in some month that its month field accepts, whatever
its other fields are.  If both are single values, the check fails exactly if the
schedule never runs. -/
theorem reachable_runs_iff_hasDate {s : Schedule} (h : s.Reachable) :
    ((∃ t : DateTime, s.runsAt t.minute) ↔
      ∃ month day max, (1 ≤ month ∧ month ≤ 12) ∧ monthLength? true month = some max ∧
        (1 ≤ day ∧ day ≤ max) ∧ s.month.accepts month = true ∧
          s.dayOfMonth.accepts day = true) ∧
    ∀ day month, s.dayOfMonth = .value day → s.month = .value month →
      ((∃ e, s.validate = .error e) ↔ ∀ t : DateTime, ¬ s.runsAt t.minute) := by
  have hExists := exists_time_iff_hasDate h.canonical
  refine ⟨hExists, fun day month hDay hMonth => ?_⟩
  rw [exists_validate_error_iff, ← not_exists, hExists]
  exact not_congr (hasDate_iff_validate_eq_ok hDay hMonth).symm

/-- Some leap day is a Sunday, and April 31 is no day of the week in any year. -/
theorem leapDay_on_sunday :
    ∃ s u : Schedule, parse "0 12 29 2 0" = .ok s ∧ (∃ t : DateTime, s.runsAt t.minute) ∧
      parse "*/7 0 31 4 1-5" = .ok u ∧ (∃ e, u.validate = .error e) ∧
        ∀ t : DateTime, ¬ u.runsAt t.minute := by
  let s : Schedule :=
    { minute := .value 0, hour := .value 12, dayOfMonth := .value 29, month := .value 2,
      dayOfWeek := .value 0 }
  let u : Schedule :=
    { minute := .step none 7, hour := .value 0, dayOfMonth := .value 31, month := .value 4,
      dayOfWeek := .range 1 5 }
  have hParse : parse "0 12 29 2 0" = .ok s := by decide +kernel
  have hRefused : parse "*/7 0 31 4 1-5" = .ok u := by decide +kernel
  have hError : u.validate = .error (.noSuchDay 31 4 30) := rfl
  refine ⟨s, u, hParse, ?_, hRefused, ⟨_, hError⟩, ?_⟩
  · apply (reachable_runs_iff_hasDate (.parse hParse)).1.2
    exact ⟨2, 29, 29, by decide⟩
  · apply ((reachable_runs_iff_hasDate (.parse hRefused)).2 31 4 rfl rfl).1
    exact ⟨_, hError⟩

end Schedule

end Cron
