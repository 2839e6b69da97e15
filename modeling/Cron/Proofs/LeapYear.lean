import Cron.Calendar.Minute

/-!
# Dates of leap years come up again

February 29 may be eight years away, where a century year has no leap day.  It
is never further: of any eight years in a row one is a leap year, and eight
years have at most 2922 days.

A date of a leap year has the same place in all leap years.  So the argument is
about years only: the years are counted as if each of them began on the day of
the date, and the first leap year after the present one is at most eight years
on.  No case distinction between February 29 and other dates is needed.

Nor is there one for the weekday, which in four years without a century year
moves by five: seven leap years in a row cover the week.

## Main results

* `exists_date` — every date of a leap year comes up within 2922 days.
* `exists_date_weekday` — it comes up on every weekday.
* `day_le_of_ofDay` — no other dates come up.
-/

namespace Cron.Calendar

/-! ## Eight years -/

/-- Two multiples of four in a row are not both century years, so one of them is
a leap year. -/
theorem exists_isLeap (year : Int) : ∃ leap, year < leap ∧ leap ≤ year + 8 ∧ isLeap leap := by
  let fourth := 4 * (year / 4 + 1)
  have hFourth : fourth % 4 = 0 := by omega
  by_cases hLeap : isLeap fourth
  · exact ⟨fourth, by omega, by omega, hLeap⟩
  · refine ⟨fourth + 4, by omega, by omega, ?_⟩
    simp only [isLeap, Bool.and_eq_true, Bool.or_eq_true, beq_iff_eq, bne_iff_ne] at hLeap ⊢
    omega

theorem yearStart_add_eight_le (year : Int) :
    yearStart (year + 8) ≤ yearStart year + 2922 := by
  simp only [yearStart]
  omega

theorem yearStart_le {a b : Int} (h : a ≤ b) : yearStart a ≤ yearStart b := by
  simp only [yearStart]
  omega

/-- The `k`-th day of some leap year, counted from zero, is at most 2922 days
away. -/
theorem exists_dayOfYear (n : Int) (k : Nat) :
    ∃ year, isLeap year ∧ n < yearStart year + k ∧ yearStart year + k ≤ n + 2922 := by
  have hBefore := yearStart_yearOf_le (n - k)
  have hAfter := lt_yearStart_yearOf (n - k)
  obtain ⟨year, hLt, hLe, hLeap⟩ := exists_isLeap (yearOf (n - k))
  have hNext : yearStart (yearOf (n - k) + 1) ≤ yearStart year := yearStart_le hLt
  have hEighth : yearStart year ≤ yearStart (yearOf (n - k) + 8) := yearStart_le hLe
  have hEight := yearStart_add_eight_le (yearOf (n - k))
  exact ⟨year, hLeap, by omega, by omega⟩

/-! ## Dates -/

/-- A date of a leap year has the same place in all of them. -/
theorem exists_place {month day max : Nat} (hMonth : monthLength? true month = some max)
    (hOne : 1 ≤ day) (hMax : day ≤ max) :
    ∃ place : Nat, place < 366 ∧ ∀ year, isLeap year →
      (Date.ofDay (yearStart year + place)).month = month ∧
      (Date.ofDay (yearStart year + place)).day = day := by
  let place := stretchStart (monthLengths true) (month - 1) + (day - 1)
  have hIndex : (monthLengths true)[month - 1]? = some max := by
    unfold monthLength? at hMonth
    split at hMonth
    · cases hMonth
    · exact hMonth
  have hPlace : place < 366 := stretchStart_add_lt hIndex (by omega)
  refine ⟨place, hPlace, fun year hLeap => ?_⟩
  have hValid : Date.Valid ⟨year, month, day⟩ := by
    simp only [Date.Valid, Date.monthLength, hLeap, hMonth, Option.getD_some]
    exact ⟨hOne, hMax⟩
  have hDay : Date.toDay ⟨year, month, day⟩ = yearStart year + place := by
    simp only [Date.toDay, hLeap]
    rfl
  rw [← hDay, Date.ofDay_toDay hValid]
  exact ⟨rfl, rfl⟩

theorem exists_date {month day max : Nat} (hMonth : monthLength? true month = some max)
    (hOne : 1 ≤ day) (hMax : day ≤ max) (n : Int) :
    ∃ d, n < d ∧ d ≤ n + 2922 ∧ (Date.ofDay d).month = month ∧ (Date.ofDay d).day = day := by
  obtain ⟨place, -, hDate⟩ := exists_place hMonth hOne hMax
  obtain ⟨year, hLeap, hAfter, hWithin⟩ := exists_dayOfYear n place
  exact ⟨_, hAfter, hWithin, hDate year hLeap⟩

theorem month_le_of_monthLength? {leap : Bool} {month len : Nat}
    (h : monthLength? leap month = some len) : 1 ≤ month ∧ month ≤ 12 := by
  unfold monthLength? at h
  split at h
  · cases h
  · have hIndex : month - 1 < 12 := (List.getElem?_eq_some_iff.1 h).1
    omega

/-- No month is longer in another year than in a leap year. -/
theorem monthLength?_le {leap : Bool} {month len : Nat}
    (h : monthLength? leap month = some len) :
    ∃ max, monthLength? true month = some max ∧ len ≤ max := by
  have hAll : ∀ leap, ∀ month < 13, ∀ len ∈ monthLength? leap month,
      ∃ max ∈ monthLength? true month, len ≤ max := by
    decide
  have hTwelve := (month_le_of_monthLength? h).2
  exact hAll leap month (by omega) len h

theorem day_le_of_ofDay (n : Int) :
    ∃ max, monthLength? true (Date.ofDay n).month = some max ∧ (Date.ofDay n).day ≤ max := by
  obtain ⟨hOne, hLength⟩ := Date.ofDay_valid n
  unfold Date.monthLength at hLength
  cases hMonth : monthLength? (isLeap (Date.ofDay n).year) (Date.ofDay n).month with
  | none =>
      rw [hMonth, Option.getD_none] at hLength
      omega
  | some len =>
      rw [hMonth, Option.getD_some] at hLength
      obtain ⟨max, hMax, hLe⟩ := monthLength?_le hMonth
      exact ⟨max, hMax, Nat.le_trans hLength hLe⟩

/-- February 29 is the sixtieth day of a leap year. -/
theorem leapDay_eq {n : Int} (hMonth : (Date.ofDay n).month = 2)
    (hDay : (Date.ofDay n).day = 29) :
    isLeap (Date.ofDay n).year = true ∧ n = yearStart (Date.ofDay n).year + 59 := by
  have hValid := Date.ofDay_valid n
  have hBack := Date.toDay_ofDay n
  generalize Date.ofDay n = d at *
  obtain ⟨year, month, day⟩ := d
  obtain rfl : month = 2 := hMonth
  obtain rfl : day = 29 := hDay
  rw [← hBack]
  cases hLeap : isLeap year with
  | false =>
      have hLong := hValid.2
      simp [Date.monthLength, hLeap, monthLength?, monthLengths] at hLong
  | true => simp [Date.toDay, hLeap, monthLengths, stretchStart]

/-! ## Weekdays -/

/-- From 2000 to 2024 every fourth year is a leap year, and each begins five
weekdays after the one before.  So the seven of them begin on all weekdays. -/
theorem exists_isLeap_weekday (k : Nat) {w : Nat} (hWeek : w ≤ 6) :
    ∃ year, isLeap year ∧ 2000 ≤ year ∧ year ≤ 2024 ∧ weekday (yearStart year + k) = w := by
  -- Three is the inverse of five among the weekdays.
  obtain ⟨steps, hFirst, hLast, hSteps⟩ :
      ∃ steps : Int, 0 ≤ steps ∧ steps ≤ 6 ∧ (yearStart 2000 + k + 4 + 5 * steps) % 7 = w :=
    ⟨3 * (w - (yearStart 2000 + k + 4)) % 7, by omega, by omega, by omega⟩
  have hStart : yearStart (2000 + 4 * steps) = yearStart 2000 + 1461 * steps := by
    simp only [yearStart]
    omega
  refine ⟨2000 + 4 * steps, ?_, by omega, by omega, ?_⟩
  · simp only [isLeap, Bool.and_eq_true, Bool.or_eq_true, beq_iff_eq, bne_iff_ne]
    omega
  · rw [weekday, hStart]
    omega

/-- Every date of a leap year falls on every weekday in some year. -/
theorem exists_date_weekday {month day max w : Nat} (hMonth : monthLength? true month = some max)
    (hOne : 1 ≤ day) (hMax : day ≤ max) (hWeek : w ≤ 6) :
    ∃ d, yearStart 2000 ≤ d ∧ d < yearStart 2025 ∧ (Date.ofDay d).month = month ∧
      (Date.ofDay d).day = day ∧ weekday d = w := by
  obtain ⟨place, hPlace, hDate⟩ := exists_place hMonth hOne hMax
  obtain ⟨year, hLeap, hFrom, hTo, hWeekday⟩ := exists_isLeap_weekday place hWeek
  have hFirst : yearStart 2000 ≤ yearStart year := yearStart_le hFrom
  have hLast : yearStart year ≤ yearStart 2024 := yearStart_le hTo
  have hLength : yearStart 2025 = yearStart 2024 + 366 := by decide
  obtain ⟨hDateMonth, hDateDay⟩ := hDate year hLeap
  exact ⟨yearStart year + place, by omega, by omega, hDateMonth, hDateDay, hWeekday⟩

/-! ## Minutes -/

namespace Minute

/-- The minute of a day that shows an hour and a minute of the hour. -/
theorem exists_ofDay (d : Int) {hour ofHour : Nat} (hHour : hour ≤ 23) (hMinute : ofHour ≤ 59) :
    ∃ m, day m = d ∧ Minute.hour m = hour ∧ Minute.ofHour m = ofHour := by
  refine ⟨d * perDay + hour * 60 + ofHour, ?_, ?_, ?_⟩
  · simp only [day, perDay]
    omega
  · simp only [Minute.hour, perDay]
    omega
  · simp only [Minute.ofHour, perDay]
    omega

end Minute

end Cron.Calendar
