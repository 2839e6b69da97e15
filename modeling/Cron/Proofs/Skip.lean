import Cron.Field

/-!
# What a skip passes over

A field that refuses a minute sends the search on with `Field.skip`.  The
search may only do so if every minute it passes over is refused as well.  The
reason is the same for all five fields: their component of a minute stays what
it is until the minute that `skip` leads to.  For the minute, the hour and the
two day fields this is division with remainder.  For the month it is a fact
about dates: the days up to the end of a month differ in the day only.

## Main results

* `valueAt_eq_of_lt_skip` — a component stays the same up to the skip.
* `ofDay_nextMonth` — the skip over a month leads to its successor's first day.
-/

namespace Cron

open Calendar

/-! ## Days of one month -/

namespace Calendar

/-- A later day of the same month has the same year and month. -/
theorem ofDay_add (n : Int) (k : Nat)
    (hk : (Date.ofDay n).day + k ≤ (Date.ofDay n).monthLength) :
    Date.ofDay (n + k) =
      { Date.ofDay n with day := (Date.ofDay n).day + k } := by
  have hValid := Date.ofDay_valid n
  have hBack := Date.toDay_ofDay n
  have hLater : ({ Date.ofDay n with day := (Date.ofDay n).day + k } : Date).Valid := by
    unfold Date.Valid at hValid ⊢
    exact ⟨Nat.le_add_right_of_le hValid.1, hk⟩
  have hDay : ({ Date.ofDay n with day := (Date.ofDay n).day + k } : Date).toDay =
      n + k := by
    have hOne := hValid.1
    unfold Date.toDay at hBack ⊢
    dsimp only at hBack ⊢
    omega
  rw [← hDay, Date.ofDay_toDay hLater]

/-- The month does not change before the next one begins. -/
theorem month_eq_of_lt_nextMonth {n d : Int} (hFrom : n ≤ d)
    (hTo : d < nextMonth n) : (Date.ofDay d).month = (Date.ofDay n).month := by
  obtain ⟨k, rfl⟩ : ∃ k : Nat, d = n + k := ⟨(d - n).toNat, by omega⟩
  have hValid := (Date.ofDay_valid n).2
  have hk : (Date.ofDay n).day + k ≤ (Date.ofDay n).monthLength := by
    unfold nextMonth at hTo
    omega
  rw [ofDay_add n k hk]

/-- A stretch begins where the one before it ends. -/
theorem stretchStart_succ {lens : List Nat} {i len : Nat}
    (hGet : lens[i]? = some len) :
    stretchStart lens (i + 1) = stretchStart lens i + len := by
  induction lens generalizing i with
  | nil => cases hGet
  | cons l rest ih =>
      cases i with
      | zero =>
          obtain rfl : l = len := Option.some.inj hGet
          simp [stretchStart]
      | succ i =>
          have hRest := ih (i := i) (by simpa using hGet)
          simp only [stretchStart] at hRest ⊢
          omega

private theorem monthLength_pos (leap : Bool) (i : Nat) (hi : i < 12) :
    ∃ len, (monthLengths leap)[i]? = some len ∧ 1 ≤ len := by
  have hAll : ∀ leap, ∀ len ∈ monthLengths leap, 1 ≤ len := by decide
  have hLength : i < (monthLengths leap).length := hi
  exact ⟨(monthLengths leap)[i], List.getElem?_eq_getElem hLength,
    hAll leap _ (List.getElem_mem hLength)⟩

private theorem valid_first (year : Int) (month : Nat) (hOne : 1 ≤ month)
    (hTwelve : month ≤ 12) : Date.Valid ⟨year, month, 1⟩ := by
  obtain ⟨len, hLen, hPos⟩ := monthLength_pos (isLeap year) (month - 1) (by omega)
  refine ⟨Nat.le_refl 1, ?_⟩
  simp only [Date.monthLength, monthLength?, hLen]
  rw [if_neg (by omega), Option.getD_some]
  exact hPos

/-- The month after a month of its year, and January after December. -/
theorem ofDay_nextMonth (n : Int) :
    Date.ofDay (nextMonth n) =
      if (Date.ofDay n).month = 12 then ⟨(Date.ofDay n).year + 1, 1, 1⟩
      else ⟨(Date.ofDay n).year, (Date.ofDay n).month + 1, 1⟩ := by
  have hBack := Date.toDay_ofDay n
  have hValid := Date.ofDay_valid n
  have hMonth := (Date.ofDay_bounds n).1
  unfold nextMonth
  generalize Date.ofDay n = d at *
  obtain ⟨year, month, day⟩ := d
  unfold Date.Valid at hValid
  dsimp only at hMonth hValid ⊢
  obtain ⟨len, hLen, -⟩ := monthLength_pos (isLeap year) (month - 1) (by omega)
  have hThis : ({ year, month, day } : Date).monthLength = len := by
    simp only [Date.monthLength, monthLength?, hLen]
    rw [if_neg (by omega), Option.getD_some]
  have hEnd := stretchStart_succ hLen
  rw [show month - 1 + 1 = month by omega] at hEnd
  rw [hThis] at hValid ⊢
  unfold Date.toDay at hBack
  dsimp only at hBack
  by_cases hDecember : month = 12
  · have hDay : (⟨year + 1, 1, 1⟩ : Date).toDay = n + (len - day : Nat) + 1 := by
      have hTotal := stretchStart_monthLengths (isLeap year)
      have hNextYear := yearStart_succ year
      have hJanuary : stretchStart (monthLengths (isLeap (year + 1))) (1 - 1) = 0 := rfl
      rw [show (monthLengths (isLeap year)).length = month from hDecember.symm] at hTotal
      simp only [Date.toDay, hJanuary]
      by_cases hLeap : isLeap year
      · rw [if_pos hLeap] at hTotal hNextYear
        omega
      · rw [if_neg hLeap] at hTotal hNextYear
        omega
    rw [if_pos hDecember, ← hDay,
      Date.ofDay_toDay (valid_first (year + 1) 1 (by omega) (by omega))]
  · have hDay : (⟨year, month + 1, 1⟩ : Date).toDay = n + (len - day : Nat) + 1 := by
      simp only [Date.toDay, Nat.add_sub_cancel]
      omega
    rw [if_neg hDecember, ← hDay,
      Date.ofDay_toDay (valid_first year (month + 1) (by omega) (by omega))]

end Calendar

/-! ## Components up to the skip -/

namespace Field

/-- The component that a field constrains is the same at every minute before
the one that `skip` goes to. -/
theorem valueAt_eq_of_lt_skip (f : Field) {m n : Int} (hFrom : m ≤ n)
    (hTo : n < f.skip m) : f.valueAt n = f.valueAt m := by
  cases f with
  | minute =>
      have hSame : n = m := by
        simp only [skip] at hTo
        omega
      rw [hSame]
  | hour =>
      simp only [skip, Minute.nextHour] at hTo
      simp only [valueAt, Minute.hour]
      omega
  | dayOfMonth | dayOfWeek =>
      have hDay : Minute.day n = Minute.day m := by
        simp only [skip, Minute.nextDay, Minute.startOfDay, Minute.day,
          Minute.perDay] at *
        omega
      simp only [valueAt, Minute.date, hDay]
  | month =>
      have hBelow : Minute.day m ≤ Minute.day n := by
        simp only [Minute.day, Minute.perDay]
        omega
      have hAbove : Minute.day n < nextMonth (Minute.day m) := by
        simp only [skip, Minute.nextMonth, Minute.startOfDay] at hTo
        simp only [Minute.day, Minute.perDay] at *
        omega
      exact month_eq_of_lt_nextMonth hBelow hAbove

end Field

end Cron
