/-!
# The Gregorian calendar

Days are counted from 1970-01-01, day `0`, in both directions, and named by
year, month and day of the month.  The calendar is extended to all years by its
own leap year rule: there is a year zero, and years before it are negative.

`yearStart` is a closed formula, and `yearOf` inverts it: the mean length of a
year, `146097 / 400` days, puts its estimate at most one year off.  Inside a
year the months are walked one by one.

## Main results

* `yearStart_yearOf_le`, `lt_yearStart_yearOf` — `yearOf n` is the year that
  day `n` lies in.
* `ofDay_valid`, `toDay_ofDay`, `ofDay_toDay` — day numbers and valid dates
  correspond one to one.
-/

namespace Cron.Calendar

/-! ## Years -/

/-- Every fourth year has a leap day, but of the century years only every fourth. -/
def isLeap (year : Int) : Bool :=
  year % 4 == 0 && (year % 100 != 0 || year % 400 == 0)

/-- The number of the first day of a year. -/
def yearStart (year : Int) : Int :=
  365 * (year - 1) + (year - 1) / 4 - (year - 1) / 100 + (year - 1) / 400 - 719162

/-- The year of a day. -/
def yearOf (day : Int) : Int :=
  let estimate := 400 * (day + 719162) / 146097 + 1
  if day < yearStart estimate then estimate - 1
  else if yearStart (estimate + 1) ≤ day then estimate + 1
  else estimate

theorem yearStart_yearOf_le (day : Int) : yearStart (yearOf day) ≤ day := by
  rw [yearOf]
  split
  · simp only [yearStart] at *
    omega
  · split <;> simp only [yearStart] at * <;> omega

theorem lt_yearStart_yearOf (day : Int) : day < yearStart (yearOf day + 1) := by
  rw [yearOf]
  split
  · simp only [yearStart] at *
    omega
  · split <;> simp only [yearStart] at * <;> omega

theorem yearStart_succ (year : Int) :
    yearStart (year + 1) = yearStart year + if isLeap year then 366 else 365 := by
  simp only [yearStart, isLeap, Bool.and_eq_true, Bool.or_eq_true, beq_iff_eq, bne_iff_ne]
  split <;> omega

theorem yearStart_lt {a b : Int} (h : a < b) : yearStart a < yearStart b := by
  simp only [yearStart]
  omega

/-- A year is determined by any of its days. -/
theorem yearOf_eq {day year : Int} (hFirst : yearStart year ≤ day)
    (hLast : day < yearStart (year + 1)) : yearOf day = year := by
  have hBelow := yearStart_yearOf_le day
  have hAbove := lt_yearStart_yearOf day
  rcases Int.lt_trichotomy (yearOf day) year with hLess | hEq | hMore
  · rcases Int.lt_or_eq_of_le (show yearOf day + 1 ≤ year by omega) with hLt | hNext
    · have hStart := yearStart_lt hLt
      omega
    · rw [hNext] at hAbove
      omega
  · exact hEq
  · rcases Int.lt_or_eq_of_le (show year + 1 ≤ yearOf day by omega) with hLt | hNext
    · have hStart := yearStart_lt hLt
      omega
    · rw [← hNext] at hBelow
      omega

/-! ## Months -/

/-- The lengths of the months of a leap year or of another year. -/
def monthLengths (leap : Bool) : List Nat :=
  [31, if leap then 29 else 28, 31, 30, 31, 30, 31, 31, 30, 31, 30, 31]

/-- The length of a month, counted from one. -/
def monthLength? (leap : Bool) (month : Nat) : Option Nat :=
  if month = 0 then none else (monthLengths leap)[month - 1]?

/-! ## Stretches

The months of a year are consecutive stretches of days.  A position in a run of
stretches is the index of a stretch and the position inside it. -/

/-- Where a stretch begins: the length of the ones before it. -/
def stretchStart : List Nat → Nat → Nat
  | _, 0 => 0
  | [], _ + 1 => 0
  | len :: rest, i + 1 => len + stretchStart rest i

/-- The stretch that holds the position `k`, and the position inside it. -/
def place : List Nat → Nat → Nat × Nat
  | [], k => (0, k)
  | len :: rest, k =>
      if k < len then (0, k) else ((place rest (k - len)).1 + 1, (place rest (k - len)).2)

theorem place_spec {lens : List Nat} {k : Nat} (h : k < stretchStart lens lens.length) :
    ∃ len, lens[(place lens k).1]? = some len ∧ (place lens k).2 < len ∧
      stretchStart lens (place lens k).1 + (place lens k).2 = k := by
  induction lens generalizing k with
  | nil => exact absurd h (Nat.not_lt_zero k)
  | cons len rest ih =>
      by_cases hk : k < len
      · exact ⟨len, by simp [place, hk, stretchStart]⟩
      · rw [List.length_cons, stretchStart] at h
        obtain ⟨l, hGet, hLt, hStart⟩ :=
          ih (show k - len < stretchStart rest rest.length by omega)
        refine ⟨l, ?_⟩
        simp only [place, hk, if_false, List.getElem?_cons_succ, stretchStart]
        exact ⟨hGet, hLt, by omega⟩

theorem place_stretchStart_add {lens : List Nat} {i len k : Nat} (hGet : lens[i]? = some len)
    (hLt : k < len) : place lens (stretchStart lens i + k) = (i, k) := by
  induction lens generalizing i with
  | nil => cases hGet
  | cons l rest ih =>
      cases i with
      | zero =>
          obtain rfl : l = len := Option.some.inj hGet
          simp [place, stretchStart, hLt]
      | succ i =>
          rw [stretchStart, Nat.add_assoc, place, if_neg (by omega), Nat.add_sub_cancel_left,
            ih (by simpa using hGet)]

theorem stretchStart_add_lt {lens : List Nat} {i len k : Nat} (hGet : lens[i]? = some len)
    (hLt : k < len) : stretchStart lens i + k < stretchStart lens lens.length := by
  induction lens generalizing i with
  | nil => cases hGet
  | cons l rest ih =>
      cases i with
      | zero =>
          obtain rfl : l = len := Option.some.inj hGet
          rw [List.length_cons, stretchStart, stretchStart]
          omega
      | succ i =>
          have hRest := ih (i := i) (by simpa using hGet)
          rw [List.length_cons, stretchStart, stretchStart]
          omega

theorem stretchStart_monthLengths (leap : Bool) :
    stretchStart (monthLengths leap) (monthLengths leap).length = if leap then 366 else 365 := by
  cases leap <;> rfl

/-! ## Dates -/

/-- A day by year, month and day of the month; months and days count from one. -/
structure Date where
  year : Int
  month : Nat
  day : Nat
deriving DecidableEq, Repr

namespace Date

/-- The number of days of the date's month; zero if there is no such month. -/
def monthLength (d : Date) : Nat := (monthLength? (isLeap d.year) d.month).getD 0

/-- The date exists: the month is one of the twelve, and it has such a day. -/
def Valid (d : Date) : Prop := 1 ≤ d.day ∧ d.day ≤ d.monthLength

instance (d : Date) : Decidable d.Valid := inferInstanceAs (Decidable (_ ∧ _))

/-- The date of a day. -/
def ofDay (n : Int) : Date :=
  let year := yearOf n
  let (month, day) := place (monthLengths (isLeap year)) (n - yearStart year).toNat
  ⟨year, month + 1, day + 1⟩

/-- The number of the day with a date. -/
def toDay (d : Date) : Int :=
  yearStart d.year + (stretchStart (monthLengths (isLeap d.year)) (d.month - 1) + (d.day - 1) : Nat)

private theorem dayOfYear_lt (n : Int) :
    (n - yearStart (yearOf n)).toNat < stretchStart (monthLengths (isLeap (yearOf n)))
      (monthLengths (isLeap (yearOf n))).length := by
  have hBelow := yearStart_yearOf_le n
  have hAbove := lt_yearStart_yearOf n
  rw [yearStart_succ] at hAbove
  rw [stretchStart_monthLengths]
  by_cases hLeap : isLeap (yearOf n)
  · simp only [hLeap, if_true] at hAbove ⊢
    omega
  · simp only [hLeap, Bool.false_eq_true, if_false] at hAbove ⊢
    omega

theorem ofDay_valid (n : Int) : (ofDay n).Valid := by
  obtain ⟨len, hGet, hLt, -⟩ := place_spec (dayOfYear_lt n)
  simp only [Valid, monthLength, monthLength?, ofDay, Nat.add_sub_cancel, hGet,
    Nat.add_eq_zero_iff, Nat.one_ne_zero, and_false, if_false, Option.getD_some]
  omega

/-- The months of a date run to twelve and the days at most to 31. -/
theorem ofDay_bounds (n : Int) :
    (1 ≤ (ofDay n).month ∧ (ofDay n).month ≤ 12) ∧ 1 ≤ (ofDay n).day ∧ (ofDay n).day ≤ 31 := by
  obtain ⟨len, hGet, hLt, -⟩ := place_spec (dayOfYear_lt n)
  obtain ⟨hIndex, -⟩ := List.getElem?_eq_some_iff.1 hGet
  have hTwelve : (monthLengths (isLeap (yearOf n))).length = 12 := rfl
  have hAtMost : ∀ leap, ∀ l ∈ monthLengths leap, l ≤ 31 := by decide
  have hShort := hAtMost _ len (List.mem_of_getElem? hGet)
  simp only [ofDay]
  omega

theorem toDay_ofDay (n : Int) : (ofDay n).toDay = n := by
  obtain ⟨len, hGet, hLt, hStart⟩ := place_spec (dayOfYear_lt n)
  simp only [toDay, ofDay, Nat.add_sub_cancel, hStart]
  have hBelow := yearStart_yearOf_le n
  omega

theorem ofDay_toDay {d : Date} (h : d.Valid) : ofDay d.toDay = d := by
  obtain ⟨year, month, day⟩ := d
  obtain ⟨hOne, hLe⟩ := h
  simp only [monthLength, monthLength?] at hOne hLe
  by_cases hMonth : month = 0
  · simp only [hMonth, if_true, Option.getD_none] at hLe
    omega
  simp only [hMonth, if_false] at hLe
  cases hGet : (monthLengths (isLeap year))[month - 1]? with
  | none =>
      simp only [hGet, Option.getD_none] at hLe
      omega
  | some len =>
      simp only [hGet, Option.getD_some] at hLe
      have hPlaced := place_stretchStart_add hGet (show day - 1 < len by omega)
      have hStart := stretchStart_add_lt hGet (show day - 1 < len by omega)
      have hInside : yearOf (toDay ⟨year, month, day⟩) = year := by
        refine yearOf_eq ?_ ?_
        · simp only [toDay]
          omega
        · rw [yearStart_succ, toDay]
          rw [stretchStart_monthLengths] at hStart
          by_cases hLeap : isLeap year
          · simp only [hLeap, if_true] at hStart ⊢
            omega
          · simp only [hLeap, Bool.false_eq_true, if_false] at hStart ⊢
            omega
      have hPosition : (toDay ⟨year, month, day⟩ - yearStart year).toNat =
          stretchStart (monthLengths (isLeap year)) (month - 1) + (day - 1) := by
        simp only [toDay]
        omega
      simp only [ofDay, hInside, hPosition, hPlaced, Date.mk.injEq, true_and]
      omega

end Date

/-! ## Weeks and month ends -/

/-- The day of the week, counted from Sunday, `0`; day `0` was a Thursday. -/
def weekday (n : Int) : Nat := ((n + 4) % 7).toNat

theorem weekday_le (n : Int) : weekday n ≤ 6 := by
  rw [weekday]
  omega

/-- The first day of the month after the one that day `n` lies in. -/
def nextMonth (n : Int) : Int :=
  n + ((Date.ofDay n).monthLength - (Date.ofDay n).day : Nat) + 1

theorem lt_nextMonth (n : Int) : n < nextMonth n := by
  simp only [nextMonth]
  omega

end Cron.Calendar
