import Cron.Proofs.LeapYear
import Cron.Proofs.Meaning
import Cron.Proofs.Search

/-!
# The default horizon is enough

A schedule whose days of the week are not constrained runs within the default
horizon if it ever runs: if some day that it names exists in some month that it
names, with February counted as in a leap year.

Three things come together.  The search misses nothing, so a single minute is
enough.  No field of a reachable schedule is dead: its pattern accepts some
value within the bounds, so that an hour and a minute are always found.  And
every date of a leap year comes up within 2922 days, which leaves time for the
hours of the last day, whatever the time of day is at the start.

## Main results

* `Pattern.Canonical.exists_accepts` — no field is dead.
* `minute_of_add?_ofDays` — the horizon in minutes, leap seconds included.
* `Schedule.default_horizon_suffices` — a run is found exactly if there is such
  a date.
-/

namespace Cron

open Calendar

/-! ## No field is dead -/

theorem Field.min_le_max (f : Field) : f.min ≤ f.max := by
  cases f <;> decide

namespace Pattern

theorem IsItem.exists_denotes {f : Field} {p : Pattern} (h : IsItem f p) :
    ∃ i v, p.item? = some i ∧ i.Denotes v ∧ f.min ≤ v ∧ v ≤ f.max := by
  cases p with
  | all => exact ⟨.all, f.min, rfl, trivial, Nat.le_refl _, f.min_le_max⟩
  | value v => exact ⟨_, v.toNat, rfl, rfl, h⟩
  | range first last =>
      obtain ⟨hFirst, -, hLt⟩ := h
      have hLe : first.toNat ≤ last.toNat := Nat.le_of_lt (UInt8.lt_iff_toNat_lt.1 hLt)
      exact ⟨_, first.toNat, rfl, ⟨Nat.le_refl _, hLe⟩, hFirst⟩
  | step anchor interval =>
      obtain ⟨-, hAnchor, hInterval, -⟩ := h
      cases anchor with
      | none => exact ⟨_, interval.toNat, rfl, Nat.dvd_refl _, hInterval⟩
      | some a => exact ⟨_, a.toNat, rfl, rfl, hAnchor a rfl⟩
  | list items => exact h.elim

theorem Canonical.exists_accepts {f : Field} {p : Pattern} (h : Canonical f p) :
    ∃ v, f.min ≤ v ∧ v ≤ f.max ∧ p.accepts v = true := by
  have hEach {q : Pattern} (hq : IsItem f q) (v : Nat) : q.Decides v (q.accepts v = true) := by
    obtain ⟨i, hItem⟩ := hq.exists_item?
    exact (decides_of_item? hq hItem v).accepts
  have hItem {q : Pattern} (hq : IsItem f q) :
      ∃ v, f.min ≤ v ∧ v ≤ f.max ∧ q.accepts v = true := by
    obtain ⟨i, v, hItem, hDenotes, hMin, hMax⟩ := hq.exists_denotes
    exact ⟨v, hMin, hMax, (decides_of_item? hq hItem v).accepts_iff.2 hDenotes⟩
  rcases h.isItem_or_list with hOne | ⟨items, rfl, hLength, hItems, -⟩
  · exact hItem hOne
  · obtain ⟨q, hq⟩ := List.exists_mem_of_length_pos (Nat.lt_of_lt_of_le Nat.zero_lt_two hLength)
    obtain ⟨v, hMin, hMax, hAccepts⟩ := hItem (hItems q hq)
    have hList := decides_list fun r hr => hEach (hItems r hr) v
    exact ⟨v, hMin, hMax, hList.accepts_iff.2 ⟨q, hq, hAccepts⟩⟩

end Pattern

/-! ## The horizon in minutes -/

namespace Calendar.DateTime

/-- Whole days later the clock shows the same minute.  A leap second counts as
the second it belongs to. -/
theorem minute_of_add?_ofDays {t u : DateTime} {days : Int} (hDays : 0 < days)
    (h : t.add? (.ofDays days) = some u) : u.minute = t.minute + days * Minute.perDay := by
  have hNano := t.nano_lt
  have hLength : (Duration.ofDays days).nanos = days * 86400 * 1000000000 := by
    simp only [Duration.ofDays, Duration.ofSeconds, billion, Int.add_zero]
  have hSecond : u.second = t.second + days * 86400 := by
    by_cases hOrdinary : t.nano < 1000000000
    · rw [add?_of_nano_lt hOrdinary, hLength] at h
      rw [(ofSecond?_eq_some_iff.1 h).1, billion]
      omega
    · have hPast : 2 * billion ≤ t.nano + (Duration.ofDays days).nanos := by
        rw [hLength, billion]
        omega
      simp only [add?, if_neg hOrdinary, dif_pos hPast] at h
      rw [(ofSecond?_eq_some_iff.1 h).1, hLength, billion]
      omega
  simp only [minute, hSecond, Minute.perDay]
  omega

end Calendar.DateTime

namespace Schedule

theorem exists_nextMinute_iff (s : Schedule) {start limit : DateTime}
    (hLimit : start.add? defaultHorizon = some limit) :
    (∃ m, (s.nextMinute start).value = .ok m) ↔
      (s.runsWithin start.minute limit.minute).Nonempty := by
  have hFirst := s.search_isFirst #[] start.spanned_minute limit.spanned_minute
  simp only [nextMinute_eq_ok_iff, hLimit, Option.some.injEq, exists_eq_left']
  exact hFirst.exists_eq_some_iff

/-! ## Dates that come up -/

/-- Some day that the schedule names exists in some month that it names, with
February counted as 29 days long. -/
def HasDate (s : Schedule) : Prop :=
  ∃ month day max, (1 ≤ month ∧ month ≤ 12) ∧ monthLength? true month = some max ∧
    (1 ≤ day ∧ day ≤ max) ∧ s.month.accepts month = true ∧ s.dayOfMonth.accepts day = true

theorem hasDate_of_runsAt {s : Schedule} {m : Int} (h : s.runsAt m) : s.HasDate := by
  have hFields := (s.runsAt_iff m).1 h
  obtain ⟨max, hMax, hLe⟩ := day_le_of_ofDay (Minute.day m)
  exact ⟨_, _, max, month_le_of_monthLength? hMax, hMax,
    ⟨(Date.ofDay_valid (Minute.day m)).1, hLe⟩, hFields .month, hFields .dayOfMonth⟩

/-- On a day whose date and weekday are accepted the schedule runs at some time of
day. -/
theorem exists_runsAt_onDay {s : Schedule} (hCanonical : ∀ f, (s.field f).Canonical f) {d : Int}
    (hMonth : s.month.accepts (Date.ofDay d).month = true)
    (hDay : s.dayOfMonth.accepts (Date.ofDay d).day = true)
    (hWeekday : s.dayOfWeek.accepts (weekday d) = true) :
    ∃ m, Minute.day m = d ∧ s.runsAt m := by
  obtain ⟨hour, -, hHour, hHourAccepts⟩ := (hCanonical .hour).exists_accepts
  obtain ⟨ofHour, -, hMinute, hMinuteAccepts⟩ := (hCanonical .minute).exists_accepts
  obtain ⟨m, hm, hmHour, hmMinute⟩ := Minute.exists_ofDay d hHour hMinute
  refine ⟨m, hm, (s.runsAt_iff m).2 fun f => ?_⟩
  cases f with
  | minute =>
      rw [Field.valueAt, hmMinute]
      exact hMinuteAccepts
  | hour =>
      rw [Field.valueAt, hmHour]
      exact hHourAccepts
  | dayOfMonth =>
      rw [Field.valueAt, Minute.date, hm]
      exact hDay
  | month =>
      rw [Field.valueAt, Minute.date, hm]
      exact hMonth
  | dayOfWeek =>
      rw [Field.valueAt, hm]
      exact hWeekday

/-- On some day after `n`, at most 2922 days on, the schedule runs at some time of
day. -/
theorem exists_runsAt {s : Schedule} (hCanonical : ∀ f, (s.field f).Canonical f)
    (hWeek : ∀ v ≤ 6, s.dayOfWeek.accepts v = true) (hDate : s.HasDate) (n : Int) :
    ∃ m, n < Minute.day m ∧ Minute.day m ≤ n + 2922 ∧ s.runsAt m := by
  obtain ⟨month, day, max, -, hMax, ⟨hOne, hLe⟩, hMonth, hDay⟩ := hDate
  obtain ⟨d, hAfter, hWithin, rfl, rfl⟩ := exists_date hMax hOne hLe n
  have hWeekday : s.dayOfWeek.accepts (weekday d) = true := hWeek _ (weekday_le d)
  obtain ⟨m, rfl, hRuns⟩ := exists_runsAt_onDay hCanonical hMonth hDay hWeekday
  exact ⟨m, hAfter, hWithin, hRuns⟩

/-- A reachable schedule that leaves the days of the week open has a next run
within the default horizon exactly if it names a date of a leap year.  So the
search for February 29 alone always finds it, also past a century year that has
none. -/
theorem default_horizon_suffices {s : Schedule} {start limit : DateTime} (h : s.Reachable)
    (hWeek : ∀ v ≤ 6, s.dayOfWeek.accepts v = true)
    (hLimit : start.add? (.ofDays 2928) = some limit) :
    ((∃ m, (s.nextMinute start).value = .ok m) ↔ s.HasDate) ∧
    (s.month = .value 2 → s.dayOfMonth = .value 29 →
      ∃ m, (s.nextMinute start).value = .ok m) := by
  have hEnd : limit.minute = start.minute + 2928 * Minute.perDay :=
    DateTime.minute_of_add?_ofDays (by decide) hLimit
  have hFound : (∃ m, (s.nextMinute start).value = .ok m) ↔ s.HasDate := by
    rw [s.exists_nextMinute_iff hLimit]
    constructor
    · rintro ⟨m, -, -, hRuns⟩
      exact hasDate_of_runsAt hRuns
    · intro hDate
      obtain ⟨m, hAfter, hWithin, hRuns⟩ :=
        exists_runsAt h.canonical hWeek hDate (Minute.day start.minute)
      refine ⟨m, ?_, ?_, hRuns⟩
      · simp only [Minute.day, Minute.perDay] at hAfter
        omega
      · rw [hEnd]
        simp only [Minute.day, Minute.perDay] at hWithin ⊢
        omega
  refine ⟨hFound, fun hFebruary hLeapDay => hFound.2 ⟨2, 29, 29, ?_⟩⟩
  rw [hFebruary, hLeapDay]
  decide

/-- The search from the leap second that ends the leap day of 1896 finds the next
one, eight years later. -/
theorem leapDay_found_past_1900 :
    ∃ start limit : DateTime,
      DateTime.ofDate? ⟨1896, 2, 29⟩ 23 59 59 1500000000 = some start ∧
      start.add? (.ofDays 2928) = some limit ∧
      parse "30 12 29 2 *" =
        .ok { minute := .value 30, hour := .value 12, dayOfMonth := .value 29,
              month := .value 2 } ∧
      ∃ m, (nextMinute { minute := .value 30, hour := .value 12, dayOfMonth := .value 29,
                         month := .value 2 } start).value = .ok m ∧
        Minute.date m = ⟨1904, 2, 29⟩ ∧ Minute.hour m = 12 ∧ Minute.ofHour m = 30 := by
  have hParse : parse "30 12 29 2 *" =
      .ok { minute := .value 30, hour := .value 12, dayOfMonth := .value 29,
            month := .value 2 } := by
    decide +kernel
  have hLimit : DateTime.add? ⟨-2330035201, 1500000000, by decide, by decide, by decide⟩
      (.ofDays 2928) = some ⟨-2077056001, 500000000, by decide, by decide, by decide⟩ := by
    decide
  refine ⟨_, _, by decide, hLimit, hParse, ?_⟩
  obtain ⟨m, hFound⟩ :=
    (default_horizon_suffices (.parse hParse) (fun _ _ => rfl) hLimit).2 rfl rfl
  obtain ⟨limit, hLimit', hSearch⟩ := (nextMinute_eq_ok_iff _ _ m).1 hFound
  obtain rfl := Option.some.inj (hLimit.symm.trans hLimit')
  obtain ⟨hAfter, hUpTo⟩ := lt_of_search hSearch
  have hRuns := (runsAt_iff _ m).1 (runsAt_of_search hSearch)
  have hMinute : Minute.ofHour m = 30 := beq_iff_eq.1 (hRuns .minute)
  have hHour : Minute.hour m = 12 := beq_iff_eq.1 (hRuns .hour)
  have hDay : (Minute.date m).day = 29 := beq_iff_eq.1 (hRuns .dayOfMonth)
  have hMonth : (Minute.date m).month = 2 := beq_iff_eq.1 (hRuns .month)
  obtain ⟨hLeap, hOfYear⟩ := leapDay_eq hMonth hDay
  -- The year is a leap year after 1896 and not after 1904, and 1900 is none.
  have hYear : (Minute.date m).year = 1904 := by
    change isLeap (Minute.date m).year = true at hLeap
    change m / 1440 = yearStart (Minute.date m).year + 59 at hOfYear
    change -2330035201 / 60 < m at hAfter
    change m ≤ -2077056001 / 60 at hUpTo
    have hFirst : 1896 < (Minute.date m).year := by
      by_contra hLess
      have hLe := yearStart_le (Int.not_lt.1 hLess)
      have hStart : yearStart 1896 = -27028 := rfl
      simp only [Minute.hour] at hHour
      omega
    have hLast : (Minute.date m).year < 1905 := by
      by_contra hMore
      have hLe := yearStart_le (Int.not_lt.1 hMore)
      have hStart : yearStart 1905 = -23741 := rfl
      omega
    simp only [isLeap, Bool.and_eq_true, Bool.or_eq_true, beq_iff_eq, bne_iff_ne] at hLeap
    omega
  refine ⟨m, hFound, ?_, hHour, hMinute⟩
  rw [← hYear, ← hMonth, ← hDay]

end Schedule

end Cron
