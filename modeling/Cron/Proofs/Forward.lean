import Cron.Proofs.Instants
import Cron.Proofs.Zoned

/-!
# Clocks that are only set forward

The search goes through minutes of the wall clock, and promises the least of
them.  Where a clock is set back this need not be the earliest instant.  Where
it is only ever set forward it is: the wall clock then ascends strictly with
universal time, and it shows each minute once at most.

The invariant of a walk along the transitions is that no offset still to come
is smaller than the one in force.  So offsets ascend with time
(`offsetAt_le`), which gives both facts: a later instant shows a later time,
and two instants that show the same minute have the same offset.

## Main results

* `Zone.OnlyForward.wall_lt` — a later instant shows a later time.
* `Zone.OnlyForward.earliest?_eq` — the earliest instant that shows the minute
  of an instant is this instant.
* `Schedule.nextWithin_first_of_onlyForward` — no run before the one that is
  found, and none within the horizon if none is found.
-/

namespace Cron

open Calendar

namespace Calendar.Zone

/-- The transitions ascend, and no offset is smaller than one before it, the
initial one included. -/
structure OnlyForward (z : Zone) : Prop where
  seconds_ascend : z.transitions.Pairwise fun s t => s.second ≤ t.second
  offsets_ascend : z.offsets.Pairwise (· ≤ ·)

/-- The wall clock shows a whole minute at a universal time. -/
def OnMinute (z : Zone) (utc : DateTime) : Prop :=
  (utc.second + z.offsetAt utc.second) % 60 = 0 ∧ utc.nano = 0

/-! ## Offsets -/

/-- Before all transitions the initial offset is in force. -/
theorem offsetAt_of_lt {initial x : Int} {transitions : List Transition}
    (h : ∀ t ∈ transitions, x < t.second) : offsetAt ⟨initial, transitions⟩ x = initial := by
  induction transitions with
  | nil => rfl
  | cons t rest ih =>
      have hFirst : ¬ t.second ≤ x := by
        have hLt := h t List.mem_cons_self
        omega
      rw [offsetAt_cons, if_neg hFirst]
      exact ih fun u hu => h u (List.mem_cons_of_mem t hu)

namespace OnlyForward

/-- What is left of a zone after its first transition, from that transition on. -/
theorem tail {initial : Int} {t : Transition} {rest : List Transition}
    (h : OnlyForward ⟨initial, t :: rest⟩) : OnlyForward ⟨t.offset, rest⟩ :=
  ⟨(List.pairwise_cons.1 h.seconds_ascend).2, (List.pairwise_cons.1 h.offsets_ascend).2⟩

theorem initial_le_offsetAt {z : Zone} (h : z.OnlyForward) (x : Int) :
    z.initial ≤ z.offsetAt x := by
  have hMem := z.offsetAt_mem_offsets x
  rcases List.mem_cons.1 hMem with hInitial | hLater
  · omega
  · exact (List.pairwise_cons.1 h.offsets_ascend).1 _ hLater

theorem offsetAt_le {z : Zone} (h : z.OnlyForward) {x y : Int} (hLe : x ≤ y) :
    z.offsetAt x ≤ z.offsetAt y := by
  obtain ⟨initial, transitions⟩ := z
  induction transitions generalizing initial with
  | nil => exact Int.le_refl initial
  | cons t rest ih =>
      by_cases hPassed : t.second ≤ x
      · have hPassedToo : t.second ≤ y := by omega
        rw [offsetAt_cons, offsetAt_cons, if_pos hPassed, if_pos hPassedToo]
        exact ih t.offset h.tail
      · -- None of the transitions has come at `x`, whatever has come at `y`.
        have hNone : ∀ u ∈ t :: rest, x < u.second := by
          intro u hu
          rcases List.mem_cons.1 hu with rfl | hu
          · omega
          · have hLater := (List.pairwise_cons.1 h.seconds_ascend).1 u hu
            omega
        rw [offsetAt_of_lt hNone]
        exact h.initial_le_offsetAt y

/-! ## The wall clock -/

/-- A later universal time shows a later second, and none at all shows the same
one. -/
theorem second_lt {z : Zone} (h : z.OnlyForward) {x y : Int} (hLt : x < y) :
    x + z.offsetAt x < y + z.offsetAt y := by
  have hLe := h.offsetAt_le (Int.le_of_lt hLt)
  omega

/-- A later instant shows a later time. -/
theorem wall_lt {z : Zone} (h : z.OnlyForward) {i j : Instant z} (hLt : i < j) :
    i.wall < j.wall := by
  obtain ⟨hSecond, hNano⟩ := i.wall_eq
  obtain ⟨hSecond', hNano'⟩ := j.wall_eq
  rw [DateTime.lt_iff]
  rcases (DateTime.lt_iff i.utc j.utc).1 hLt with hBefore | ⟨hSame, hWithin⟩
  · have hStep := h.second_lt hBefore
    omega
  · rw [hSame] at hSecond
    omega

/-- The wall clock shows the minute of an instant at no other instant. -/
theorem earliest?_eq {z : Zone} (h : z.OnlyForward) {i : Instant z} (hMinute : i.wall.IsMinute) :
    z.earliest? i.wall.minute = some i := by
  obtain ⟨hNano, hMem⟩ := Instant.shows_iff.1 ⟨hMinute, rfl⟩
  refine earliest?_eq_some_iff.2 ⟨hNano, hMem, fun x hx => ?_⟩
  by_contra hLess
  have hStep := h.second_lt (Int.not_le.1 hLess)
  have hShown : x + z.offsetAt x = i.wall.minute * 60 := hx
  have hShown' : i.utc.second + z.offsetAt i.utc.second = i.wall.minute * 60 := hMem
  omega

end OnlyForward

end Calendar.Zone

/-! ## The search -/

namespace Schedule

variable {z : Zone} {start : Instant z} {limit : DateTime}

/-- A whole minute that is shown after the start, and not after the limit, is
that of an instant, and it is eligible if the schedule runs at it. -/
theorem exists_eligible_of_onMinute (h : z.OnlyForward) {s : Schedule} {t : DateTime}
    (hAfter : start.utc < t) (hMinute : z.OnMinute t)
    (hLimit : t.second + z.offsetAt t.second ≤ limit.second)
    (hRuns : s.runsAt (z.minuteAt t)) :
    ∃ i : Instant z, i.utc = t ∧ i.wall ∈ s.eligibleWithin start limit := by
  obtain ⟨hWhole, hNano⟩ := hMinute
  have hStart := start.wall_eq.1
  have hLater : start.utc.second < t.second := by
    rw [DateTime.lt_iff, hNano] at hAfter
    omega
  have hStep := h.second_lt hLater
  have hFirst := start.wall.first_le
  have hLast := limit.le_last
  let wall : DateTime := ⟨t.second + z.offsetAt t.second, 0, by omega, by omega, by decide⟩
  have hSecond : wall.second = t.second + z.offsetAt t.second := rfl
  obtain ⟨i, rfl, hWall⟩ := Instant.exists_of_wall hSecond hNano.symm
  have hOnMinute : i.wall.IsMinute := by
    rw [hWall]
    exact ⟨hWhole, rfl⟩
  have hUpTo : i.wall ≤ limit := by
    rw [hOnMinute.le_iff, hWall]
    exact Int.ediv_le_ediv (by decide) hLimit
  have hFields := (s.runsAt_iff _).1 hRuns
  rw [← i.minute_wall] at hFields
  exact ⟨i, rfl, ⟨hOnMinute, h.wall_lt hAfter, hUpTo, hFields⟩,
    i, .inl (h.earliest?_eq hOnMinute), hAfter⟩

/-- In a zone whose clock is only set forward, the run that is found is the first
one: at no time between the start and it does the clock show a whole minute at
which the schedule runs.  If none is found although the horizon stays within the
calendar, the clock shows no such minute up to the end of the horizon. -/
theorem nextWithin_first_of_onlyForward (h : z.OnlyForward) (s : Schedule)
    (start : Instant z) (horizon : Duration) :
    (∀ r, (s.nextWithin start horizon).value = .ok r →
      ∀ t, start.utc < t → t < r.utc → z.OnMinute t → ¬ s.runsAt (z.minuteAt t)) ∧
    (∀ e limit, (s.nextWithin start horizon).value = .error e →
      start.wall.add? horizon = some limit →
        ∀ t, start.utc < t → z.OnMinute t → t.second + z.offsetAt t.second ≤ limit.second →
          ¬ s.runsAt (z.minuteAt t)) := by
  constructor
  · intro r hOk t hAfter hBefore hMinute hRuns
    obtain ⟨limit, -, hLeast, -⟩ := isLeast_wall_of_nextWithin hOk
    have hWall := r.wall_eq
    have hNano : r.utc.nano = 0 := hWall.2.symm.trans hLeast.1.1.1.2
    have hEarlier : t.second < r.utc.second := by
      rw [DateTime.lt_iff, hNano] at hBefore
      omega
    have hStep := h.second_lt hEarlier
    have hUpTo := (DateTime.le_iff r.wall limit).1 hLeast.1.1.2.2.1
    have hLimit : t.second + z.offsetAt t.second ≤ limit.second := by omega
    obtain ⟨i, rfl, hEligible⟩ := exists_eligible_of_onMinute h hAfter hMinute hLimit hRuns
    have hLt : i.wall < r.wall := h.wall_lt hBefore
    have hLe : r.wall ≤ i.wall := hLeast.2 hEligible
    exact absurd hLt (Int.not_lt.2 hLe)
  · intro e limit hError hAdd t hAfter hMinute hLimit hRuns
    have hNone := ((s.nextWithin_eq_error_iff start horizon e).1 hError).2 limit hAdd
    obtain ⟨i, -, hEligible⟩ := exists_eligible_of_onMinute h hAfter hMinute hLimit hRuns
    rw [hNone] at hEligible
    exact hEligible

/-- From an hour before the clock is set forward at two, the first run at
half past two is that of the next day. -/
theorem first_run_past_gap :
    ∃ (z : Zone) (start r : Instant z), z = ⟨3600, [⟨1711846800, 7200⟩]⟩ ∧ z.OnlyForward ∧
      start.utc.second = 1711843200 ∧ r.utc.second = 1711931400 ∧
      (nextWithin { minute := .value 30, hour := .value 2 } start defaultHorizon).value = .ok r ∧
      ∀ t, start.utc < t → t < r.utc → z.OnMinute t →
        ¬ runsAt { minute := .value 30, hour := .value 2 } (z.minuteAt t) := by
  let z : Zone := ⟨3600, [⟨1711846800, 7200⟩]⟩
  let s : Schedule := { minute := .value 30, hour := .value 2 }
  let start : Instant z :=
    ⟨⟨1711843200, 0, by decide, by decide, by decide⟩,
      ⟨1711846800, 0, by decide, by decide, by decide⟩, by decide⟩
  have hForward : z.OnlyForward := ⟨by decide, by decide⟩
  have hFound : (s.nextWithin start defaultHorizon).value.toOption.map (·.utc.second) =
      some 1711931400 := by
    decide +kernel
  cases hValue : (s.nextWithin start defaultHorizon).value with
  | error e =>
      rw [hValue] at hFound
      cases hFound
  | ok r =>
      rw [hValue] at hFound
      exact ⟨z, start, r, rfl, hForward, rfl, Option.some.inj hFound, hValue,
        (nextWithin_first_of_onlyForward hForward s start defaultHorizon).1 r hValue⟩

end Schedule

end Cron
