import Cron.Proofs.Forward
import Cron.Proofs.Horizon
import Cron.Proofs.Sequence

/-!
# Asking again before the announced run

A program asks for the next run, sleeps, and asks again before that run is due.
The search goes by the wall clock of the moment at which it is asked.  So the
second answer is the first one as long as the wall clock has not gone behind
the first asking, nor past the announced run, in the meantime.  A clock that is
set back can do either, and then the answers may differ: in an hour that is
shown twice, a minute that was over at the first asking is still to come at the
second one.

Two facts carry this.  An instant that was chosen for a minute is chosen again,
since it still lies ahead while everything that lay behind the first start lies
behind the second one too.  And a minute that is eligible for the second search
was eligible for the first one, if the wall clock of the first had not reached it.

## Main results

* `showing?_of_lt` — the instant that is taken for a minute stays the same.
* `wall_le_of_mem_eligibleWithin` — the later search finds nothing before the announced
  run that the earlier one could have found.
* `nextWithin_again` — when the announced run is found again.
* `next_again_eq_iff` — the exact condition, and two cases in which it holds.
-/

namespace Cron.Schedule

open Calendar

variable {z : Zone} {s : Schedule} {a b r : Instant z} {horizon : Duration}

/-- A search that is known to end at a universal second ends at an instant there. -/
theorem exists_next_of_second {second : Int}
    (h : (s.next a).value.toOption.map (·.utc.second) = some second) :
    ∃ r, (s.next a).value = .ok r ∧ r.utc.second = second := by
  obtain ⟨r, hNext, hSecond⟩ := Option.map_eq_some_iff.1 h
  exact ⟨r, toOption_eq_some_iff.1 hNext, hSecond⟩

/-! ## From the earlier start to the later one -/

theorem showing?_of_lt {m : Int} (hLater : a < b) (hAhead : b < r)
    (hShown : showing? a m = some r) : showing? b m = some r := by
  rw [showing?_eq_some_iff] at hShown ⊢
  rcases hShown with ⟨hEarliest, -⟩ | ⟨hNone, hLatest, -⟩
  · exact .inl ⟨hEarliest, hAhead⟩
  · refine .inr ⟨fun j hEarliest hAfter => ?_, hLatest, hAhead⟩
    exact hNone j hEarliest (Int.lt_trans hLater hAfter)

theorem eligibleWithin_of_lt {last limit w : DateTime} (hLater : a < b)
    (hw : w ∈ s.eligibleWithin b limit) (hAfter : a.wall < w) (hLast : w ≤ last) :
    w ∈ s.eligibleWithin a last := by
  obtain ⟨i, hShown, hAhead⟩ := hw.2
  exact ⟨⟨isMinute_of_mem_eligibleWithin hw, hAfter, hLast, accepts_of_mem_eligibleWithin hw⟩,
    i, hShown, Int.lt_trans hLater hAhead⟩

theorem wall_le_of_mem_eligibleWithin {limit w : DateTime} (hLater : a < b)
    (hNext : (s.nextWithin a horizon).value = .ok r) (hw : w ∈ s.eligibleWithin b limit)
    (hAfter : a.wall < w) : r.wall ≤ w := by
  obtain ⟨last, -, hLeast, -⟩ := isLeast_wall_of_nextWithin hNext
  by_cases hLast : w ≤ last
  · exact hLeast.2 (eligibleWithin_of_lt hLater hw hAfter hLast)
  · have hUpTo : r.wall ≤ last := le_of_mem_eligibleWithin hLeast.1
    exact Int.le_trans hUpTo (Int.le_of_lt (Int.not_le.1 hLast))

/-- The announced run is found again if the wall clock has not reached it, the
search goes far enough, and everything that it may find lies after the wall clock
of the earlier start. -/
theorem nextWithin_again {limit : DateTime} (hLater : a < b)
    (hNext : (s.nextWithin a horizon).value = .ok r) (hAhead : b < r) (hWall : b.wall < r.wall)
    (hLimit : b.wall.add? horizon = some limit) (hUpTo : r.wall ≤ limit)
    (hAll : ∀ w ∈ s.eligibleWithin b limit, a.wall < w) :
    (s.nextWithin b horizon).value = .ok r := by
  obtain ⟨_, -, ⟨hMem, -⟩, hShown⟩ := isLeast_wall_of_nextWithin hNext
  have hAgain := showing?_of_lt hLater hAhead hShown
  have hEligible : r.wall ∈ s.eligibleWithin b limit :=
    ⟨⟨isMinute_of_mem_eligibleWithin hMem, hWall, hUpTo, accepts_of_mem_eligibleWithin hMem⟩,
      exists_showing?_iff.1 ⟨r, hAgain⟩⟩
  rw [nextWithin_eq_ok_iff]
  refine ⟨limit, r.wall, hLimit, ⟨hEligible, fun w hw => ?_⟩, hAgain⟩
  exact wall_le_of_mem_eligibleWithin hLater hNext hw (hAll w hw)

/-! ## The condition -/

/-- Whole days after a later wall clock the limit is later too. -/
theorem le_limit_of_wall_le {days : Int} {last limit w : DateTime} (hDays : 0 < days)
    (hLe : a.wall ≤ b.wall) (hLast : a.wall.add? (.ofDays days) = some last)
    (hLimit : b.wall.add? (.ofDays days) = some limit) (hMinute : w.IsMinute) (hw : w ≤ last) :
    w ≤ limit := by
  have hStart := DateTime.minute_le hLe
  have hEnd := DateTime.minute_of_add?_ofDays hDays hLast
  have hEndLater := DateTime.minute_of_add?_ofDays hDays hLimit
  rw [hMinute.le_iff] at hw ⊢
  omega

theorem next_again_iff (hLater : a < b) (hNext : (s.next a).value = .ok r) (hAhead : b < r)
    {r' : Instant z} (hAgain : (s.next b).value = .ok r') :
    r' = r ↔ a.wall < r'.wall ∧ b.wall < r.wall := by
  obtain ⟨limit, hLimit, hLeast, -⟩ := isLeast_wall_of_nextWithin hAgain
  constructor
  · rintro rfl
    exact ⟨(run_of_nextWithin hNext).2.1, (run_of_nextWithin hAgain).2.1⟩
  · intro ⟨hAfter, hWall⟩
    have hLe : r.wall ≤ r'.wall := wall_le_of_mem_eligibleWithin hLater hNext hLeast.1 hAfter
    have hUpTo : r.wall ≤ limit := Int.le_trans hLe (le_of_mem_eligibleWithin hLeast.1)
    have hFound := nextWithin_again hLater hNext hAhead hWall hLimit hUpTo fun w hw =>
      Int.lt_of_lt_of_le hAfter (hLeast.2 hw)
    exact Except.ok.inj (hAgain.symm.trans hFound)

theorem next_again_of_wall_le (hLater : a < b) (hNext : (s.next a).value = .ok r) (hAhead : b < r)
    (hLe : a.wall ≤ b.wall) (hWall : b.wall < r.wall) {limit : DateTime}
    (hLimit : b.wall.add? defaultHorizon = some limit) : (s.next b).value = .ok r := by
  obtain ⟨last, hLast, hLeast, -⟩ := isLeast_wall_of_nextWithin hNext
  have hUpTo : r.wall ≤ limit :=
    le_limit_of_wall_le (by decide) hLe hLast hLimit (isMinute_of_mem_eligibleWithin hLeast.1)
      (le_of_mem_eligibleWithin hLeast.1)
  exact nextWithin_again hLater hNext hAhead hWall hLimit hUpTo fun w hw =>
    Int.lt_of_le_of_lt hLe (lt_of_mem_eligibleWithin hw)

/-- A second search, made before the run that a first one announced, finds that
run exactly if each answer lies on the wall clock, too, after the moment at which
the other one was asked for.  It does so if the wall clock has neither gone back
since the first search nor reached the announced run, and the horizon stays
within the calendar; and always where the clock is only set forward. -/
theorem next_again_eq_iff (hLater : a < b) (hNext : (s.next a).value = .ok r) (hAhead : b < r) :
    (∀ r', (s.next b).value = .ok r' → (r' = r ↔ a.wall < r'.wall ∧ b.wall < r.wall)) ∧
    (a.wall ≤ b.wall → b.wall < r.wall →
      (∃ limit, b.wall.add? defaultHorizon = some limit) → (s.next b).value = .ok r) ∧
    (z.OnlyForward → ∀ r', (s.next b).value = .ok r' → r' = r) := by
  refine ⟨fun r' hAgain => next_again_iff hLater hNext hAhead hAgain, ?_, ?_⟩
  · intro hLe hWall ⟨limit, hLimit⟩
    exact next_again_of_wall_le hLater hNext hAhead hLe hWall hLimit
  · intro hForward r' hAgain
    rw [next_again_iff hLater hNext hAhead hAgain]
    have hAfter : b.wall < r'.wall := (run_of_nextWithin hAgain).2.1
    exact ⟨Int.lt_trans (hForward.wall_lt hLater) hAfter, hForward.wall_lt hAhead⟩

/-- The clock is set back from three to two.  Asked at ten past two, before that,
and at twenty past two, after it, the search finds the same run at half past
three. -/
theorem next_again_past_repeated_hour :
    ∃ (s : Schedule) (a b r : Instant ⟨7200, [⟨1729990800, 3600⟩]⟩),
      parse "30 3 * * *" = .ok s ∧ a.utc.second = 1729987800 ∧ b.utc.second = 1729992000 ∧
      r.utc.second = 1729996200 ∧ a < b ∧ (s.next a).value = .ok r ∧ b < r ∧
      (s.next b).value = .ok r := by
  let z : Zone := ⟨7200, [⟨1729990800, 3600⟩]⟩
  let s : Schedule := { minute := .value 30, hour := .value 3 }
  let a : Instant z :=
    ⟨⟨1729987800, 0, by decide, by decide, by decide⟩,
      ⟨1729995000, 0, by decide, by decide, by decide⟩, by decide⟩
  let b : Instant z :=
    ⟨⟨1729992000, 0, by decide, by decide, by decide⟩,
      ⟨1729995600, 0, by decide, by decide, by decide⟩, by decide⟩
  have hParse : parse "30 3 * * *" = .ok s := by decide +kernel
  obtain ⟨r, hNext, hSecond⟩ : ∃ r, (s.next a).value = .ok r ∧ r.utc.second = 1729996200 :=
    exists_next_of_second (by decide +kernel)
  have hLater : a < b := by decide
  have hAhead : b < r := by
    apply (DateTime.lt_iff b.utc r.utc).2
    left
    rw [hSecond]
    decide
  have hWall : b.wall < r.wall := by
    apply (DateTime.lt_iff b.wall r.wall).2
    left
    rw [r.wall_eq.1, hSecond]
    decide
  have hLimit : b.wall.add? defaultHorizon =
      some ⟨1982974800, 0, by decide, by decide, by decide⟩ := by
    decide
  exact ⟨s, a, b, r, hParse, rfl, rfl, hSecond, hLater, hNext, hAhead,
    (next_again_eq_iff hLater hNext hAhead).2.1 (by decide) hWall ⟨_, hLimit⟩⟩

/-- Asked at twenty to three, before the clock is set back to two, the search
announces half past two of the next day.  Asked at ten past two, after that, it
finds half past two of the same day. -/
theorem next_again_differs :
    ∃ (s : Schedule) (a b r r' : Instant ⟨7200, [⟨1729990800, 3600⟩]⟩),
      parse "30 2 * * *" = .ok s ∧ s.Reachable ∧
      a.utc.second = 1729989600 ∧ b.utc.second = 1729991400 ∧ a < b ∧
      (s.next a).value = .ok r ∧ b < r ∧ (s.next b).value = .ok r' ∧ r' ≠ r := by
  let z : Zone := ⟨7200, [⟨1729990800, 3600⟩]⟩
  let s : Schedule := { minute := .value 30, hour := .value 2 }
  let a : Instant z :=
    ⟨⟨1729989600, 0, by decide, by decide, by decide⟩,
      ⟨1729996800, 0, by decide, by decide, by decide⟩, by decide⟩
  let b : Instant z :=
    ⟨⟨1729991400, 0, by decide, by decide, by decide⟩,
      ⟨1729995000, 0, by decide, by decide, by decide⟩, by decide⟩
  have hParse : parse "30 2 * * *" = .ok s := by decide +kernel
  obtain ⟨r, hNext, hSecond⟩ : ∃ r, (s.next a).value = .ok r ∧ r.utc.second = 1730079000 :=
    exists_next_of_second (by decide +kernel)
  obtain ⟨r', hAgain, hSecond'⟩ : ∃ r, (s.next b).value = .ok r ∧ r.utc.second = 1729992600 :=
    exists_next_of_second (by decide +kernel)
  have hAhead : b < r := by
    apply (DateTime.lt_iff b.utc r.utc).2
    left
    rw [hSecond]
    decide
  have hNe : r' ≠ r := by
    rintro rfl
    rw [hSecond] at hSecond'
    exact absurd hSecond' (by decide)
  exact ⟨s, a, b, r, r', hParse, .parse hParse, rfl, rfl, by decide, hNext, hAhead, hAgain, hNe⟩

end Cron.Schedule
