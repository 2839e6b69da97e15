import Cron.Proofs.Forward
import Cron.Proofs.Sequence

/-!
# The sequence of runs misses nothing

Each run is searched for from the one before it, with the horizon counted from
there.  Where the clock is only set forward the search finds the next time that
the clock shows and at which the schedule runs.  So the sequence goes through
all of these times one after the other, until one of them lies further behind
the one before it than the horizon reaches, or until the horizon leaves the
calendar.

A step of the induction puts this in terms of one set of times: the run that is
left is the greatest time before the one that is reached, in both directions.
A sequence that goes on has left no time out, and a time without a wide gap
before it is reached from its predecessor.

A zone with a fixed offset is never set back, and its clock shows a time if
universal time is in the calendar then.

## Main results

* `nextWithin_eq_ok_iff_of_onlyForward` — what the search finds.
* `exists_visit?_iff` — the sequence reaches the times that no wide gap cuts off.
* `iter_enumerates_fixed_offset` — the same in a zone with a fixed offset.
-/

namespace Cron

open Calendar

/-! ## Gaps -/

/-- Up to `w`, every time of a set lies at most the default horizon behind the
one before it, the first one behind the start. -/
def WithoutGap (S : Set DateTime) (start w : DateTime) : Prop :=
  ∀ v ∈ S, v ≤ w → ∃ before limit, IsGreatest (insert start {u | u ∈ S ∧ u < v}) before ∧
    before.add? (.ofDays 2928) = some limit ∧ v ≤ limit

namespace Calendar.Zone.OnlyForward

variable {z : Zone} {i j : Instant z}

theorem lt_of_wall_lt (h : z.OnlyForward) (hLt : i.wall < j.wall) : i < j := by
  obtain ⟨hSecond, hNano⟩ := i.wall_eq
  obtain ⟨hSecond', hNano'⟩ := j.wall_eq
  rw [DateTime.lt_iff] at hLt
  show i.utc < j.utc
  rw [DateTime.lt_iff]
  rcases Int.lt_trichotomy i.utc.second j.utc.second with hBefore | hSame | hAfter
  · exact .inl hBefore
  · rw [hSame] at hSecond
    omega
  · have hStep := h.second_lt hAfter
    omega

end Calendar.Zone.OnlyForward

namespace Schedule

variable {z : Zone}

/-! ## What the search finds -/

/-- The times after the start that the clock shows and at which the schedule
runs. -/
def runsAfter (s : Schedule) (start : Instant z) : Set DateTime :=
  {w | w.IsMinute ∧ start.wall < w ∧ (∀ f, (s.field f).accepts (f.valueAt w.minute) = true) ∧
    ∃ i : Instant z, i.wall = w}

theorem eligibleWithin_eq_of_onlyForward (h : z.OnlyForward) (s : Schedule) (start : Instant z)
    (limit : DateTime) :
    s.eligibleWithin start limit = {w | w ∈ s.runsAfter start ∧ w ≤ limit} := by
  ext w
  constructor
  · rintro ⟨⟨hMinute, hAfter, hLimit, hFields⟩, i, hShown, -⟩
    have hShows : i.Shows w.minute := by
      rcases hShown with hEarliest | hLatest
      · exact (Zone.isLeast_of_earliest? hEarliest).1
      · exact (Zone.isGreatest_of_latest? hLatest).1
    exact ⟨⟨hMinute, hAfter, hFields, i, hShows.1.ext hMinute hShows.2⟩, hLimit⟩
  · rintro ⟨⟨hMinute, hAfter, hFields, i, rfl⟩, hLimit⟩
    exact ⟨⟨hMinute, hAfter, hLimit, hFields⟩, i, .inl (h.earliest?_eq hMinute),
      h.lt_of_wall_lt hAfter⟩

theorem nextWithin_eq_ok_iff_of_onlyForward (h : z.OnlyForward) (s : Schedule)
    (start i : Instant z) (horizon : Duration) :
    (s.nextWithin start horizon).value = .ok i ↔
      ∃ limit, start.wall.add? horizon = some limit ∧
        IsLeast {w | w ∈ s.runsAfter start ∧ w ≤ limit} i.wall := by
  constructor
  · intro hOk
    obtain ⟨limit, hAdd, hLeast, -⟩ := isLeast_wall_of_nextWithin hOk
    rw [eligibleWithin_eq_of_onlyForward h] at hLeast
    exact ⟨limit, hAdd, hLeast⟩
  · rintro ⟨limit, hAdd, hLeast⟩
    obtain ⟨hMinute, hAfter, -, -⟩ := hLeast.1.1
    rw [← eligibleWithin_eq_of_onlyForward h] at hLeast
    refine (s.nextWithin_eq_ok_iff start i horizon).2 ⟨limit, i.wall, hAdd, hLeast, ?_⟩
    exact showing?_eq_some_iff.2 (.inl ⟨h.earliest?_eq hMinute, h.lt_of_wall_lt hAfter⟩)

/-- The times after a later instant are those of an earlier one that are late
enough. -/
theorem mem_runsAfter_iff {s : Schedule} {start i : Instant z} (hLe : start.wall ≤ i.wall)
    (w : DateTime) : w ∈ s.runsAfter i ↔ w ∈ s.runsAfter start ∧ i.wall < w := by
  constructor
  · rintro ⟨hMinute, hAfter, hRest⟩
    exact ⟨⟨hMinute, Int.lt_of_le_of_lt hLe hAfter, hRest⟩, hAfter⟩
  · rintro ⟨⟨hMinute, -, hRest⟩, hAfter⟩
    exact ⟨hMinute, hAfter, hRest⟩

/-! ## The sequence -/

/-- The start and the runs after it, counted from zero. -/
def visit? (s : Schedule) (start : Instant z) : Nat → Option (Instant z)
  | 0 => some start
  | n + 1 => (s.iter start).value.run? n

theorem visit?_succ (s : Schedule) (start : Instant z) (n : Nat) :
    s.visit? start (n + 1) = (s.visit? start n).bind fun i => (s.next i).value.toOption := by
  cases n with
  | zero => exact s.run?_iter_zero start
  | succ n => exact Upcoming.run?_succ _ n

theorem visit?_succ_eq_some_iff {s : Schedule} {start j : Instant z} {n : Nat} :
    s.visit? start (n + 1) = some j ↔
      ∃ i, s.visit? start n = some i ∧ (s.next i).value = .ok j := by
  rw [visit?_succ, Option.bind_eq_some_iff]
  simp only [toOption_eq_some_iff]

theorem le_wall_of_mem_insert {s : Schedule} {start i : Instant z}
    (h : i.wall ∈ insert start.wall (s.runsAfter start)) : start.wall ≤ i.wall := by
  rcases h with hEq | hRun
  · rw [hEq]
    exact Int.le_refl _
  · exact Int.le_of_lt hRun.2.1

/-- The induction is on the pulls: a time up to the run that was found lies
either up to the run before it, or it is left with nothing between the two. -/
theorem withoutGap_of_visit? (h : z.OnlyForward) {s : Schedule} {start i : Instant z} {n : Nat}
    (hVisit : s.visit? start n = some i) :
    i.wall ∈ insert start.wall (s.runsAfter start) ∧
      WithoutGap (s.runsAfter start) start.wall i.wall := by
  induction n generalizing i with
  | zero =>
      obtain rfl := Option.some.inj hVisit
      refine ⟨.inl rfl, fun v hv hLe => ?_⟩
      exact absurd hv.2.1 (Int.not_lt.2 hLe)
  | succ n ih =>
      obtain ⟨k, hBefore, hNext⟩ := visit?_succ_eq_some_iff.1 hVisit
      obtain ⟨hMem, hNoGap⟩ := ih hBefore
      have hLe := le_wall_of_mem_insert hMem
      obtain ⟨limit, hAdd, ⟨hRun, hLimit⟩, hLeast⟩ :=
        (s.nextWithin_eq_ok_iff_of_onlyForward h k i defaultHorizon).1 hNext
      refine ⟨.inr ((mem_runsAfter_iff hLe _).1 hRun).1, fun v hv hvLe => ?_⟩
      by_cases hOld : v ≤ k.wall
      · exact hNoGap v hv hOld
      · have hNew : k.wall < v := Int.not_le.1 hOld
        refine ⟨k.wall, limit, ⟨?_, ?_⟩, hAdd, Int.le_trans hvLe hLimit⟩
        · exact hMem.imp_right fun hk => ⟨hk, hNew⟩
        · rintro u (rfl | ⟨hu, hLt⟩)
          · exact hLe
          · by_contra hBetween
            have hRunU := (mem_runsAfter_iff hLe u).2 ⟨hu, Int.not_le.1 hBetween⟩
            have hBelow : u < i.wall := Int.lt_of_lt_of_le hLt hvLe
            have hFound : i.wall ≤ u :=
              hLeast ⟨hRunU, Int.le_trans (Int.le_of_lt hBelow) hLimit⟩
            exact Int.not_lt.2 hFound hBelow

/-- A time is reached from the one before it, if the horizon reaches that far. -/
theorem next_of_isGreatest (h : z.OnlyForward) {s : Schedule} {start i j : Instant z}
    {limit : DateTime} (hMem : j.wall ∈ s.runsAfter start)
    (hBefore : IsGreatest (insert start.wall {u | u ∈ s.runsAfter start ∧ u < j.wall}) i.wall)
    (hAdd : i.wall.add? defaultHorizon = some limit) (hLimit : j.wall ≤ limit) :
    (s.next i).value = .ok j := by
  have hLe : start.wall ≤ i.wall := hBefore.2 (.inl rfl)
  have hLt : i.wall < j.wall := by
    rcases hBefore.1 with hEq | ⟨-, hLt⟩
    · rw [hEq]
      exact hMem.2.1
    · exact hLt
  refine (s.nextWithin_eq_ok_iff_of_onlyForward h i j defaultHorizon).2 ⟨limit, hAdd, ?_⟩
  refine ⟨⟨(mem_runsAfter_iff hLe _).2 ⟨hMem, hLt⟩, hLimit⟩, ?_⟩
  rintro u ⟨hRun, -⟩
  obtain ⟨hu, hAfter⟩ := (mem_runsAfter_iff hLe u).1 hRun
  by_contra hBelow
  have hUpTo : u ≤ i.wall := hBefore.2 (.inr ⟨hu, Int.not_le.1 hBelow⟩)
  exact Int.not_lt.2 hUpTo hAfter

/-- The induction is on the minutes after the start: the time before a time
without a gap has no gap either, so it was reached. -/
theorem exists_visit?_of_withoutGap (h : z.OnlyForward) {s : Schedule} {start : Instant z}
    {w : DateTime} (hMem : w ∈ s.runsAfter start)
    (hNoGap : WithoutGap (s.runsAfter start) start.wall w) :
    ∃ n i, s.visit? start (n + 1) = some i ∧ i.wall = w := by
  induction hn : (w.minute - start.wall.minute).toNat using Nat.strong_induction_on
    generalizing w with
  | _ n ih =>
      obtain ⟨before, limit, hBefore, hAdd, hLimit⟩ := hNoGap w hMem (Int.le_refl _)
      have hVisited : ∃ n i, s.visit? start n = some i ∧ i.wall = before := by
        rcases hBefore.1 with rfl | ⟨hRun, hLt⟩
        · exact ⟨0, start, rfl, rfl⟩
        · have hAfter := (hRun.1.lt_iff start.wall).1 hRun.2.1
          have hStep := (hMem.1.lt_iff before).1 hLt
          obtain ⟨n, i, hVisit, hWall⟩ := ih _ (by omega) hRun
            (fun v hv hLe => hNoGap v hv (Int.le_trans hLe (Int.le_of_lt hLt))) rfl
          exact ⟨n + 1, i, hVisit, hWall⟩
      obtain ⟨n, i, hVisit, rfl⟩ := hVisited
      obtain ⟨j, rfl⟩ := hMem.2.2.2
      exact ⟨n, j, visit?_succ_eq_some_iff.2
        ⟨i, hVisit, next_of_isGreatest h hMem hBefore hAdd hLimit⟩, rfl⟩

theorem exists_visit?_iff (h : z.OnlyForward) (s : Schedule) (start : Instant z) (w : DateTime) :
    (∃ n i, s.visit? start (n + 1) = some i ∧ i.wall = w) ↔
      w ∈ s.runsAfter start ∧ WithoutGap (s.runsAfter start) start.wall w := by
  constructor
  · rintro ⟨n, i, hVisit, rfl⟩
    obtain ⟨hMem, hNoGap⟩ := withoutGap_of_visit? h hVisit
    obtain ⟨k, hBefore, hNext⟩ := visit?_succ_eq_some_iff.1 hVisit
    have hLe := le_wall_of_mem_insert (withoutGap_of_visit? h hBefore).1
    have hLt : start.wall < i.wall := Int.lt_of_le_of_lt hLe (run_of_nextWithin hNext).2.1
    refine ⟨hMem.resolve_left fun hEq => ?_, hNoGap⟩
    rw [hEq] at hLt
    exact Int.lt_irrefl _ hLt
  · rintro ⟨hMem, hNoGap⟩
    exact exists_visit?_of_withoutGap h hMem hNoGap

/-! ## Fixed offsets -/

/-- The whole minutes of a wall clock after a time at which all five fields
accept what it shows, and at which universal time, read off a clock with an
offset, is in the calendar. -/
def matchesAfter (s : Schedule) (offset : Int) (start : DateTime) : Set DateTime :=
  {w | w.IsMinute ∧ start < w ∧ (∀ f, (s.field f).accepts (f.valueAt w.minute) = true) ∧
    ∃ utc, w.shift? (-offset) = some utc}

theorem onlyForward_fixed (offset : Int) : (Zone.fixed offset).OnlyForward :=
  ⟨List.Pairwise.nil, List.pairwise_singleton _ _⟩

theorem runsAfter_fixed (s : Schedule) {offset : Int} (start : Instant (.fixed offset)) :
    s.runsAfter start = s.matchesAfter offset start.wall := by
  have hShown (w : DateTime) :
      (∃ i : Instant (.fixed offset), i.wall = w) ↔ ∃ utc, w.shift? (-offset) = some utc := by
    simp only [DateTime.shift?_eq_some_iff]
    constructor
    · rintro ⟨i, rfl⟩
      have hSecond : i.wall.second = i.utc.second + offset := i.wall_eq.1
      exact ⟨i.utc, by omega, i.wall_eq.2.symm⟩
    · rintro ⟨utc, hSecond, hNano⟩
      have hWall : w.second = utc.second + offset := by omega
      obtain ⟨i, -, hi⟩ := Instant.exists_of_wall (z := .fixed offset) hWall hNano.symm
      exact ⟨i, hi⟩
  ext w
  simp only [runsAfter, matchesAfter, Set.mem_ofPred_eq, hShown]

/-- In a zone with a fixed offset, the runs after an instant go through all the
whole minutes after it that all five fields accept and that have a universal time
in the calendar, ascending and without leaving one out.  They end before the
first of them that lies more than 2928 days behind the one before it, or whose
predecessor is less than 2928 days away from the end of the calendar. -/
theorem iter_enumerates_fixed_offset (s : Schedule) {offset : Int}
    (start : Instant (.fixed offset)) :
    (∀ w, (∃ n i, (s.iter start).value.run? n = some i ∧ i.wall = w) ↔
      w ∈ s.matchesAfter offset start.wall ∧
        WithoutGap (s.matchesAfter offset start.wall) start.wall w) ∧
    (∀ m n i j, m < n → (s.iter start).value.run? m = some i →
      (s.iter start).value.run? n = some j → i.wall < j.wall) ∧
    (∀ n i, (s.iter start).value.run? n = some i →
      i.offset = offset ∧ i.wall.shift? (-offset) = some i.utc) ∧
    (∀ m n, m ≤ n → (s.iter start).value.run? m = none →
      (s.iter start).value.run? n = none) := by
  refine ⟨fun w => ?_, ?_, ?_, ?_⟩
  · rw [← runsAfter_fixed]
    exact s.exists_visit?_iff (onlyForward_fixed offset) start w
  · intro m n i j hLt hi hj
    exact (Upcoming.precedes_of_lt hLt hi hj).2
  · intro n i _
    have hSecond : i.wall.second = i.utc.second + offset := i.wall_eq.1
    exact ⟨rfl, DateTime.shift?_eq_some_iff.2 ⟨by omega, i.wall_eq.2.symm⟩⟩
  · intro m n hLe hNone
    exact Upcoming.run?_eq_none_of_le _ hLe hNone

end Schedule

end Cron
