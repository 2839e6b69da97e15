import Cron.Proofs.Instants
import Cron.Proofs.Search

/-!
# The next run in a time zone

On the wall clock of a zone the search finds minutes that the clock never
shows, because it is set forward over them, and minutes that it shows again
after the start although it has shown them before, because it is set back.  The
next run is the least minute among those that the clock does show after the
start, at its earliest or at its latest instant.  Every other one is passed
over and the search begins anew behind it, with the limit it had from the
beginning.

A zone is any offset with any list of transitions here: how offsets and
transitions lie to each other never matters, only what `earliest?` and
`latest?` answer.

## Main results

* `seek_spec` — the loop of searches ends with the least minute that is shown
  after the start, or with the error.
* `nextWithin_finds_least_eligible` — the same for points in time, any horizon
  included.
-/

namespace Cron

open Calendar

namespace Schedule

variable {z : Zone} {start i : Instant z} {m : Int}

/-! ## Showing a minute after the start -/

/-- The earliest showing counts if it lies after the start, and else the
latest. -/
theorem showing?_eq_some_iff :
    showing? start m = some i ↔
      z.earliest? m = some i ∧ start < i ∨
        (∀ j, z.earliest? m = some j → ¬ start < j) ∧
          z.latest? m = some i ∧ start < i := by
  rw [showing?, Option.or_eq_some_iff]
  simp only [Option.filter_eq_some_iff, Option.filter_eq_none_iff, decide_eq_true_eq]

theorem exists_showing?_iff :
    (∃ i, showing? start m = some i) ↔
      ∃ i, (z.earliest? m = some i ∨ z.latest? m = some i) ∧ start < i := by
  constructor
  · rintro ⟨i, hShown⟩
    rcases showing?_eq_some_iff.1 hShown with ⟨hEarliest, hLt⟩ | ⟨-, hLatest, hLt⟩
    · exact ⟨i, .inl hEarliest, hLt⟩
    · exact ⟨i, .inr hLatest, hLt⟩
  · rintro ⟨i, hEarliest | hLatest, hLt⟩
    · exact ⟨i, showing?_eq_some_iff.2 (.inl ⟨hEarliest, hLt⟩)⟩
    · by_cases hSome : ∃ j, z.earliest? m = some j ∧ start < j
      · obtain ⟨j, hEarliest, hBefore⟩ := hSome
        exact ⟨j, showing?_eq_some_iff.2 (.inl ⟨hEarliest, hBefore⟩)⟩
      · have hNone : ∀ j, z.earliest? m = some j → ¬ start < j :=
          fun j hEarliest hBefore => hSome ⟨j, hEarliest, hBefore⟩
        exact ⟨i, showing?_eq_some_iff.2 (.inr ⟨hNone, hLatest, hLt⟩)⟩

/-- The instant that is taken shows the minute, with no seconds. -/
theorem shows_of_showing? (h : showing? start m = some i) : i.Shows m := by
  rcases showing?_eq_some_iff.1 h with ⟨hEarliest, -⟩ | ⟨-, hLatest, -⟩
  · exact (Zone.isLeast_of_earliest? hEarliest).1
  · exact (Zone.isGreatest_of_latest? hLatest).1

/-! ## The loop of searches -/

/-- The minutes after the start, up to `last`, at which the schedule runs and
which the clock shows after the start. -/
def shownWithin (s : Schedule) (start : Instant z) (last : Int) : Set Int :=
  {m | m ∈ s.runsWithin start.wall.minute last ∧ ∃ i, showing? start m = some i}

/-- The invariant of the loop: all minutes that are shown after the start lie
behind the minute that the next search begins with. -/
theorem seek_spec (s : Schedule) (start : Instant z) (horizon : Duration)
    {last m : Int} (journal : Array Record) (hSpan : Minute.Spanned m)
    (hLastSpan : Minute.Spanned last) (hFrom : start.wall.minute ≤ m)
    (hNone : ∀ n ∈ s.shownWithin start last, m < n) :
    (∃ n i, IsLeast (s.shownWithin start last) n ∧ showing? start n = some i ∧
        (s.seek start horizon last m journal).value = .ok i) ∨
      s.shownWithin start last = ∅ ∧
        (s.seek start horizon last m journal).value =
          .error (.noUpcoming start.wall horizon) := by
  fun_induction seek s start horizon last m journal with
  | case1 m journal journal' hSearch =>
      right
      have hFirst := s.search_isFirst journal hSpan hLastSpan
      rw [hSearch] at hFirst
      refine ⟨Set.eq_empty_iff_forall_notMem.2 fun n hn => ?_, rfl⟩
      have hMem : n ∈ s.runsWithin m last := ⟨hNone n hn, hn.1.2⟩
      rw [show s.runsWithin m last = ∅ from hFirst] at hMem
      exact hMem.elim
  | case2 m journal found journal' hSearch i hShown =>
      left
      have hFirst := s.search_isFirst journal hSpan hLastSpan
      rw [hSearch] at hFirst
      obtain ⟨⟨hAfter, hUpTo, hRuns⟩, hLeast⟩ := hFirst
      refine ⟨found, i, ⟨⟨⟨by omega, hUpTo, hRuns⟩, i, hShown⟩, ?_⟩, hShown, rfl⟩
      intro n hn
      exact hLeast ⟨hNone n hn, hn.1.2⟩
  | case3 m journal found journal' hSearch hHidden ih =>
      have hFirst := s.search_isFirst journal hSpan hLastSpan
      rw [hSearch] at hFirst
      obtain ⟨⟨hAfter, hUpTo, hRuns⟩, hLeast⟩ := hFirst
      have hFoundSpan := hSpan.of_le_of_le hLastSpan (by omega) hUpTo
      refine ih hFoundSpan (by omega) ?_
      intro n hn
      have hLe : found ≤ n := hLeast ⟨hNone n hn, hn.1.2⟩
      have hNe : found ≠ n := by
        rintro rfl
        obtain ⟨i, hShown⟩ := hn.2
        rw [hHidden] at hShown
        cases hShown
      omega

/-! ## Points in time -/

/-- The whole minutes of the wall clock after that of the start, and not after
the limit, which all five fields accept and whose earliest or latest instant
lies after the start. -/
def eligibleWithin (s : Schedule) (start : Instant z) (limit : DateTime) :
    Set DateTime :=
  {w | w ∈ s.matchesWithin start.wall limit ∧
    ∃ i, (z.earliest? w.minute = some i ∨ z.latest? w.minute = some i) ∧ start < i}

theorem eligibleWithin_eq (s : Schedule) (start : Instant z) (limit : DateTime) :
    s.eligibleWithin start limit =
      DateTime.onMinutes (s.shownWithin start limit.minute) := by
  ext w
  unfold eligibleWithin shownWithin DateTime.onMinutes
  rw [matchesWithin_eq]
  simp only [Set.mem_ofPred_eq, exists_showing?_iff, DateTime.onMinutes, and_assoc]

section

variable {s : Schedule} {limit w : DateTime} (hw : w ∈ s.eligibleWithin start limit)

include hw

theorem isMinute_of_mem_eligibleWithin : w.IsMinute := hw.1.1

theorem lt_of_mem_eligibleWithin : start.wall < w := hw.1.2.1

theorem le_of_mem_eligibleWithin : w ≤ limit := hw.1.2.2.1

theorem accepts_of_mem_eligibleWithin (f : Field) :
    (s.field f).accepts (f.valueAt w.minute) = true :=
  hw.1.2.2.2 f

end

theorem spanned_of_mem_shownWithin (s : Schedule) (start : Instant z)
    (limit : DateTime) :
    ∀ m ∈ s.shownWithin start limit.minute, Minute.Spanned m := by
  intro m hm
  exact s.spanned_of_mem_runsWithin start.wall limit m hm.1

/-- The error that carries the wall clock of the start. -/
theorem nextWithin_of_add?_eq_none (s : Schedule) {horizon : Duration}
    (h : start.wall.add? horizon = none) :
    (s.nextWithin start horizon).value = .error (.noUpcoming start.wall horizon) := by
  unfold nextWithin
  rw [h]
  rfl

/-- Either the wall clock shows an eligible minute, and the least of them is
taken, or there is none, and the search ends with the error. -/
theorem nextWithin_spec (s : Schedule) {horizon : Duration} {limit : DateTime}
    (h : start.wall.add? horizon = some limit) :
    (∃ w i, IsLeast (s.eligibleWithin start limit) w ∧
        showing? start w.minute = some i ∧ (s.nextWithin start horizon).value = .ok i) ∨
      s.eligibleWithin start limit = ∅ ∧
        (s.nextWithin start horizon).value =
          .error (.noUpcoming start.wall horizon) := by
  have hSpan := s.spanned_of_mem_shownWithin start limit
  have hSeek := s.seek_spec start horizon #[] start.wall.spanned_minute
    limit.spanned_minute (Int.le_refl _) (fun n hn => hn.1.1)
  have hValue : (s.nextWithin start horizon).value =
      (s.seek start horizon limit.minute start.wall.minute #[]).value := by
    unfold nextWithin
    rw [h]
  rw [eligibleWithin_eq, hValue, DateTime.onMinutes_eq_empty_iff hSpan]
  rcases hSeek with ⟨n, i, hLeast, hShown, hOk⟩ | hNone
  · obtain ⟨w, hw, rfl⟩ := (DateTime.isLeast_iff_exists_onMinutes hSpan).1 hLeast
    exact .inl ⟨w, i, hw, hShown, hOk⟩
  · exact .inr hNone

theorem nextWithin_eq_ok_iff (s : Schedule) (start i : Instant z) (horizon : Duration) :
    (s.nextWithin start horizon).value = .ok i ↔
      ∃ limit w, start.wall.add? horizon = some limit ∧
        IsLeast (s.eligibleWithin start limit) w ∧ showing? start w.minute = some i := by
  cases hAdd : start.wall.add? horizon with
  | none =>
      rw [nextWithin_of_add?_eq_none s hAdd]
      simp
  | some limit =>
      simp only [Option.some.injEq, exists_and_left, exists_eq_left']
      rcases nextWithin_spec s hAdd with ⟨w, j, hLeast, hShown, hOk⟩ | ⟨hEmpty, hError⟩
      · rw [hOk]
        constructor
        · intro h
          obtain rfl := Except.ok.inj h
          exact ⟨w, hLeast, hShown⟩
        · rintro ⟨w', hLeast', hShown'⟩
          rw [eligibleWithin_eq] at hLeast hLeast'
          obtain rfl := DateTime.eq_of_isLeast_onMinutes
            (s.spanned_of_mem_shownWithin start limit) hLeast hLeast'
          exact congrArg Except.ok (Option.some.inj (hShown.symm.trans hShown'))
      · rw [hError, hEmpty]
        constructor
        · intro h
          cases h
        · rintro ⟨w, hLeast, -⟩
          exact hLeast.1.elim

theorem nextWithin_eq_error_iff (s : Schedule) (start : Instant z) (horizon : Duration)
    (e : Error) :
    (s.nextWithin start horizon).value = .error e ↔
      e = .noUpcoming start.wall horizon ∧
        ∀ limit, start.wall.add? horizon = some limit →
          s.eligibleWithin start limit = ∅ := by
  cases hAdd : start.wall.add? horizon with
  | none =>
      rw [nextWithin_of_add?_eq_none s hAdd]
      simp [eq_comm]
  | some limit =>
      simp only [Option.some.injEq, forall_eq']
      rcases nextWithin_spec s hAdd with ⟨w, j, hLeast, hShown, hOk⟩ | ⟨hEmpty, hError⟩
      · rw [hOk]
        constructor
        · intro h
          cases h
        · intro h
          have hMem := hLeast.1
          rw [h.2] at hMem
          exact hMem.elim
      · rw [hError, hEmpty]
        simp [eq_comm]

/-- Where the clock shows an eligible minute, the instant that is taken is the
earliest one if that lies after the start, and else the latest. -/
theorem showing?_iff_of_mem_eligibleWithin {s : Schedule} {limit w : DateTime}
    (hw : w ∈ s.eligibleWithin start limit) :
    showing? start w.minute = some i ↔
      z.earliest? w.minute = some i ∧ start < i ∨
        (∀ j, z.earliest? w.minute = some j → ¬ start < j) ∧
          z.latest? w.minute = some i := by
  rw [showing?_eq_some_iff]
  refine or_congr_right (and_congr_right fun hNone => and_iff_left_of_imp ?_)
  intro hLatest
  obtain ⟨j, hEarliest | hLatestJ, hLt⟩ := hw.2
  · exact absurd hLt (hNone j hEarliest)
  · obtain rfl : i = j := Option.some.inj (hLatest.symm.trans hLatestJ)
    exact hLt

/-- The wall clock of a run that was found is the least eligible minute. -/
theorem isLeast_wall_of_nextWithin {s : Schedule} {horizon : Duration}
    (h : (s.nextWithin start horizon).value = .ok i) :
    ∃ limit, start.wall.add? horizon = some limit ∧
      IsLeast (s.eligibleWithin start limit) i.wall ∧
        showing? start i.wall.minute = some i := by
  obtain ⟨limit, w, hAdd, hLeast, hShown⟩ := (s.nextWithin_eq_ok_iff start i horizon).1 h
  have hWall := shows_of_showing? hShown
  have hSame : i.wall = w := hWall.1.ext hLeast.1.1.1 hWall.2
  rw [← hSame] at hLeast hShown
  exact ⟨limit, hAdd, hLeast, hShown⟩

/-- A run that was found lies after the start, as an instant and on the wall
clock, which shows a whole minute at which the schedule runs. -/
theorem run_of_nextWithin {s : Schedule} {horizon : Duration}
    (h : (s.nextWithin start horizon).value = .ok i) :
    start < i ∧ start.wall < i.wall ∧ i.wall.IsMinute ∧ s.runsAt i.wall.minute := by
  obtain ⟨limit, -, hLeast, hShown⟩ := isLeast_wall_of_nextWithin h
  obtain ⟨hMinute, hAfter, -, hAll⟩ := hLeast.1.1
  exact ⟨lt_of_showing? hShown, hAfter, hMinute, (s.runsAt_iff _).2 hAll⟩

/-- The next run within a horizon is found exactly if the horizon does not lead
out of the calendar and some minute of the wall clock is eligible.  It is then
the earliest instant of the least of these minutes if that lies after the
start, and the latest otherwise.  In all other cases the search ends with the
error that carries the wall clock of the start and the horizon. -/
theorem nextWithin_finds_least_eligible (s : Schedule) (start : Instant z)
    (horizon : Duration) :
    ((∃ i, (s.nextWithin start horizon).value = .ok i) ↔
      ∃ limit, start.wall.add? horizon = some limit ∧
        (s.eligibleWithin start limit).Nonempty) ∧
    (∀ i, (s.nextWithin start horizon).value = .ok i ↔
      ∃ limit w, start.wall.add? horizon = some limit ∧
        IsLeast (s.eligibleWithin start limit) w ∧
        (z.earliest? w.minute = some i ∧ start < i ∨
          (∀ j, z.earliest? w.minute = some j → ¬ start < j) ∧
            z.latest? w.minute = some i)) ∧
    (∀ i limit, (s.nextWithin start horizon).value = .ok i →
      start.wall.add? horizon = some limit →
        start < i ∧ IsLeast (s.eligibleWithin start limit) i.wall ∧
          s.runsAt i.wall.minute) ∧
    (∀ e, (s.nextWithin start horizon).value = .error e ↔
      e = .noUpcoming start.wall horizon ∧
        ∀ limit, start.wall.add? horizon = some limit →
          s.eligibleWithin start limit = ∅) := by
  refine ⟨⟨?_, ?_⟩, fun i => ?_, fun i limit hOk hAdd => ?_,
    s.nextWithin_eq_error_iff start horizon⟩
  · rintro ⟨i, hOk⟩
    obtain ⟨limit, w, hAdd, hLeast, -⟩ := (s.nextWithin_eq_ok_iff start i horizon).1 hOk
    exact ⟨limit, hAdd, w, hLeast.1⟩
  · rintro ⟨limit, hAdd, hSome⟩
    rcases nextWithin_spec s hAdd with ⟨w, i, -, -, hOk⟩ | ⟨hEmpty, -⟩
    · exact ⟨i, hOk⟩
    · rw [hEmpty] at hSome
      exact absurd hSome Set.not_nonempty_empty
  · rw [nextWithin_eq_ok_iff]
    refine exists_congr fun limit => exists_congr fun w => ?_
    refine and_congr_right fun _ => and_congr_right fun hLeast => ?_
    exact showing?_iff_of_mem_eligibleWithin hLeast.1
  · have hRun := run_of_nextWithin hOk
    obtain ⟨limit', hAdd', hLeast, -⟩ := isLeast_wall_of_nextWithin hOk
    obtain rfl : limit = limit' := Option.some.inj (hAdd.symm.trans hAdd')
    exact ⟨hRun.1, hLeast, hRun.2.2.2⟩

end Schedule

end Cron
