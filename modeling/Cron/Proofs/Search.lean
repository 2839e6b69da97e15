import Cron.Proofs.Skip
import Cron.Proofs.WholeMinute
import Cron.Schedule.Upcoming

/-!
# The search against a plain scan

The search jumps over minutes and gives up at the end of the calendar, and it
still finds what a scan from minute to minute would find: the least minute in
question, and nothing only if there is none.  Two facts carry this.  A jump
passes over minutes that one and the same field refuses, and a jump that would
leave the calendar passes over everything up to the last minute in question.

`IsFirst` says what a search in a set returns.  The invariant of the sweep is
that no minute between the start and the candidate is one in question, and it
turns into the invariant of the next candidate by `not_runsAt_of_lt_skip`.

## Main results

* `sweep_isFirst`, `search_isFirst` — the search returns the least minute
  after its start, up to its last one, at which the schedule runs.
* `search_finds_least_minute` — the same for points in time, and for the next
  run on a wall clock with its default horizon.
-/

namespace Cron

open Calendar

/-! ## The first of a set -/

/-- The outcome of a search in a set: its least element, or nothing if the set
is empty. -/
def IsFirst {α : Type} [LE α] (S : Set α) : Option α → Prop
  | some a => IsLeast S a
  | none => S = ∅

namespace IsFirst

variable {α : Type} [PartialOrder α] {S : Set α} {o : Option α}

theorem eq_some_iff (h : IsFirst S o) (a : α) : o = some a ↔ IsLeast S a := by
  constructor
  · rintro rfl
    exact h
  · intro hLeast
    cases o with
    | none =>
        have hMem := hLeast.1
        rw [show S = ∅ from h] at hMem
        exact hMem.elim
    | some b => rw [IsLeast.unique h hLeast]

theorem eq_none_iff (h : IsFirst S o) : o = none ↔ S = ∅ := by
  constructor
  · rintro rfl
    exact h
  · intro hEmpty
    cases o with
    | none => rfl
    | some b =>
        have hMem : b ∈ S := h.1
        rw [hEmpty] at hMem
        exact hMem.elim

theorem exists_eq_some_iff (h : IsFirst S o) : (∃ a, o = some a) ↔ S.Nonempty := by
  constructor
  · rintro ⟨a, rfl⟩
    exact ⟨a, h.1⟩
  · intro hSome
    cases o with
    | none =>
        rw [show S = ∅ from h] at hSome
        exact absurd hSome Set.not_nonempty_empty
    | some a => exact ⟨a, rfl⟩

end IsFirst

namespace Schedule

/-! ## The sweep -/

/-- The minutes after `start`, up to `last`, at which the schedule runs. -/
def runsWithin (s : Schedule) (start last : Int) : Set Int :=
  {m | start < m ∧ m ≤ last ∧ s.runsAt m}

/-- Each minute that the search passes over when it leaves a candidate is refused by
a field, except the candidate itself if that is the start. -/
theorem refused_of_lt_skip {s : Schedule} {start m n : Int} {f : Field}
    (hLeaving : s.leaving? start m = some f) (hFrom : m ≤ n) (hTo : n < f.skip m) :
    n = m ∧ m = start ∨ ∃ g, (s.field g).accepts (g.valueAt n) = false := by
  rw [leaving?, Option.or_eq_some_iff] at hLeaving
  rcases hLeaving with hMismatch | ⟨-, hIsStart⟩
  · -- The field that refused the candidate refuses its component at `n` too.
    have hRefused := List.find?_some hMismatch
    rw [← f.valueAt_eq_of_lt_skip hFrom hTo, Bool.not_eq_true'] at hRefused
    exact .inr ⟨f, hRefused⟩
  · obtain ⟨hEq, hField⟩ : m = start ∧ Field.minute = f := by
      simpa using hIsStart
    subst hField
    simp only [Field.skip] at hTo
    exact .inl ⟨by omega, hEq⟩

/-- The schedule runs at none of the minutes that the search passes over when
it leaves a candidate, except at the candidate itself if that is the start. -/
theorem not_runsAt_of_lt_skip {s : Schedule} {start m n : Int} {f : Field}
    (hLeaving : s.leaving? start m = some f) (hStart : start < n)
    (hFrom : m ≤ n) (hTo : n < f.skip m) : ¬ s.runsAt n := by
  intro hRuns
  rcases refused_of_lt_skip hLeaving hFrom hTo with ⟨hEq, hIsStart⟩ | ⟨g, hRefused⟩
  · omega
  · rw [(runsAt_iff s n).1 hRuns g] at hRefused
    cases hRefused

/-- A step that would leave the calendar passes over every minute that the
calendar spans. -/
theorem lt_skip_of_skip?_eq_none {f : Field} {m last : Int} (hm : Minute.Spanned m)
    (hLast : Minute.Spanned last) (h : f.skip? m = none) : last < f.skip m := by
  have hLt := f.lt_skip m
  rw [Field.skip?] at h
  split at h
  · cases h
  · rename_i hOut
    unfold Minute.Spanned at *
    omega

/-- The invariant of the sweep: the schedule runs at no minute between the
start and the candidate. -/
theorem sweep_isFirst (s : Schedule) {start last m : Int} (journal : Array Record)
    (hStartSpan : Minute.Spanned start) (hLastSpan : Minute.Spanned last)
    (hFrom : start ≤ m) (hNone : ∀ n, start < n → n < m → ¬ s.runsAt n) :
    IsFirst (s.runsWithin start last) (s.sweep start last m journal).value := by
  fun_induction sweep s start last m journal with
  | case1 m journal hLast hLeaving =>
      obtain ⟨hNe, hRuns⟩ := (leaving?_eq_none_iff s start m).1 hLeaving
      refine ⟨⟨by omega, hLast, hRuns⟩, ?_⟩
      rintro n ⟨hAfter, -, hRunsN⟩
      by_contra hLess
      exact hNone n hAfter (by omega) hRunsN
  | case2 m journal hLast f hLeaving next hSkip ih =>
      have hNext := Field.skip?_eq_some hSkip
      have hLt := f.lt_skip m
      refine ih (by omega) ?_
      intro n hAfter hBefore
      by_cases hBelow : n < m
      · exact hNone n hAfter hBelow
      · exact not_runsAt_of_lt_skip hLeaving hAfter (by omega) (by omega)
  | case3 m journal hLast f hLeaving hSkip =>
      have hSpan := hStartSpan.of_le_of_le hLastSpan hFrom hLast
      have hBeyond := lt_skip_of_skip?_eq_none hSpan hLastSpan hSkip
      refine Set.eq_empty_iff_forall_notMem.2 ?_
      rintro n ⟨hAfter, hUpTo, hRuns⟩
      by_cases hBelow : n < m
      · exact hNone n hAfter hBelow hRuns
      · exact not_runsAt_of_lt_skip hLeaving hAfter (by omega) (by omega) hRuns
  | case4 m journal hPast =>
      refine Set.eq_empty_iff_forall_notMem.2 ?_
      rintro n ⟨hAfter, hUpTo, hRuns⟩
      exact hNone n hAfter (by omega) hRuns

theorem search_isFirst (s : Schedule) {start last : Int} (journal : Array Record)
    (hStartSpan : Minute.Spanned start) (hLastSpan : Minute.Spanned last) :
    IsFirst (s.runsWithin start last) (s.search start last journal).value := by
  refine sweep_isFirst s journal hStartSpan hLastSpan (Int.le_refl _) ?_
  intro n hAfter hBefore
  omega

/-! ## Points in time -/

/-- The whole minutes after one point in time, and not after another one, at
which all five fields accept what the clock shows. -/
def matchesWithin (s : Schedule) (after limit : DateTime) : Set DateTime :=
  {t | t.IsMinute ∧ after < t ∧ t ≤ limit ∧
    ∀ f, (s.field f).accepts (f.valueAt t.minute) = true}

theorem matchesWithin_eq (s : Schedule) (after limit : DateTime) :
    s.matchesWithin after limit =
      DateTime.onMinutes (s.runsWithin after.minute limit.minute) := by
  ext t
  refine and_congr_right fun hMinute => ?_
  rw [hMinute.lt_iff, hMinute.le_iff, ← runsAt_iff]
  rfl

/-- Between two points in time there are only minutes that the calendar spans. -/
theorem spanned_of_mem_runsWithin (s : Schedule) (after limit : DateTime) :
    ∀ m ∈ s.runsWithin after.minute limit.minute, Minute.Spanned m := by
  intro m hm
  exact after.spanned_minute.of_le_of_le limit.spanned_minute (Int.le_of_lt hm.1) hm.2.1

theorem search_eq_some_iff (s : Schedule) (after limit : DateTime)
    (journal : Array Record) (m : Int) :
    (s.search after.minute limit.minute journal).value = some m ↔
      ∃ t, IsLeast (s.matchesWithin after limit) t ∧ t.minute = m := by
  have hFirst := s.search_isFirst journal after.spanned_minute limit.spanned_minute
  rw [hFirst.eq_some_iff, matchesWithin_eq,
    ← DateTime.isLeast_iff_exists_onMinutes (s.spanned_of_mem_runsWithin after limit)]

theorem search_eq_none_iff (s : Schedule) (after limit : DateTime)
    (journal : Array Record) :
    (s.search after.minute limit.minute journal).value = none ↔
      s.matchesWithin after limit = ∅ := by
  have hFirst := s.search_isFirst journal after.spanned_minute limit.spanned_minute
  rw [hFirst.eq_none_iff, matchesWithin_eq,
    DateTime.onMinutes_eq_empty_iff (s.spanned_of_mem_runsWithin after limit)]

/-! ## The next run on a wall clock -/

/-- The next run is what the search finds up to the default horizon, and
anything else is the one error. -/
theorem nextMinute_value (s : Schedule) (start : DateTime) :
    (s.nextMinute start).value =
      match start.add? defaultHorizon with
      | none => .error (.noUpcoming start defaultHorizon)
      | some limit =>
          match (s.search start.minute limit.minute #[]).value with
          | some m => .ok m
          | none => .error (.noUpcoming start defaultHorizon) := by
  unfold nextMinute
  cases start.add? defaultHorizon with
  | none => rfl
  | some limit =>
      dsimp only
      split
      · rename_i hSearch
        rw [hSearch]
      · rename_i hSearch
        rw [hSearch]
        rfl

theorem nextMinute_eq_ok_iff (s : Schedule) (start : DateTime) (m : Int) :
    (s.nextMinute start).value = .ok m ↔
      ∃ limit, start.add? defaultHorizon = some limit ∧
        (s.search start.minute limit.minute #[]).value = some m := by
  rw [nextMinute_value]
  cases start.add? defaultHorizon with
  | none => simp
  | some limit =>
      simp only [Option.some.injEq, exists_eq_left']
      cases (s.search start.minute limit.minute #[]).value <;> simp

theorem nextMinute_eq_error_iff (s : Schedule) (start : DateTime) (e : Error) :
    (s.nextMinute start).value = .error e ↔
      e = .noUpcoming start defaultHorizon ∧
        ∀ limit, start.add? defaultHorizon = some limit →
          (s.search start.minute limit.minute #[]).value = none := by
  rw [nextMinute_value]
  cases start.add? defaultHorizon with
  | none => simp [eq_comm]
  | some limit =>
      simp only [Option.some.injEq, forall_eq']
      cases (s.search start.minute limit.minute #[]).value <;> simp [eq_comm]

/-- The search between two points in time finds the least whole minute after
the one and not after the other at which all five fields accept the clock, and
nothing exactly if there is none, also where a step of it would leave the
calendar.  The next run on a wall clock is that minute for 2928 days, and the
error exactly if the calendar does not reach that far or there is none. -/
theorem search_finds_least_minute (s : Schedule) (after : DateTime) :
    (∀ (limit : DateTime) (journal : Array Record),
      (∀ m, (s.search after.minute limit.minute journal).value = some m ↔
        ∃ t, IsLeast (s.matchesWithin after limit) t ∧ t.minute = m) ∧
      ((s.search after.minute limit.minute journal).value = none ↔
        s.matchesWithin after limit = ∅)) ∧
    (∀ m, (s.nextMinute after).value = .ok m ↔
      ∃ limit t, after.add? (.ofDays 2928) = some limit ∧
        IsLeast (s.matchesWithin after limit) t ∧ t.minute = m) ∧
    (∀ e, (s.nextMinute after).value = .error e ↔
      e = .noUpcoming after (.ofDays 2928) ∧
        ∀ limit, after.add? (.ofDays 2928) = some limit →
          s.matchesWithin after limit = ∅) := by
  have hHorizon : defaultHorizon = .ofDays 2928 := rfl
  refine ⟨fun limit journal => ⟨fun m => ?_, ?_⟩, fun m => ?_, fun e => ?_⟩
  · exact s.search_eq_some_iff after limit journal m
  · exact s.search_eq_none_iff after limit journal
  · rw [nextMinute_eq_ok_iff, hHorizon]
    refine exists_congr fun limit => ?_
    rw [search_eq_some_iff, exists_and_left]
  · rw [nextMinute_eq_error_iff, hHorizon]
    refine and_congr_right fun _ => forall_congr' fun limit => ?_
    rw [search_eq_none_iff]

end Schedule

end Cron
