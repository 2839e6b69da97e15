import Cron.Journal

/-!
# Searching for the next minute

The search looks at one candidate minute after the other.  Where a field
refuses the candidate, no minute matches before the next value of that field,
and the search goes there; fields are tried in the order of an expression, so
a candidate that suits the finer fields is given up for a coarser one in a
single step.

The search is for minutes strictly after the minute of its start, which is
left whether the schedule runs at it or not.  It ends at the last minute it is
given, or where a step would leave the calendar.

## Main results

* `lt_of_search`, `runsAt_of_search` — what is found lies after the
  start and not after the last minute, and the schedule runs at it.
-/

namespace Cron.Schedule

/-- The journal after a field refused a candidate.  Single minutes are not
recorded. -/
def recordSkip (journal : Array Record) (m : Int) (f : Field) : Array Record :=
  if f = .minute then journal else journal.push (.skipping m f)

/-- The field by which the search leaves a candidate: the first that refuses
it, and the minute if the candidate is the start.  A candidate without one is
what the search looks for. -/
def leaving? (s : Schedule) (start m : Int) : Option Field :=
  (s.mismatch? m).or (if m = start then some .minute else none)

/-- The first minute from `m` to `last`, other than `start`, at which the
schedule runs.  A step beyond the calendar ends the search with nothing. -/
def sweep (s : Schedule) (start last m : Int) (journal : Array Record) :
    Journaled (Option Int) :=
  if m ≤ last then
    match s.leaving? start m with
    | none => ⟨some m, journal⟩
    | some f =>
        match _h : f.skip? m with
        | some next => sweep s start last next (recordSkip journal m f)
        | none => ⟨none, recordSkip journal m f⟩
  else ⟨none, journal⟩
termination_by (last + 1 - m).toNat
decreasing_by
  have hLt := f.lt_skip m
  have hNext := Field.skip?_eq_some _h
  omega

/-- The first minute after `start`, up to `last`, at which the schedule runs. -/
def search (s : Schedule) (start last : Int) (journal : Array Record) : Journaled (Option Int) :=
  s.sweep start last start journal

theorem leaving?_eq_none_iff (s : Schedule) (start m : Int) :
    s.leaving? start m = none ↔ m ≠ start ∧ s.runsAt m := by
  by_cases hStart : m = start <;> simp [leaving?, runsAt, hStart]

private theorem sweep_value_spec {s : Schedule} {start last m found : Int}
    {journal : Array Record} (hFrom : start ≤ m)
    (h : (s.sweep start last m journal).value = some found) :
    start < found ∧ found ≤ last ∧ s.runsAt found := by
  fun_induction sweep s start last m journal with
  | case1 m journal hLast hLeaving =>
      cases h
      obtain ⟨hNe, hRuns⟩ := (leaving?_eq_none_iff s start _).1 hLeaving
      exact ⟨by omega, hLast, hRuns⟩
  | case2 m journal hLast f hLeaving next hSkip ih =>
      have hNext := Field.skip?_eq_some hSkip
      have hLt := f.lt_skip m
      exact ih (by omega) h
  | case3 => cases h
  | case4 => cases h

theorem lt_of_search {s : Schedule} {start last found : Int} {journal : Array Record}
    (h : (s.search start last journal).value = some found) : start < found ∧ found ≤ last :=
  ⟨(sweep_value_spec (Int.le_refl _) h).1, (sweep_value_spec (Int.le_refl _) h).2.1⟩

theorem runsAt_of_search {s : Schedule} {start last found : Int} {journal : Array Record}
    (h : (s.search start last journal).value = some found) : s.runsAt found :=
  (sweep_value_spec (Int.le_refl _) h).2.2

end Cron.Schedule
