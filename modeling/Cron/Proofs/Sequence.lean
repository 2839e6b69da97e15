import Cron.Proofs.Zoned

/-!
# The sequence of runs

A clock that is set back shows an hour twice, and within it the order of
instants and the order of what the clock shows disagree.  The sequence of runs
respects both: each run is searched for from the one before it, and such a
search finds an instant that is later and whose wall clock is later.  So one
step carries the two orders at once, and induction over the pulls carries them
through the whole sequence.

## Main results

* `run?_succ`, `run?_eq_none_of_le` — each run is the next one after the run
  before it, and a sequence that ended stays ended.
* `iter_never_goes_back` — the runs ascend, as instants and on the wall clock.
-/

namespace Cron

open Calendar

theorem toOption_eq_some_iff {ε α : Type} {x : Except ε α} {a : α} :
    x.toOption = some a ↔ x = .ok a := by
  cases x <;> simp [Except.toOption]

/-! ## Pulling -/

namespace Upcoming

variable {z : Zone}

/-- The sequence after a number of pulls. -/
def pulled (u : Upcoming z) : Nat → Upcoming z
  | 0 => u
  | n + 1 => (u.pulled n).pull.2.value

/-- The run that a pull yields; pulls are counted from zero. -/
def run? (u : Upcoming z) (n : Nat) : Option (Instant z) := (u.pulled n).pull.1

theorem pull_fst (u : Upcoming z) : u.pull.1 = u.pending := by
  obtain ⟨s, pending⟩ := u
  cases pending <;> rfl

/-- A pull leaves the schedule alone and looks one run ahead. -/
theorem pull_snd (u : Upcoming z) :
    u.pull.2.value =
      ⟨u.schedule, u.pending.bind fun i => (u.schedule.next i).value.toOption⟩ := by
  obtain ⟨s, pending⟩ := u
  cases pending <;> rfl

theorem schedule_pulled (u : Upcoming z) (n : Nat) :
    (u.pulled n).schedule = u.schedule := by
  induction n with
  | zero => rfl
  | succ n ih =>
      show (u.pulled n).pull.2.value.schedule = u.schedule
      rw [pull_snd]
      exact ih

theorem run?_eq_pending (u : Upcoming z) (n : Nat) :
    u.run? n = (u.pulled n).pending := pull_fst _

/-- Each run is the next one after the run before it. -/
theorem run?_succ (u : Upcoming z) (n : Nat) :
    u.run? (n + 1) = (u.run? n).bind fun i => (u.schedule.next i).value.toOption := by
  rw [run?_eq_pending, run?_eq_pending]
  show (u.pulled n).pull.2.value.pending = _
  rw [pull_snd, schedule_pulled]

theorem run?_eq_none_of_le (u : Upcoming z) {m n : Nat} (hLe : m ≤ n)
    (hNone : u.run? m = none) : u.run? n = none := by
  induction n, hLe using Nat.le_induction with
  | base => exact hNone
  | succ n hLe ih =>
      rw [run?_succ, ih]
      rfl

/-- A run after the first was found by a search from the run before it. -/
theorem exists_next_of_run?_succ {u : Upcoming z} {n : Nat} {j : Instant z}
    (h : u.run? (n + 1) = some j) :
    ∃ i, u.run? n = some i ∧ (u.schedule.next i).value = .ok j := by
  rw [run?_succ] at h
  obtain ⟨i, hRun, hNext⟩ := Option.bind_eq_some_iff.1 h
  exact ⟨i, hRun, toOption_eq_some_iff.1 hNext⟩

/-! ## Both orders -/

/-- One instant is earlier than another one and shows an earlier time. -/
def Precedes (i j : Instant z) : Prop := i < j ∧ i.wall < j.wall

theorem Precedes.trans {i j k : Instant z} (hij : Precedes i j) (hjk : Precedes j k) :
    Precedes i k :=
  ⟨Int.lt_trans hij.1 hjk.1, Int.lt_trans hij.2 hjk.2⟩

theorem precedes_of_next {s : Schedule} {i j : Instant z}
    (h : (s.next i).value = .ok j) : Precedes i j :=
  ⟨(Schedule.run_of_nextWithin h).1, (Schedule.run_of_nextWithin h).2.1⟩

/-- The induction is on the later pull: the run before it either is the earlier
one or lies behind it. -/
theorem precedes_of_lt {u : Upcoming z} {m n : Nat} {i j : Instant z} (hLt : m < n)
    (hi : u.run? m = some i) (hj : u.run? n = some j) : Precedes i j := by
  induction n generalizing j with
  | zero => omega
  | succ n ih =>
      obtain ⟨k, hk, hNext⟩ := exists_next_of_run?_succ hj
      have hLast := precedes_of_next hNext
      by_cases hSame : m = n
      · subst hSame
        obtain rfl : i = k := Option.some.inj (hi.symm.trans hk)
        exact hLast
      · exact (ih (by omega) hk).trans hLast

end Upcoming

/-! ## The runs after an instant -/

namespace Schedule

variable {z : Zone}

theorem schedule_iter (s : Schedule) (start : Instant z) :
    (s.iter start).value.schedule = s := rfl

theorem run?_iter_zero (s : Schedule) (start : Instant z) :
    (s.iter start).value.run? 0 = (s.next start).value.toOption := by
  rw [Upcoming.run?_eq_pending]
  rfl

/-- Every run was found by a search, from the start or from a run behind it. -/
theorem exists_next_of_run?_iter {s : Schedule} {start j : Instant z} {n : Nat}
    (h : (s.iter start).value.run? n = some j) :
    ∃ i, (i = start ∨ Upcoming.Precedes start i) ∧ (s.next i).value = .ok j := by
  induction n generalizing j with
  | zero =>
      rw [run?_iter_zero] at h
      exact ⟨start, .inl rfl, toOption_eq_some_iff.1 h⟩
  | succ n ih =>
      obtain ⟨i, hi, hNext⟩ := Upcoming.exists_next_of_run?_succ h
      obtain ⟨k, hk, hBefore⟩ := ih hi
      have hStep := Upcoming.precedes_of_next hBefore
      refine ⟨i, .inr ?_, hNext⟩
      rcases hk with rfl | hk
      · exact hStep
      · exact hk.trans hStep

/-- The runs after an instant ascend strictly, as instants and on the wall clock,
whatever the clock of the zone does.  They lie after the start and on whole
minutes at which the schedule runs; each is the next run after the one before
it, and the sequence that has ended once has ended for good. -/
theorem iter_never_goes_back (s : Schedule) (start : Instant z) :
    (∀ n i, (s.iter start).value.run? n = some i →
      start < i ∧ start.wall < i.wall ∧ i.wall.IsMinute ∧ s.runsAt i.wall.minute) ∧
    (∀ m n i j, m < n → (s.iter start).value.run? m = some i →
      (s.iter start).value.run? n = some j → i < j ∧ i.wall < j.wall) ∧
    (s.iter start).value.run? 0 = (s.next start).value.toOption ∧
    (∀ n, (s.iter start).value.run? (n + 1) =
      ((s.iter start).value.run? n).bind fun i => (s.next i).value.toOption) ∧
    (∀ n, (s.intoIter start).value.run? n = (s.iter start).value.run? n) ∧
    (∀ m n, m ≤ n → (s.iter start).value.run? m = none →
      (s.iter start).value.run? n = none) := by
  refine ⟨?_, ?_, s.run?_iter_zero start, ?_, ?_, ?_⟩
  · intro n j hj
    obtain ⟨i, hi, hNext⟩ := exists_next_of_run?_iter hj
    obtain ⟨hLt, hWall, hMinute, hRuns⟩ := run_of_nextWithin hNext
    rcases hi with rfl | hi
    · exact ⟨hLt, hWall, hMinute, hRuns⟩
    · have hBoth := hi.trans ⟨hLt, hWall⟩
      exact ⟨hBoth.1, hBoth.2, hMinute, hRuns⟩
  · intro m n i j hLt hi hj
    exact Upcoming.precedes_of_lt hLt hi hj
  · intro n
    rw [Upcoming.run?_succ, schedule_iter]
  · intro n
    rfl
  · intro m n hLe hNone
    exact Upcoming.run?_eq_none_of_le _ hLe hNone

end Schedule

end Cron
