import Cron.Proofs.Leaves
import Cron.Proofs.Sequence

/-!
# Faults in a search

To the search, a field that cannot test a value is a field that refuses it.  A
program that stops at a fault would not go on like this.  `Strict` has every function
that tests a field once more, as such a program runs it: the first fault ends
everything.

Nothing else sets the two apart.  A strict run gives what the plain one gives unless a
fault of one of the fields has ended it (`UnlessFault`), and every step of a run keeps
this.  The fields of a reachable schedule have no faults, so there is nothing to keep
apart: whether the schedule runs at a minute, the next run, and each pull of a sequence
of runs all come to their plain results.

## Main results

* `UnlessFault.bind` — one computation after the other.
* `Strict.sweep_unlessFault`, `Strict.seek_unlessFault` — the two loops of a search.
* `faults_at_zero_steps_only` — the faults of all patterns, and none on reachable
  schedules.
-/

namespace Cron

open Calendar Pattern

namespace Schedule

/-! ## Computations that a fault ends -/

/-- What is computed is `a`, unless a fault of one of the fields has ended it. -/
def UnlessFault {α : Type} (s : Schedule) (x : Except Fault α) (a : α) : Prop :=
  x = .ok a ∨ ∃ f v fault, (s.field f).test v = .error fault ∧ x = .error fault

namespace UnlessFault

variable {α β : Type} {s : Schedule}

theorem pure (s : Schedule) (a : α) : s.UnlessFault (.ok a) a := .inl rfl

theorem bind {x : Except Fault α} {a : α} {k : α → Except Fault β} {b : β}
    (hx : s.UnlessFault x a) (hk : s.UnlessFault (k a) b) : s.UnlessFault (x >>= k) b := by
  rcases hx with rfl | ⟨f, v, fault, hTest, rfl⟩
  · exact hk
  · exact .inr ⟨f, v, fault, hTest, rfl⟩

theorem eq_of_eq_ok {x : Except Fault α} {a r : α} (h : s.UnlessFault x a) (hr : x = .ok r) :
    r = a := by
  rcases h with hx | ⟨f, v, fault, -, hx⟩
  · exact Except.ok.inj (hr.symm.trans hx)
  · cases hr.symm.trans hx

/-- Fields that answer for every value leave only the plain result. -/
theorem eq_ok {x : Except Fault α} {a : α} (h : s.UnlessFault x a)
    (hAnswers : ∀ f v, ∃ b, (s.field f).test v = .ok b) : x = .ok a := by
  rcases h with hx | ⟨f, v, fault, hTest, -⟩
  · exact hx
  · obtain ⟨b, hAnswer⟩ := hAnswers f v
    cases hTest.symm.trans hAnswer

/-- A field tests a value. -/
theorem test (s : Schedule) (f : Field) (v : Nat) :
    s.UnlessFault ((s.field f).test v) ((s.field f).accepts v) := by
  rw [accepts]
  cases hTest : (s.field f).test v with
  | ok b => exact .inl rfl
  | error fault => exact .inr ⟨f, v, fault, hTest, rfl⟩

/-- A list is searched for its first member with a property. -/
theorem findM? {p : α → Except Fault Bool} {q : α → Bool}
    (h : ∀ a, s.UnlessFault (p a) (q a)) (as : List α) :
    s.UnlessFault (as.findM? p) (as.find? q) := by
  induction as with
  | nil => exact .pure s none
  | cons a rest ih =>
      refine (h a).bind ?_
      rw [List.find?_cons]
      cases q a with
      | true => exact .pure s (some a)
      | false => exact ih

end UnlessFault

/-! ## Strict runs -/

namespace Strict

/-- The first field, in the order of an expression, that refuses a minute. -/
def mismatch? (s : Schedule) (m : Int) : Except Fault (Option Field) :=
  Field.all.findM? fun f => do return !(← (s.field f).test (f.valueAt m))

/-- Whether the schedule runs at a minute of the wall clock. -/
def runsAt (s : Schedule) (m : Int) : Except Fault Bool := do
  return (← mismatch? s m).isNone

/-- The field by which the search leaves a candidate. -/
def leaving? (s : Schedule) (start m : Int) : Except Fault (Option Field) := do
  return (← mismatch? s m).or (if m = start then some .minute else none)

/-- The first minute from `m` to `last`, other than `start`, at which the schedule
runs. -/
def sweep (s : Schedule) (start last m : Int) (journal : Array Record) :
    Except Fault (Journaled (Option Int)) :=
  if m ≤ last then do
    match ← leaving? s start m with
    | none => return ⟨some m, journal⟩
    | some f =>
        match _h : f.skip? m with
        | some next => sweep s start last next (recordSkip journal m f)
        | none => return ⟨none, recordSkip journal m f⟩
  else .ok ⟨none, journal⟩
termination_by (last + 1 - m).toNat
decreasing_by
  have hLt := f.lt_skip m
  have hNext := Field.skip?_eq_some _h
  omega

/-- The first minute after `start`, up to `last`, at which the schedule runs. -/
def search (s : Schedule) (start last : Int) (journal : Array Record) :
    Except Fault (Journaled (Option Int)) :=
  sweep s start last start journal

theorem mismatch?_unlessFault (s : Schedule) (m : Int) :
    s.UnlessFault (mismatch? s m) (s.mismatch? m) := by
  refine UnlessFault.findM? (fun f => ?_) Field.all
  exact (UnlessFault.test s f (f.valueAt m)).bind (.pure s _)

theorem runsAt_unlessFault (s : Schedule) (m : Int) :
    s.UnlessFault (runsAt s m) (s.runsAt m) :=
  (mismatch?_unlessFault s m).bind (.pure s _)

theorem leaving?_unlessFault (s : Schedule) (start m : Int) :
    s.UnlessFault (leaving? s start m) (s.leaving? start m) :=
  (mismatch?_unlessFault s m).bind (.pure s _)

theorem sweep_unlessFault (s : Schedule) (start last m : Int) (journal : Array Record) :
    s.UnlessFault (sweep s start last m journal) (s.sweep start last m journal) := by
  fun_induction Schedule.sweep s start last m journal with
  | case1 m journal hLast hLeaving =>
      rw [sweep, if_pos hLast]
      refine (leaving?_unlessFault s start m).bind ?_
      rw [hLeaving]
      exact .pure s _
  | case2 m journal hLast f hLeaving next hSkip ih =>
      rw [sweep, if_pos hLast]
      refine (leaving?_unlessFault s start m).bind ?_
      simp only [hLeaving]
      split
      · rename_i found hFound
        obtain rfl : next = found := Option.some.inj (hSkip.symm.trans hFound)
        exact ih
      · rename_i hNone
        cases hSkip.symm.trans hNone
  | case3 m journal hLast f hLeaving hSkip =>
      rw [sweep, if_pos hLast]
      refine (leaving?_unlessFault s start m).bind ?_
      simp only [hLeaving]
      split
      · rename_i found hFound
        cases hSkip.symm.trans hFound
      · exact .pure s _
  | case4 m journal hPast =>
      rw [sweep, if_neg hPast]
      exact .pure s _

theorem search_unlessFault (s : Schedule) (start last : Int) (journal : Array Record) :
    s.UnlessFault (search s start last journal) (s.search start last journal) :=
  sweep_unlessFault s start last start journal

/-! ## Strict runs in a time zone -/

/-- The next minute after `start` at which the schedule runs. -/
def nextMinute (s : Schedule) (start : DateTime) :
    Except Fault (Journaled (Except Error Int)) :=
  match start.add? defaultHorizon with
  | none => .ok (s.exhausted start defaultHorizon #[])
  | some limit => do
      match ← search s start.minute limit.minute #[] with
      | ⟨some m, journal⟩ => return ⟨.ok m, journal.push (.found s start m)⟩
      | ⟨none, journal⟩ => return s.exhausted start defaultHorizon journal

/-- Searches from one matching minute to the next until one is shown after `start`. -/
def seek {z : Zone} (s : Schedule) (start : Instant z) (horizon : Duration) (last m : Int)
    (journal : Array Record) : Except Fault (Journaled (Except Error (Instant z))) :=
  match _h : search s m last journal with
  | .error fault => .error fault
  | .ok ⟨none, journal⟩ => .ok (s.exhausted start.wall horizon journal)
  | .ok ⟨some found, journal⟩ =>
      match showing? start found with
      | some i => .ok ⟨.ok i, journal.push (.found s start.wall found)⟩
      | none => seek s start horizon last found (journal.push (.unmapped found start.wall))
termination_by (last - m).toNat
decreasing_by
  have hSame := (search_unlessFault s m last _).eq_of_eq_ok _h
  have hLater := lt_of_search (congrArg Journaled.value hSame.symm)
  omega

/-- The next run after `start` whose wall clock lies within a horizon. -/
def nextWithin {z : Zone} (s : Schedule) (start : Instant z) (horizon : Duration) :
    Except Fault (Journaled (Except Error (Instant z))) :=
  match start.wall.add? horizon with
  | none => .ok (s.exhausted start.wall horizon #[])
  | some limit => seek s start horizon limit.minute start.wall.minute #[]

/-- The next run after `start`. -/
def next {z : Zone} (s : Schedule) (start : Instant z) :
    Except Fault (Journaled (Except Error (Instant z))) :=
  nextWithin s start defaultHorizon

/-- The sequence that continues after an instant. -/
def after {z : Zone} (s : Schedule) (i : Instant z) :
    Except Fault (Journaled (Upcoming z)) := do
  let next ← next s i
  return ⟨⟨s, next.value.toOption⟩, next.journal⟩

/-- Takes the next run, if there is one, and searches for the one after it. -/
def pull {z : Zone} (u : Upcoming z) :
    Except Fault (Option (Instant z) × Journaled (Upcoming z)) :=
  match u.pending with
  | some i => do return (some i, ← after u.schedule i)
  | none => .ok (none, ⟨u, #[]⟩)

theorem nextMinute_unlessFault (s : Schedule) (start : DateTime) :
    s.UnlessFault (nextMinute s start) (s.nextMinute start) := by
  rw [nextMinute, Schedule.nextMinute]
  cases start.add? defaultHorizon with
  | none => exact .pure s _
  | some limit =>
      refine (search_unlessFault s start.minute limit.minute #[]).bind ?_
      dsimp only
      obtain ⟨found, journal⟩ := s.search start.minute limit.minute #[]
      cases found with
      | none => exact .pure s _
      | some m => exact .pure s _

/-- One search of the strict loop. -/
theorem seek_eq_bind {z : Zone} (s : Schedule) (start : Instant z) (horizon : Duration)
    (last m : Int) (journal : Array Record) :
    seek s start horizon last m journal = (do
      match ← search s m last journal with
      | ⟨none, journal⟩ => return s.exhausted start.wall horizon journal
      | ⟨some found, journal⟩ =>
          match showing? start found with
          | some i => return ⟨.ok i, journal.push (.found s start.wall found)⟩
          | none =>
              seek s start horizon last found (journal.push (.unmapped found start.wall))) := by
  rw [seek]
  split
  all_goals
    rename_i hSearch
    rw [hSearch]
    rfl

theorem seek_unlessFault {z : Zone} (s : Schedule) (start : Instant z) (horizon : Duration)
    (last m : Int) (journal : Array Record) :
    s.UnlessFault (seek s start horizon last m journal)
      (s.seek start horizon last m journal) := by
  fun_induction Schedule.seek s start horizon last m journal with
  | case1 m journal rest hSearch =>
      rw [seek_eq_bind]
      refine (search_unlessFault s m last journal).bind ?_
      rw [hSearch]
      exact .pure s _
  | case2 m journal found rest hSearch i hShowing =>
      rw [seek_eq_bind]
      refine (search_unlessFault s m last journal).bind ?_
      rw [hSearch]
      dsimp only
      rw [hShowing]
      exact .pure s _
  | case3 m journal found rest hSearch hShowing ih =>
      rw [seek_eq_bind]
      refine (search_unlessFault s m last journal).bind ?_
      rw [hSearch]
      dsimp only
      rw [hShowing]
      exact ih

theorem nextWithin_unlessFault {z : Zone} (s : Schedule) (start : Instant z)
    (horizon : Duration) :
    s.UnlessFault (nextWithin s start horizon) (s.nextWithin start horizon) := by
  rw [nextWithin, Schedule.nextWithin]
  cases start.wall.add? horizon with
  | none => exact .pure s _
  | some limit => exact seek_unlessFault s start horizon limit.minute start.wall.minute #[]

theorem after_unlessFault {z : Zone} (s : Schedule) (i : Instant z) :
    s.UnlessFault (after s i) (Upcoming.after s i) :=
  (nextWithin_unlessFault s i defaultHorizon).bind (.pure s _)

theorem pull_unlessFault {z : Zone} (u : Upcoming z) :
    u.schedule.UnlessFault (pull u) u.pull := by
  rw [pull, Upcoming.pull]
  cases u.pending with
  | none => exact .pure u.schedule _
  | some i => exact (after_unlessFault u.schedule i).bind (.pure u.schedule _)

end Strict

/-! ## Reachable schedules -/

theorem Reachable.exists_test {s : Schedule} (h : s.Reachable) (f : Field) (v : Nat) :
    ∃ b, (s.field f).test v = .ok b :=
  ⟨_, (h.canonical f).test_eq_ok v⟩

/-- Testing a value against any pattern is a fault exactly if the first leaf that either
is a step of zero or denotes the value is a step of zero; otherwise the answer is
whether a leaf denotes the value that is no step of zero.

No field of a reachable schedule has a step of zero among its leaves.  Whether it runs
at a minute, every search and every sequence of runs come to the results that they have
where no fault ends them.

The offset of a value from an anchor is exact in words of 64 bits, its remainder is
defined for each interval but zero, and testing the value against the step is testing
this remainder. -/
theorem faults_at_zero_steps_only :
    (∀ (p : Pattern) (v : Nat),
      (p.test v = .error .zeroDivisor ↔
        ∃ before q after, p.leaves = before ++ q :: after ∧
          (∀ r ∈ before, ¬ r.IsZeroStep ∧ ¬ r.Denotes v) ∧ q.IsZeroStep) ∧
      (p.test v ≠ .error .zeroDivisor → ∃ b, p.test v = .ok b ∧
        (b = true ↔ ∃ q ∈ p.leaves, ¬ q.IsZeroStep ∧ q.Denotes v))) ∧
    (∀ s : Schedule, s.Reachable →
      (∀ f, ∀ q ∈ (s.field f).leaves, ¬ q.IsZeroStep) ∧
      (∀ m, Strict.runsAt s m = .ok (s.runsAt m)) ∧
      (∀ start last journal, Strict.search s start last journal =
        .ok (s.search start last journal)) ∧
      (∀ start, Strict.nextMinute s start = .ok (s.nextMinute start)) ∧
      ∀ (z : Zone) (start : Instant z),
        (∀ horizon, Strict.nextWithin s start horizon = .ok (s.nextWithin start horizon)) ∧
        Strict.after s start = .ok (s.iter start) ∧
        Strict.after s start = .ok (s.intoIter start) ∧
        ∀ n, Strict.pull ((s.iter start).value.pulled n) =
          .ok ((s.iter start).value.pulled n).pull) ∧
    (∀ (anchor : Option UInt8) (v : UInt32),
      (wordOffset anchor v).toInt = offset anchor v.toNat ∧
      wordOffset anchor v ≠ Int64.minValue ∧
      ∀ n, n ≠ 0 → (step anchor n).test v.toNat =
        .ok (wordRemainder (wordOffset anchor v) (Int64.ofNat n.toNat) == 0)) := by
  refine ⟨fun p v => ⟨test_eq_error_iff_faultsAt, fun hTest => ?_⟩, fun s hs => ?_,
    fun anchor v => ?_⟩
  · exact decides_of_not_faultsAt (mt test_eq_error_iff_faultsAt.2 hTest)
  · have hAnswers := hs.exists_test
    refine ⟨fun f q hq => (hs.canonical f).not_isZeroStep_of_mem_leaves hq, fun m => ?_,
      fun start last journal => ?_, fun start => ?_, fun z start => ⟨fun horizon => ?_, ?_,
        ?_, fun n => ?_⟩⟩
    · exact (Strict.runsAt_unlessFault s m).eq_ok hAnswers
    · exact (Strict.search_unlessFault s start last journal).eq_ok hAnswers
    · exact (Strict.nextMinute_unlessFault s start).eq_ok hAnswers
    · exact (Strict.nextWithin_unlessFault s start horizon).eq_ok hAnswers
    · exact (Strict.after_unlessFault s start).eq_ok hAnswers
    · exact (Strict.after_unlessFault s start).eq_ok hAnswers
    · refine (Strict.pull_unlessFault _).eq_ok ?_
      rw [Upcoming.schedule_pulled, schedule_iter]
      exact hAnswers
  · obtain ⟨hExact, hNotMin⟩ := toInt_wordOffset anchor v
    exact ⟨hExact, hNotMin, fun n hn => test_step_eq_words anchor hn v⟩

/-- Steps of zero, spelled in two ways, that do not get into a schedule. -/
theorem no_fault_after_refused_steps :
    (({} : Schedule).run (.set .minute "3/00")).run (.everyNth .hour 0) = {} ∧
    Strict.runsAt ((({} : Schedule).run (.set .minute "3/00")).run (.everyNth .hour 0)) 0 =
      .ok true := by
  have hRefused : (({} : Schedule).run (.set .minute "3/00")).run (.everyNth .hour 0) = {} := by
    decide +kernel
  have hRuns := (faults_at_zero_steps_only.2.1 _
    (.run (.everyNth .hour 0) (.run (.set .minute "3/00") .default))).2.1 0
  refine ⟨hRefused, hRuns.trans ?_⟩
  rw [hRefused]
  rfl

/-- A fault shows for a value that nothing before it matches. -/
example : (list [list [], list [value 7, list [range 9 5, step (some 3) 0]], all]).test 8 =
    .error .zeroDivisor := rfl

/-- It does not show for a value that is matched further to the left, in another list. -/
example : (list [list [], list [value 7, list [range 9 5, step (some 3) 0]], all]).test 7 =
    .ok true := rfl

/-- By hand, a schedule can be made that has a fault. -/
example : Strict.runsAt { hour := step none 0 } 0 = .error .zeroDivisor := rfl

end Schedule

end Cron
