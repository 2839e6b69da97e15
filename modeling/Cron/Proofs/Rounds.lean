import Cron.Proofs.Zoned

/-!
# Round by round

There are two loops in a search.  The inner one checks a candidate and goes on to
a later one.  The outer one, in a time zone, begins the inner one anew behind a
minute that the clock does not show after the start.  Here both are written out
as what a single round of them does (`check`, `retry`), and run for a number of
rounds that is given beforehand (`rounds`).  In this form a loop may run out of
rounds, so that it says something that it does not.

What makes both end is the same: a round that goes on leads to a strictly later
minute and begins no later than the last minute in question, so there are at
most as many rounds as minutes up to that one, and one more
(`exists_rounds_eq_some`).  For the inner loop this is a fact about each of its
five jumps.  The checks of a round write them out: the hour begins at minute zero and
goes on by sixty minutes, the day begins at midnight and goes on by a day, and
the month begins at its first day and goes on by a month.

## Main results

* `check_eq`, `skip_eq_jump` — the checks written out are those of the search.
* `next_of_check` — a round goes forward, over refused minutes only.
* `rounds_check`, `rounds_retry` — both loops end, with what the search finds.
* `loops_end` — all of this for one schedule.
-/

namespace Cron

open Calendar

/-! ## Loops over minutes -/

/-- What one round of a loop over minutes does. -/
inductive Round (α : Type) where
  /-- The loop ends with a result. -/
  | done (result : α)
  /-- The loop goes on with another minute. -/
  | next (minute : Int)

/-- The result of a loop that begins with a minute and may make a number of
rounds; nothing if it has not ended by then. -/
def rounds {α : Type} (round : Int → Round α) : Nat → Int → Option α
  | 0, _ => none
  | k + 1, m =>
      match round m with
      | .done result => some result
      | .next n => rounds round k n

section

variable {α : Type} {round : Int → Round α}

/-- A loop that only goes on from minutes up to a last one, and to later ones, ends. -/
theorem exists_rounds_eq_some {last : Int}
    (hForward : ∀ m n, round m = .next n → m ≤ last ∧ m < n) {k : Nat} {m : Int}
    (hk : (last + 1 - m).toNat < k) : ∃ result, rounds round k m = some result := by
  induction k generalizing m with
  | zero => exact absurd hk (Nat.not_lt_zero _)
  | succ k ih =>
      rw [rounds]
      cases hRound : round m with
      | done result => exact ⟨result, rfl⟩
      | next n =>
          obtain ⟨hLast, hLater⟩ := hForward m n hRound
          exact ih (by omega)

/-- A loop that has ended did so in its first round, or from the minute on that this
round led to. -/
theorem round_of_rounds {k : Nat} {m : Int} {result : α}
    (h : rounds round k m = some result) :
    ∃ j, match round m with
      | .done found => found = result
      | .next n => rounds round j n = some result := by
  cases k with
  | zero => cases h
  | succ k =>
      refine ⟨k, ?_⟩
      rw [rounds] at h
      cases hRound : round m with
      | done found =>
          rw [hRound] at h
          exact Option.some.inj h
      | next n =>
          rw [hRound] at h
          exact h

end

/-! ## The jumps of the search -/

/-- Midnight of the day of a minute. -/
def Calendar.Minute.midnight (m : Int) : Int := startOfDay (day m)

/-- The first day of the month after that of a date. -/
def Calendar.Date.nextMonth (d : Date) : Date :=
  if d.month = 12 then ⟨d.year + 1, 1, 1⟩ else ⟨d.year, d.month + 1, 1⟩

theorem Calendar.toDay_nextMonth (n : Int) :
    (Date.ofDay n).nextMonth.toDay = Calendar.nextMonth n := by
  rw [Date.nextMonth, ← ofDay_nextMonth, Date.toDay_ofDay]

namespace Field

/-- Where the search goes from a candidate that a field refuses: a unit of the field
on, with everything finer set back. -/
def jump : Field → Int → Int
  | minute, m => m + 1
  | hour, m => m - Minute.ofHour m + 60
  | dayOfMonth, m | dayOfWeek, m => Minute.midnight m + 1440
  | month, m => Minute.startOfDay (Minute.date m).nextMonth.toDay

theorem skip_eq_jump (f : Field) (m : Int) : f.skip m = f.jump m := by
  cases f with
  | minute => rfl
  | hour =>
      simp only [skip, jump, Minute.nextHour, Minute.ofHour]
      omega
  | dayOfMonth | dayOfWeek =>
      simp only [skip, jump, Minute.nextDay, Minute.midnight, Minute.startOfDay, Minute.perDay]
      omega
  | month => exact congrArg Minute.startOfDay (toDay_nextMonth (Minute.day m)).symm

end Field

namespace Schedule

/-! ## A round of the inner loop -/

/-- Goes on with a minute, as far as the calendar reaches. -/
def goOn (n : Int) : Round (Option Int) :=
  if Minute.Spanned n then .next n else .done none

/-- The checks of a candidate, in their order. -/
def check (s : Schedule) (start last m : Int) : Round (Option Int) :=
  if last < m then .done none
  else if s.minute.accepts (Minute.ofHour m) = false then goOn (Field.minute.jump m)
  else if s.hour.accepts (Minute.hour m) = false then goOn (Field.hour.jump m)
  else if s.dayOfMonth.accepts (Minute.date m).day = false then goOn (Field.dayOfMonth.jump m)
  else if s.month.accepts (Minute.date m).month = false then goOn (Field.month.jump m)
  else if s.dayOfWeek.accepts (weekday (Minute.day m)) = false then
    goOn (Field.dayOfWeek.jump m)
  else if m = start then goOn (m + 1)
  else .done (some m)

/-- A round ends the loop, or leaves the candidate by a field. -/
theorem check_eq (s : Schedule) (start last m : Int) :
    s.check start last m =
      if m ≤ last then
        match s.leaving? start m with
        | some f => goOn (f.skip m)
        | none => .done (some m)
      else .done none := by
  by_cases hLast : m ≤ last
  · simp only [check, leaving?, mismatch?, Field.all, field, Field.valueAt, List.find?_cons,
      List.find?_nil, Field.skip_eq_jump, if_pos hLast, if_neg (Int.not_lt.2 hLast)]
    cases s.minute.accepts (Minute.ofHour m) with
    | false => rfl
    | true =>
        cases s.hour.accepts (Minute.hour m) with
        | false => rfl
        | true =>
            cases s.dayOfMonth.accepts (Minute.date m).day with
            | false => rfl
            | true =>
                cases s.month.accepts (Minute.date m).month with
                | false => rfl
                | true =>
                    cases s.dayOfWeek.accepts (weekday (Minute.day m)) with
                    | false => rfl
                    | true => by_cases hStart : m = start <;> simp [hStart, Field.jump]
  · rw [check, if_pos (Int.not_le.1 hLast), if_neg hLast]

theorem goOn_eq_next_iff {m n : Int} : goOn m = .next n ↔ n = m ∧ Minute.Spanned m := by
  rw [goOn]
  split
  · rename_i hSpan
    rw [Round.next.injEq, eq_comm]
    exact (and_iff_left hSpan).symm
  · rename_i hOut
    constructor
    · intro h
      cases h
    · intro ⟨_, hSpan⟩
      exact absurd hSpan hOut

theorem goOn_skip_eq (f : Field) (m : Int) :
    goOn (f.skip m) =
      match f.skip? m with
      | some n => .next n
      | none => .done none := by
  rw [goOn, Field.skip?]
  split <;> rfl

theorem check_eq_next_iff {s : Schedule} {start last m n : Int} :
    s.check start last m = .next n ↔
      m ≤ last ∧ ∃ f, s.leaving? start m = some f ∧ n = f.skip m ∧ Minute.Spanned n := by
  rw [check_eq]
  by_cases hLast : m ≤ last
  · rw [if_pos hLast]
    cases hLeaving : s.leaving? start m with
    | none => simp
    | some f =>
        simp only [goOn_eq_next_iff, hLast, true_and, Option.some.injEq, exists_eq_left']
        refine and_congr_right fun hEq => ?_
        rw [hEq]
  · rw [if_neg hLast]
    simp [hLast]

/-- A round that goes on leads to a later minute of the calendar.  Every minute on the
way there, the candidate included, is refused by a field, unless it is the start. -/
theorem next_of_check {s : Schedule} {start last m n : Int} (h : s.check start last m = .next n) :
    m ≤ last ∧ m < n ∧ Minute.Spanned n ∧
      ∀ k, m ≤ k → k < n →
        k = m ∧ m = start ∨ ∃ f, (s.field f).accepts (f.valueAt k) = false := by
  obtain ⟨hLast, f, hLeaving, hNext, hSpan⟩ := check_eq_next_iff.1 h
  refine ⟨hLast, ?_, hSpan, fun k hFrom hTo => ?_⟩
  · rw [hNext]
    exact f.lt_skip m
  · rw [hNext] at hTo
    exact refused_of_lt_skip hLeaving hFrom hTo

/-- The sweep is the loop of the checks, with records added. -/
theorem sweep_of_rounds {s : Schedule} {start last m : Int} {journal : Array Record} {k : Nat}
    {found : Option Int} (h : rounds (s.check start last) k m = some found) :
    (s.sweep start last m journal).value = found := by
  fun_induction sweep s start last m journal generalizing k with
  | case1 m journal hLast hLeaving =>
      obtain ⟨j, hRound⟩ := round_of_rounds h
      rw [check_eq, if_pos hLast, hLeaving] at hRound
      exact hRound
  | case2 m journal hLast f hLeaving next hSkip ih =>
      obtain ⟨j, hRound⟩ := round_of_rounds h
      simp only [check_eq, if_pos hLast, hLeaving, goOn_skip_eq, hSkip] at hRound
      exact ih hRound
  | case3 m journal hLast f hLeaving hSkip =>
      obtain ⟨j, hRound⟩ := round_of_rounds h
      simp only [check_eq, if_pos hLast, hLeaving, goOn_skip_eq, hSkip] at hRound
      exact hRound
  | case4 m journal hPast =>
      obtain ⟨j, hRound⟩ := round_of_rounds h
      rw [check_eq, if_neg hPast] at hRound
      exact hRound

/-- However the search comes to a candidate, it ends from there on after as many
rounds as there are minutes up to the last one, and one more. -/
theorem rounds_check (s : Schedule) (start last m : Int) (journal : Array Record) :
    rounds (s.check start last) ((last + 1 - m).toNat + 1) m =
      some (s.sweep start last m journal).value := by
  have hForward : ∀ m n, s.check start last m = .next n → m ≤ last ∧ m < n := by
    intro m n h
    exact ⟨(next_of_check h).1, (next_of_check h).2.1⟩
  obtain ⟨found, hRounds⟩ := exists_rounds_eq_some hForward (Nat.lt_succ_self _)
  rw [hRounds, sweep_of_rounds hRounds]

/-- What is found does not depend on the records that are there already. -/
theorem search_value_eq (s : Schedule) (start last : Int) (journal : Array Record) :
    (s.search start last journal).value = (s.search start last #[]).value := by
  have h := rounds_check s start last start journal
  rw [rounds_check s start last start #[]] at h
  exact (Option.some.inj h).symm

/-! ## A round of the outer loop -/

variable {z : Zone}

/-- Searches once behind a minute, and looks whether the clock shows what is found
after the start. -/
def retry (s : Schedule) (start : Instant z) (horizon : Duration) (last m : Int) :
    Round (Except Error (Instant z)) :=
  match (s.search m last #[]).value with
  | none => .done (.error (.noUpcoming start.wall horizon))
  | some found =>
      match showing? start found with
      | some i => .done (.ok i)
      | none => .next found

/-- The search only begins anew behind a later minute, at which the schedule runs
without the clock showing it after the start. -/
theorem next_of_retry {s : Schedule} {start : Instant z} {horizon : Duration} {last m n : Int}
    (h : s.retry start horizon last m = .next n) :
    m < n ∧ n ≤ last ∧ s.runsAt n ∧ showing? start n = none := by
  rw [retry] at h
  cases hSearch : (s.search m last #[]).value with
  | none =>
      rw [hSearch] at h
      cases h
  | some found =>
      rw [hSearch] at h
      cases hShown : showing? start found with
      | some i =>
          simp only [hShown] at h
          cases h
      | none =>
          simp only [hShown] at h
          obtain rfl := Round.next.inj h
          exact ⟨(lt_of_search hSearch).1, (lt_of_search hSearch).2,
            runsAt_of_search hSearch, hShown⟩

theorem seek_of_rounds {s : Schedule} {start : Instant z} {horizon : Duration} {last m : Int}
    {journal : Array Record} {k : Nat} {result : Except Error (Instant z)}
    (h : rounds (s.retry start horizon last) k m = some result) :
    (s.seek start horizon last m journal).value = result := by
  fun_induction seek s start horizon last m journal generalizing k with
  | case1 m journal journal' hSearch =>
      obtain ⟨j, hRound⟩ := round_of_rounds h
      have hNone : (s.search m last #[]).value = none := by
        rw [← search_value_eq s m last journal, hSearch]
      simp only [retry, hNone] at hRound
      exact hRound
  | case2 m journal found journal' hSearch i hShown =>
      obtain ⟨j, hRound⟩ := round_of_rounds h
      have hFound : (s.search m last #[]).value = some found := by
        rw [← search_value_eq s m last journal, hSearch]
      simp only [retry, hFound, hShown] at hRound
      exact hRound
  | case3 m journal found journal' hSearch hHidden ih =>
      obtain ⟨j, hRound⟩ := round_of_rounds h
      have hFound : (s.search m last #[]).value = some found := by
        rw [← search_value_eq s m last journal, hSearch]
      simp only [retry, hFound, hHidden] at hRound
      exact ih hRound

theorem rounds_retry (s : Schedule) (start : Instant z) (horizon : Duration) (last m : Int)
    (journal : Array Record) :
    rounds (s.retry start horizon last) ((last + 1 - m).toNat + 1) m =
      some (s.seek start horizon last m journal).value := by
  have hForward : ∀ m n, s.retry start horizon last m = .next n → m ≤ last ∧ m < n := by
    intro m n h
    obtain ⟨hLater, hLast, -⟩ := next_of_retry h
    exact ⟨by omega, hLater⟩
  obtain ⟨result, hRounds⟩ := exists_rounds_eq_some hForward (Nat.lt_succ_self _)
  rw [hRounds, seek_of_rounds hRounds]

/-- A round of the search either ends it or leads to a strictly later whole minute of
the calendar, over minutes that a field refuses, apart from the start.  A round of
the loop around it only goes on with a later minute than the one it began with.
So both loops end, whatever the schedule, the zone and the horizon are, and what
they end with is what the search and the next run are defined to be. -/
theorem loops_end (s : Schedule) :
    (∀ start last m n, s.check start last m = .next n →
      m < n ∧ Minute.Spanned n ∧ ∀ k, m ≤ k → k < n →
        k = m ∧ m = start ∨ ∃ f, (s.field f).accepts (f.valueAt k) = false) ∧
    (∀ start last m journal,
      rounds (s.check start last) ((last + 1 - m).toNat + 1) m =
        some (s.sweep start last m journal).value) ∧
    ∀ {z : Zone} (start : Instant z) (horizon : Duration),
      (∀ last m n, s.retry start horizon last m = .next n →
        m < n ∧ n ≤ last ∧ s.runsAt n ∧ showing? start n = none) ∧
      (start.wall.add? horizon = none →
        (s.nextWithin start horizon).value = .error (.noUpcoming start.wall horizon)) ∧
      ∀ limit, start.wall.add? horizon = some limit →
        rounds (s.retry start horizon limit.minute)
            ((limit.minute + 1 - start.wall.minute).toNat + 1) start.wall.minute =
          some (s.nextWithin start horizon).value := by
  refine ⟨fun start last m n h => (next_of_check h).2, s.rounds_check, ?_⟩
  intro z start horizon
  refine ⟨fun last m n h => next_of_retry h, nextWithin_of_add?_eq_none s,
    fun limit hLimit => ?_⟩
  rw [nextWithin, hLimit]
  exact s.rounds_retry start horizon limit.minute start.wall.minute #[]

/-- The number of rounds is reached where the search steps from minute to minute. -/
example :
    rounds (check { minute := .value 5 } 0 2) 3 0 = none ∧
    rounds (check { minute := .value 5 } 0 2) 4 0 = some none := by
  decide +kernel

end Schedule

end Cron
