import Cron.Calendar.Zone
import Cron.Schedule.Search

/-!
# Upcoming runs

The next run after a point in time.  On a plain wall clock it is the minute
that the search finds.  In a time zone the minute also has to be shown after
the start: minutes that the clock skips are passed over, and of those that it
shows twice the earliest showing after the start counts.

A search looks as far ahead as its horizon, counted on the wall clock.  The
default reaches from any date to the next leap day, past a century year that
has none.

`Upcoming` is the sequence of runs: each run starts the search for the next
one, and the sequence ends with the first search that finds nothing.

## Main results

* `lt_of_showing?` — an instant that is taken lies after the start.
-/

namespace Cron.Schedule

open Calendar

/-- The default horizon: eight years of 366 days. -/
def defaultHorizon : Duration := .ofDays (8 * 366)

/-- The outcome of a search that found nothing. -/
def exhausted {α : Type} (s : Schedule) (start : DateTime) (horizon : Duration)
    (journal : Array Record) : Journaled (Except Error α) :=
  ⟨.error (.noUpcoming start horizon), journal.push (.exhausted s start horizon)⟩

/-! ## On a wall clock -/

/-- The next minute after `start` at which the schedule runs. -/
def nextMinute (s : Schedule) (start : DateTime) : Journaled (Except Error Int) :=
  match start.add? defaultHorizon with
  | none => s.exhausted start defaultHorizon #[]
  | some limit =>
      match s.search start.minute limit.minute #[] with
      | ⟨some m, journal⟩ => ⟨.ok m, journal.push (.found s start m)⟩
      | ⟨none, journal⟩ => s.exhausted start defaultHorizon journal

/-! ## In a time zone -/

/-- The first instant after `start` at which the wall clock shows a minute: the
earliest showing, or else the latest. -/
def showing? {z : Zone} (start : Instant z) (m : Int) : Option (Instant z) :=
  ((z.earliest? m).filter fun i => start < i).or ((z.latest? m).filter fun i => start < i)

theorem lt_of_showing? {z : Zone} {start i : Instant z} {m : Int}
    (h : showing? start m = some i) : start < i := by
  rw [showing?, Option.or_eq_some_iff] at h
  rcases h with hEarliest | ⟨-, hLatest⟩
  · exact of_decide_eq_true (Option.filter_eq_some_iff.1 hEarliest).2
  · exact of_decide_eq_true (Option.filter_eq_some_iff.1 hLatest).2

/-- Searches from one matching minute to the next until one is shown after
`start`. -/
def seek {z : Zone} (s : Schedule) (start : Instant z) (horizon : Duration) (last m : Int)
    (journal : Array Record) : Journaled (Except Error (Instant z)) :=
  match _h : s.search m last journal with
  | ⟨none, journal⟩ => s.exhausted start.wall horizon journal
  | ⟨some found, journal⟩ =>
      match showing? start found with
      | some i => ⟨.ok i, journal.push (.found s start.wall found)⟩
      | none => seek s start horizon last found (journal.push (.unmapped found start.wall))
termination_by (last - m).toNat
decreasing_by
  have hLater := lt_of_search (congrArg Journaled.value _h)
  omega

/-- The next run after `start` whose wall clock lies within a horizon. -/
def nextWithin {z : Zone} (s : Schedule) (start : Instant z) (horizon : Duration) :
    Journaled (Except Error (Instant z)) :=
  match start.wall.add? horizon with
  | none => s.exhausted start.wall horizon #[]
  | some limit => s.seek start horizon limit.minute start.wall.minute #[]

/-- The next run after `start`. -/
def next {z : Zone} (s : Schedule) (start : Instant z) : Journaled (Except Error (Instant z)) :=
  s.nextWithin start defaultHorizon

end Cron.Schedule

/-! ## The sequence of runs -/

namespace Cron

open Calendar

/-- The runs still to come: the next one is already known. -/
structure Upcoming (z : Zone) where
  schedule : Schedule
  pending : Option (Instant z)

namespace Upcoming

/-- The sequence that continues after an instant. -/
def after {z : Zone} (s : Schedule) (i : Instant z) : Journaled (Upcoming z) :=
  let next := s.next i
  ⟨⟨s, next.value.toOption⟩, next.journal⟩

/-- Takes the next run, if there is one, and searches for the one after it. -/
def pull {z : Zone} (u : Upcoming z) : Option (Instant z) × Journaled (Upcoming z) :=
  match u.pending with
  | some i => (some i, after u.schedule i)
  | none => (none, ⟨u, #[]⟩)

end Upcoming

namespace Schedule

/-- The runs after an instant, of a schedule that may be edited further: the
sequence keeps the patterns that the schedule has now. -/
def iter {z : Zone} (s : Schedule) (i : Instant z) : Journaled (Upcoming z) := Upcoming.after s i

/-- The runs after an instant, of a schedule that is given up to the sequence. -/
def intoIter {z : Zone} (s : Schedule) (i : Instant z) : Journaled (Upcoming z) :=
  Upcoming.after s i

end Schedule

end Cron
