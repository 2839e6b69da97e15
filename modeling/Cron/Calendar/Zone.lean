import Cron.Calendar.DateTime

/-!
# Time zones

A zone is an offset of the wall clock from universal time and the moments at
which it changes.  An instant of a zone is a universal time whose wall clock
the calendar spans.

A wall clock that is set forward skips some minutes, and one that is set back
shows some twice.  `earliest?` and `latest?` find the instants that show a
minute: among the zone's offsets they keep those that are in force when the
wall clock, read with this very offset, shows the minute.

## Main results

* `Instant.minute_wall` — the minute of an instant's wall clock, from universal
  time.
-/

namespace Cron.Calendar

/-- A change of the offset, from a universal second on. -/
structure Transition where
  second : Int
  offset : Int
deriving DecidableEq, Repr

/-- A time zone.  Offsets are seconds to add to universal time; the transitions
ascend. -/
structure Zone where
  initial : Int
  transitions : List Transition
deriving DecidableEq, Repr

namespace Zone

/-- A zone that never changes its offset. -/
def fixed (offset : Int) : Zone := ⟨offset, []⟩

/-- The offset at a universal second: that of the last transition up to it. -/
def offsetAt (z : Zone) (second : Int) : Int :=
  z.transitions.foldl (fun offset t => if t.second ≤ second then t.offset else offset) z.initial

/-- The minute that the wall clock shows at a universal time, in the calendar's
span or just outside it. -/
def minuteAt (z : Zone) (utc : DateTime) : Int := (utc.second + z.offsetAt utc.second) / 60

/-- All offsets of the zone. -/
def offsets (z : Zone) : List Int := z.initial :: z.transitions.map Transition.offset

/-- The offsets with which the wall clock shows a minute. -/
def offsetsShowing (z : Zone) (m : Int) : List Int :=
  z.offsets.filter fun offset => z.offsetAt (m * 60 - offset) == offset

end Zone

/-! ## Instants -/

/-- A moment of a zone, with the date and time that its wall clock shows. -/
structure Instant (z : Zone) where
  utc : DateTime
  wall : DateTime
  shift_utc : utc.shift? (z.offsetAt utc.second) = some wall

namespace Instant

/-- The instant at a universal time, if the calendar spans its wall clock. -/
def ofUtc? (z : Zone) (utc : DateTime) : Option (Instant z) :=
  match h : utc.shift? (z.offsetAt utc.second) with
  | some wall => some ⟨utc, wall, h⟩
  | none => none

/-- The offset in force. -/
def offset {z : Zone} (i : Instant z) : Int := z.offsetAt i.utc.second

instance (z : Zone) : LT (Instant z) := ⟨fun a b => a.utc < b.utc⟩

instance (z : Zone) (a b : Instant z) : Decidable (a < b) :=
  inferInstanceAs (Decidable (a.utc < b.utc))

theorem utc_of_ofUtc? {z : Zone} {utc : DateTime} {i : Instant z} (h : ofUtc? z utc = some i) :
    i.utc = utc := by
  rw [ofUtc?] at h
  split at h
  · cases h; rfl
  · cases h

theorem minute_wall {z : Zone} (i : Instant z) : i.wall.minute = z.minuteAt i.utc := by
  rw [DateTime.minute, (DateTime.shift?_eq_some_iff.1 i.shift_utc).1]
  rfl

end Instant

namespace Zone

/-- The instant at which the wall clock, read with an offset, shows a minute. -/
def instantWith? (z : Zone) (m : Int) (offset : Int) : Option (Instant z) :=
  (DateTime.ofSecond? (m * 60 - offset) 0).bind (Instant.ofUtc? z)

/-- The earliest instant at which the wall clock shows a minute.  There is none if the
clock skips the minute, or if universal time lies outside the calendar then. -/
def earliest? (z : Zone) (m : Int) : Option (Instant z) :=
  (z.offsetsShowing m).max?.bind (z.instantWith? m)

/-- The latest instant at which the wall clock shows a minute, found apart from the
earliest one: at the ends of the calendar there may be only one of the two. -/
def latest? (z : Zone) (m : Int) : Option (Instant z) :=
  (z.offsetsShowing m).min?.bind (z.instantWith? m)

end Zone

end Cron.Calendar
