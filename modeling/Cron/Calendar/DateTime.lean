import Cron.Calendar.Duration
import Cron.Calendar.Minute

/-!
# Date and time

A date and a time of day, as a wall clock shows them or as universal time; the
type does not say which.  It is a second, counted from 1970-01-01T00:00:00, and
a count of nanoseconds, inside the years that the calendar spans.

A count of nanoseconds of a whole second and more marks a leap second: the
clock shows it as one second more.  It sorts after the second it belongs to and
before the next one, so the order is that of second and nanosecond.

## Main results

* `ofSecond?_eq_some_iff`, `shift?_eq_some_iff` — points in time by their second
  and nanosecond.
* `add?_of_nano_lt` — outside leap seconds, adding a duration adds
  nanoseconds.
-/

namespace Cron.Calendar

/-! ## The span of the calendar -/

/-- The first second of the year -262143. -/
def firstSecond : Int := yearStart (-262143) * 86400

/-- The last second of the year 262142. -/
def lastSecond : Int := yearStart 262143 * 86400 - 1

/-- The calendar spans a whole minute if it spans the minute's first second. -/
def Minute.Spanned (m : Int) : Prop := firstSecond ≤ m * 60 ∧ m * 60 ≤ lastSecond

instance (m : Int) : Decidable (Minute.Spanned m) := inferInstanceAs (Decidable (_ ∧ _))

/-- A date and a time of day. -/
structure DateTime where
  second : Int
  nano : Nat
  first_le : firstSecond ≤ second
  le_last : second ≤ lastSecond
  nano_lt : nano < 2000000000
deriving DecidableEq

namespace DateTime

/-- The point in time at a second, if the calendar spans it. -/
def ofSecond? (second : Int) (nano : Nat) (hNano : nano < 2000000000 := by decide) :
    Option DateTime :=
  if h : firstSecond ≤ second ∧ second ≤ lastSecond then
    some ⟨second, nano, h.1, h.2, hNano⟩
  else none

theorem eq_of_second_eq {t u : DateTime} (hSecond : t.second = u.second)
    (hNano : t.nano = u.nano) : t = u := by
  cases t
  cases u
  simp_all

theorem ofSecond?_eq_some_iff {second : Int} {nano : Nat} {hNano : nano < 2000000000}
    {t : DateTime} :
    ofSecond? second nano hNano = some t ↔ t.second = second ∧ t.nano = nano := by
  rw [ofSecond?]
  constructor
  · intro h
    split at h
    · cases h
      exact ⟨rfl, rfl⟩
    · cases h
  · rintro ⟨rfl, rfl⟩
    exact dif_pos ⟨t.first_le, t.le_last⟩

/-- The point in time with a date and a time of day, if there is one.  Only the
last second of a minute may be a leap second. -/
def ofDate? (date : Date) (hour minute second nano : Nat) : Option DateTime :=
  if h : nano < 2000000000 then
    if date.Valid ∧ hour < 24 ∧ minute < 60 ∧ second < 60 ∧ (nano < 1000000000 ∨ second = 59) then
      ofSecond? (date.toDay * 86400 + (hour * 3600 + minute * 60 + second : Nat)) nano h
    else none
  else none

/-! ## Order -/

/-- A number that grows with second and nanosecond, in this order. -/
def ticks (t : DateTime) : Int := t.second * (2 * billion) + t.nano

instance : LT DateTime := ⟨fun a b => a.ticks < b.ticks⟩

instance : LE DateTime := ⟨fun a b => a.ticks ≤ b.ticks⟩

instance (a b : DateTime) : Decidable (a < b) := inferInstanceAs (Decidable (a.ticks < b.ticks))

instance (a b : DateTime) : Decidable (a ≤ b) := inferInstanceAs (Decidable (a.ticks ≤ b.ticks))

theorem lt_iff (a b : DateTime) :
    a < b ↔ a.second < b.second ∨ a.second = b.second ∧ a.nano < b.nano := by
  have hA := a.nano_lt
  have hB := b.nano_lt
  change a.ticks < b.ticks ↔ _
  simp only [ticks, billion]
  omega

/-! ## Arithmetic -/

/-- The minute that the clock shows. -/
def minute (t : DateTime) : Int := t.second / 60

theorem spanned_minute (t : DateTime) : Minute.Spanned t.minute := by
  have hFirst := t.first_le
  have hLast := t.le_last
  simp only [Minute.Spanned, minute, firstSecond, lastSecond, yearStart] at *
  omega

/-- The clock set forward by a number of seconds; the nanoseconds stay, so a
leap second remains one. -/
def shift? (seconds : Int) (t : DateTime) : Option DateTime :=
  ofSecond? (t.second + seconds) t.nano t.nano_lt

theorem shift?_eq_some_iff {seconds : Int} {t u : DateTime} :
    t.shift? seconds = some u ↔ u.second = t.second + seconds ∧ u.nano = t.nano :=
  ofSecond?_eq_some_iff

/-- The point in time at a number of nanoseconds, no leap second. -/
def ofNanos? (nanos : Int) : Option DateTime :=
  ofSecond? (nanos / billion) (nanos % billion).toNat (by unfold billion; omega)

/-- The point in time a duration later, if the calendar spans it.

A leap second lasts as long as any other.  A sum that stays inside the leap
second or inside the second before it keeps the second; one that leaves them
forward passes the leap second first. -/
def add? (t : DateTime) (d : Duration) : Option DateTime :=
  let nanos := t.nano + d.nanos
  if t.nano < 1000000000 then ofNanos? (t.second * billion + nanos)
  else if h : 2 * billion ≤ nanos then ofNanos? (t.second * billion + (nanos - billion))
  else if d.nanos ≤ -billion then ofNanos? (t.second * billion + nanos)
  else ofSecond? t.second nanos.toNat (by unfold billion at h; omega)

theorem add?_of_nano_lt {t : DateTime} (h : t.nano < 1000000000) (d : Duration) :
    t.add? d = ofNanos? (t.second * billion + t.nano + d.nanos) := by
  simp only [add?, h, if_true, Int.add_assoc]

/-! ## Text -/

/-- The fraction of a second after its point, in the fewest of three, six or
nine digits that are exact; nothing if there is no fraction. -/
def fractionText (nanos : Nat) : List Char :=
  if nanos = 0 then []
  else if nanos % 1000000 = 0 then '.' :: Text.Decimal.writePadded 3 (nanos / 1000000)
  else if nanos % 1000 = 0 then '.' :: Text.Decimal.writePadded 6 (nanos / 1000)
  else '.' :: Text.Decimal.writePadded 9 nanos

/-- The date, `sep`, and the time of day.  A leap second shows as one second
more. -/
def text (sep : Char) (t : DateTime) : List Char :=
  let carry := t.nano / 1000000000
  stamp sep (Minute.day t.minute) (Minute.hour t.minute) (Minute.ofHour t.minute)
      ((t.second % 60).toNat + carry) ++
    fractionText (t.nano % 1000000000)

end DateTime

end Cron.Calendar
