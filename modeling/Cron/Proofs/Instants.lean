import Cron.Calendar.Zone
import Cron.Proofs.WholeMinute

/-!
# Instants and their wall clocks

An instant is known by its universal time; the wall clock is that many seconds
on as the offset in force says, with the same nanoseconds.  The instants that
`earliest?` and `latest?` look for are described the same way: read with an
offset, a minute of the wall clock is shown at one universal time at most.

The offset in force is one of the zone's.  So the universal seconds at which the
clock shows a minute (`secondsShowing`) are reached through the offsets, the least
of them with the greatest offset and the other way round.  There is an instant at
such a second if the calendar spans it.

## Main results

* `Instant.wall_eq`, `Instant.exists_of_wall` — the wall clock of an instant.
* `Zone.instantWith?_eq_some_iff` — the instant that shows a minute when it is
  read with an offset.
* `Zone.earliest?_eq_some_iff`, `Zone.latest?_eq_some_iff` — the instants at the
  least and at the greatest second that shows a minute.
* `Zone.isLeast_of_earliest?`, `Zone.isGreatest_of_latest?` — these are the least and
  the greatest instant that shows it.
-/

namespace Cron.Calendar

namespace Instant

variable {z : Zone}

theorem wall_eq (i : Instant z) :
    i.wall.second = i.utc.second + z.offsetAt i.utc.second ∧ i.wall.nano = i.utc.nano :=
  DateTime.shift?_eq_some_iff.1 i.shift_utc

theorem eq_of_utc_eq {i j : Instant z} (h : i.utc = j.utc) : i = j := by
  obtain ⟨utc, wall, hWall⟩ := i
  obtain ⟨utc', wall', hWall'⟩ := j
  obtain rfl : utc = utc' := h
  obtain rfl : wall = wall' := Option.some.inj (hWall.symm.trans hWall')
  rfl

/-- A universal time is that of an instant if the calendar spans the wall clock. -/
theorem exists_of_wall {utc wall : DateTime}
    (hSecond : wall.second = utc.second + z.offsetAt utc.second)
    (hNano : wall.nano = utc.nano) : ∃ i : Instant z, i.utc = utc ∧ i.wall = wall :=
  ⟨⟨utc, wall, DateTime.shift?_eq_some_iff.2 ⟨hSecond, hNano⟩⟩, rfl, rfl⟩

theorem ofUtc?_utc (i : Instant z) : ofUtc? z i.utc = some i := by
  rw [ofUtc?]
  split
  · exact congrArg some (eq_of_utc_eq rfl)
  · rename_i hNone
    rw [i.shift_utc] at hNone
    cases hNone

end Instant

namespace Zone

/-! ## Offsets -/

/-- The first transition decides between the initial offset and its own. -/
theorem offsetAt_cons (initial : Int) (t : Transition) (rest : List Transition) (x : Int) :
    offsetAt ⟨initial, t :: rest⟩ x =
      offsetAt ⟨if t.second ≤ x then t.offset else initial, rest⟩ x := rfl

theorem offsetAt_mem_offsets (z : Zone) (x : Int) : z.offsetAt x ∈ z.offsets := by
  obtain ⟨initial, transitions⟩ := z
  induction transitions generalizing initial with
  | nil => exact List.mem_singleton_self initial
  | cons t rest ih =>
      rw [offsetAt_cons]
      have hMem := ih (if t.second ≤ x then t.offset else initial)
      simp only [offsets, List.map_cons, List.mem_cons] at hMem ⊢
      rcases hMem with hNow | hLater
      · rw [hNow]
        split
        · exact .inr (.inl rfl)
        · exact .inl rfl
      · exact .inr (.inr hLater)

end Zone

/-! ## Showing a minute -/

variable {z : Zone} {m : Int} {i : Instant z}

/-- The universal seconds at which the wall clock shows a minute, with no seconds. -/
def Zone.secondsShowing (z : Zone) (m : Int) : Set Int := {x | x + z.offsetAt x = m * 60}

/-- The wall clock shows a minute, with no seconds. -/
def Instant.Shows (i : Instant z) (m : Int) : Prop := i.wall.IsMinute ∧ i.wall.minute = m

theorem Instant.shows_iff :
    i.Shows m ↔ i.utc.nano = 0 ∧ i.utc.second ∈ z.secondsShowing m := by
  obtain ⟨hSecond, hNano⟩ := i.wall_eq
  rw [Shows, Zone.secondsShowing, Set.mem_ofPred_eq, ← hSecond, ← hNano]
  constructor
  · intro ⟨hMinute, hShown⟩
    rw [hMinute.second_eq, hShown]
    exact ⟨hMinute.2, rfl⟩
  · intro ⟨hWhole, hShown⟩
    unfold DateTime.IsMinute DateTime.minute
    omega

namespace Zone

theorem mem_offsetsShowing_iff {offset : Int} :
    offset ∈ z.offsetsShowing m ↔ m * 60 - offset ∈ z.secondsShowing m := by
  have hShown : z.offsetAt (m * 60 - offset) = offset ↔
      m * 60 - offset + z.offsetAt (m * 60 - offset) = m * 60 := by
    omega
  rw [offsetsShowing, List.mem_filter, beq_iff_eq, hShown]
  refine and_iff_right_of_imp fun hSecond => ?_
  rw [← hShown.2 hSecond]
  exact z.offsetAt_mem_offsets _

theorem sub_mem_offsetsShowing_iff {x : Int} :
    m * 60 - x ∈ z.offsetsShowing m ↔ x ∈ z.secondsShowing m := by
  rw [mem_offsetsShowing_iff, Int.sub_sub_self]

theorem instantWith?_eq_some_iff {offset : Int} :
    z.instantWith? m offset = some i ↔ i.utc.second = m * 60 - offset ∧ i.utc.nano = 0 := by
  rw [instantWith?, Option.bind_eq_some_iff]
  constructor
  · rintro ⟨utc, hUtc, hInstant⟩
    rw [Instant.utc_of_ofUtc? hInstant]
    exact DateTime.ofSecond?_eq_some_iff.1 hUtc
  · intro hUtc
    exact ⟨i.utc, DateTime.ofSecond?_eq_some_iff.2 hUtc, i.ofUtc?_utc⟩

theorem earliest?_eq_some_iff :
    z.earliest? m = some i ↔ i.utc.nano = 0 ∧ IsLeast (z.secondsShowing m) i.utc.second := by
  rw [earliest?, Option.bind_eq_some_iff]
  constructor
  · rintro ⟨offset, hMax, hInstant⟩
    obtain ⟨hSecond, hNano⟩ := instantWith?_eq_some_iff.1 hInstant
    obtain ⟨hMem, hGreatest⟩ := List.max?_eq_some_iff.1 hMax
    rw [hSecond]
    refine ⟨hNano, mem_offsetsShowing_iff.1 hMem, fun x hx => ?_⟩
    have hLe := hGreatest (m * 60 - x) (sub_mem_offsetsShowing_iff.2 hx)
    omega
  · rintro ⟨hNano, hMem, hLeast⟩
    have hInstant := instantWith?_eq_some_iff.2 ⟨(Int.sub_sub_self (m * 60) _).symm, hNano⟩
    refine ⟨_, List.max?_eq_some_iff.2 ⟨sub_mem_offsetsShowing_iff.2 hMem, ?_⟩, hInstant⟩
    intro offset hOffset
    have hLe := hLeast (mem_offsetsShowing_iff.1 hOffset)
    omega

theorem latest?_eq_some_iff :
    z.latest? m = some i ↔ i.utc.nano = 0 ∧ IsGreatest (z.secondsShowing m) i.utc.second := by
  rw [latest?, Option.bind_eq_some_iff]
  constructor
  · rintro ⟨offset, hMin, hInstant⟩
    obtain ⟨hSecond, hNano⟩ := instantWith?_eq_some_iff.1 hInstant
    obtain ⟨hMem, hLeast⟩ := List.min?_eq_some_iff.1 hMin
    rw [hSecond]
    refine ⟨hNano, mem_offsetsShowing_iff.1 hMem, fun x hx => ?_⟩
    have hLe := hLeast (m * 60 - x) (sub_mem_offsetsShowing_iff.2 hx)
    omega
  · rintro ⟨hNano, hMem, hGreatest⟩
    have hInstant := instantWith?_eq_some_iff.2 ⟨(Int.sub_sub_self (m * 60) _).symm, hNano⟩
    refine ⟨_, List.min?_eq_some_iff.2 ⟨sub_mem_offsetsShowing_iff.2 hMem, ?_⟩, hInstant⟩
    intro offset hOffset
    have hLe := hGreatest (mem_offsetsShowing_iff.1 hOffset)
    omega

/-- The earliest instant shows the minute, and none shows it before. -/
theorem isLeast_of_earliest? (h : z.earliest? m = some i) :
    i.Shows m ∧ ∀ j : Instant z, j.Shows m → ¬ j < i := by
  obtain ⟨hNano, hMem, hLeast⟩ := earliest?_eq_some_iff.1 h
  refine ⟨Instant.shows_iff.2 ⟨hNano, hMem⟩, fun j hj hBefore => ?_⟩
  obtain ⟨hNano', hMem'⟩ := Instant.shows_iff.1 hj
  have hLe := hLeast hMem'
  have hLt := (DateTime.lt_iff _ _).1 hBefore
  omega

/-- The latest instant shows the minute, and none shows it after. -/
theorem isGreatest_of_latest? (h : z.latest? m = some i) :
    i.Shows m ∧ ∀ j : Instant z, j.Shows m → ¬ i < j := by
  obtain ⟨hNano, hMem, hGreatest⟩ := latest?_eq_some_iff.1 h
  refine ⟨Instant.shows_iff.2 ⟨hNano, hMem⟩, fun j hj hAfter => ?_⟩
  obtain ⟨hNano', hMem'⟩ := Instant.shows_iff.1 hj
  have hLe := hGreatest hMem'
  have hLt := (DateTime.lt_iff _ _).1 hAfter
  omega

end Zone

end Cron.Calendar
