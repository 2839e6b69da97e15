import Cron.Calendar.DateTime
import Mathlib.Order.Bounds.Basic

/-!
# Points in time on a whole minute

The search counts minutes, while its limits are points in time with seconds,
nanoseconds and possibly a leap second.  Nothing is lost by that: a point in
time on a whole minute lies after another one exactly if its minute does, and
not after another one exactly if its minute does not.

## Main results

* `IsMinute.lt_iff`, `IsMinute.le_iff` — the order against any point in time is
  the order of the minutes.
* `exists_isMinute` — a minute that the calendar spans is a point in time.
* `isLeast_onMinutes_iff` — the least point in time on a set of minutes is the
  one on the least minute.
* `exists_map_eq` — a list of minutes is one of points in time.
-/

namespace Cron.Calendar.DateTime

/-- The clock shows a whole minute: no seconds, and no fraction of one. -/
def IsMinute (t : DateTime) : Prop := t.second % 60 = 0 ∧ t.nano = 0

theorem le_iff (a b : DateTime) :
    a ≤ b ↔ a.second < b.second ∨ a.second = b.second ∧ a.nano ≤ b.nano := by
  have hA := a.nano_lt
  have hB := b.nano_lt
  change a.ticks ≤ b.ticks ↔ _
  simp only [ticks, billion]
  omega

/-- A clock that is not behind another shows no earlier minute. -/
theorem minute_le {a b : DateTime} (h : a ≤ b) : a.minute ≤ b.minute := by
  rw [le_iff] at h
  unfold minute
  omega

namespace IsMinute

theorem second_eq {t : DateTime} (h : t.IsMinute) : t.second = t.minute * 60 := by
  have hRest := h.1
  unfold minute
  omega

/-- A leap second still lies before the minute that follows it. -/
theorem lt_iff {t : DateTime} (h : t.IsMinute) (a : DateTime) :
    a < t ↔ a.minute < t.minute := by
  rw [DateTime.lt_iff, h.second_eq, h.2]
  unfold minute
  omega

theorem le_iff {t : DateTime} (h : t.IsMinute) (b : DateTime) :
    t ≤ b ↔ t.minute ≤ b.minute := by
  rw [DateTime.le_iff, h.second_eq, h.2]
  unfold minute
  omega

theorem ext {t u : DateTime} (ht : t.IsMinute) (hu : u.IsMinute)
    (hMinute : t.minute = u.minute) : t = u := by
  have hSecond : t.second = u.second := by
    rw [ht.second_eq, hu.second_eq, hMinute]
  exact eq_of_second_eq hSecond (ht.2.trans hu.2.symm)

/-- On a whole minute the text of the clock is that of the minute. -/
theorem text_eq {t : DateTime} (h : t.IsMinute) (sep : Char) :
    t.text sep = Minute.text sep t.minute := by
  rw [text, Minute.text, h.1, h.2]
  exact List.append_nil _

end IsMinute

/-- The clock set back to the minute that it shows. -/
def truncated (t : DateTime) : DateTime :=
  ⟨t.minute * 60, 0, t.spanned_minute.1, t.spanned_minute.2, Nat.zero_lt_succ _⟩

theorem isMinute_truncated (t : DateTime) : t.truncated.IsMinute := by
  refine ⟨?_, rfl⟩
  show t.minute * 60 % 60 = 0
  omega

theorem minute_truncated (t : DateTime) : t.truncated.minute = t.minute := by
  show t.minute * 60 / 60 = t.minute
  omega

theorem exists_isMinute {m : Int} (h : Minute.Spanned m) :
    ∃ t : DateTime, t.IsMinute ∧ t.minute = m := by
  refine ⟨⟨m * 60, 0, h.1, h.2, by decide⟩, ?_, ?_⟩
  · exact ⟨by dsimp only; omega, rfl⟩
  · unfold minute
    dsimp only
    omega

/-! ## Sets of minutes

The least point in time on a set of minutes is the one on the least minute, so
that a search through minutes can be read as a search through points in time. -/

/-- The points in time on the minutes of a set. -/
def onMinutes (M : Set Int) : Set DateTime := {t | t.IsMinute ∧ t.minute ∈ M}

section

variable {M : Set Int} (hM : ∀ m ∈ M, Minute.Spanned m)

include hM

theorem exists_onMinutes {m : Int} (h : m ∈ M) : ∃ t ∈ onMinutes M, t.minute = m := by
  obtain ⟨t, hMinute, rfl⟩ := exists_isMinute (hM m h)
  exact ⟨t, ⟨hMinute, h⟩, rfl⟩

theorem isLeast_onMinutes_iff {t : DateTime} :
    IsLeast (onMinutes M) t ↔ t.IsMinute ∧ IsLeast M t.minute := by
  constructor
  · intro hLeast
    refine ⟨hLeast.1.1, hLeast.1.2, ?_⟩
    intro m hm
    obtain ⟨u, hu, rfl⟩ := exists_onMinutes hM hm
    exact (hLeast.1.1.le_iff u).1 (hLeast.2 hu)
  · intro h
    refine ⟨⟨h.1, h.2.1⟩, ?_⟩
    intro u hu
    exact (h.1.le_iff u).2 (h.2.2 hu.2)

theorem isLeast_iff_exists_onMinutes {m : Int} :
    IsLeast M m ↔ ∃ t, IsLeast (onMinutes M) t ∧ t.minute = m := by
  constructor
  · intro hLeast
    obtain ⟨t, ht, rfl⟩ := exists_onMinutes hM hLeast.1
    exact ⟨t, (isLeast_onMinutes_iff hM).2 ⟨ht.1, hLeast⟩, rfl⟩
  · rintro ⟨t, hLeast, rfl⟩
    exact ((isLeast_onMinutes_iff hM).1 hLeast).2

theorem eq_of_isLeast_onMinutes {t u : DateTime} (ht : IsLeast (onMinutes M) t)
    (hu : IsLeast (onMinutes M) u) : t = u := by
  have hT := (isLeast_onMinutes_iff hM).1 ht
  have hU := (isLeast_onMinutes_iff hM).1 hu
  exact hT.1.ext hU.1 (hT.2.unique hU.2)

theorem onMinutes_eq_empty_iff : onMinutes M = ∅ ↔ M = ∅ := by
  simp only [Set.eq_empty_iff_forall_notMem]
  constructor
  · intro hNone m hm
    obtain ⟨t, ht, -⟩ := exists_onMinutes hM hm
    exact hNone t ht
  · intro hNone t ht
    exact hNone _ ht.2

end

/-! ## Lists of minutes -/

/-- What each member of a list comes from makes up a list that it comes from. -/
theorem exists_map_eq {α β : Type} {g : α → β} {P : α → Prop} {bs : List β}
    (h : ∀ b ∈ bs, ∃ a, P a ∧ g a = b) : ∃ as : List α, as.map g = bs ∧ ∀ a ∈ as, P a := by
  induction bs with
  | nil => exact ⟨[], rfl, fun _ hMem => absurd hMem List.not_mem_nil⟩
  | cons b rest ih =>
      obtain ⟨⟨a, hA, rfl⟩, hRest⟩ := List.forall_mem_cons.1 h
      obtain ⟨as, rfl, hAs⟩ := ih hRest
      exact ⟨a :: as, rfl, List.forall_mem_cons.2 ⟨hA, hAs⟩⟩

/-- Whole minutes that ascend are points in time that do. -/
theorem pairwise_lt_of_minute {α : Type} {g : α → DateTime} {as : List α}
    (h : ∀ a ∈ as, (g a).IsMinute)
    (hAscending : as.Pairwise fun a b => (g a).minute < (g b).minute) :
    as.Pairwise fun a b => g a < g b := by
  apply hAscending.imp_of_mem
  intro a b _ hb hLt
  exact ((h b hb).lt_iff (g a)).2 hLt

/-- A point in time is in a list of whole minutes exactly if its minute is. -/
theorem mem_iff_of_forall_isMinute {ts : List DateTime} (h : ∀ t ∈ ts, t.IsMinute)
    (t : DateTime) : t ∈ ts ↔ t.IsMinute ∧ t.minute ∈ ts.map minute := by
  constructor
  · intro ht
    exact ⟨h t ht, List.mem_map_of_mem ht⟩
  · intro ⟨hMinute, hMem⟩
    obtain ⟨u, hu, hEq⟩ := List.mem_map.1 hMem
    rw [← (h u hu).ext hMinute hEq]
    exact hu

end Cron.Calendar.DateTime

namespace Cron.Calendar.Minute

/-- The minutes that the calendar spans have no gaps. -/
theorem Spanned.of_le_of_le {a b m : Int} (ha : Spanned a) (hb : Spanned b)
    (hLower : a ≤ m) (hUpper : m ≤ b) : Spanned m := by
  unfold Spanned at *
  omega

end Cron.Calendar.Minute
