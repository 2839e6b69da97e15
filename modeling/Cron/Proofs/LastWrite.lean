import Cron.Schedule.Edit

/-!
# What a run of edits leaves behind

A program changes a schedule by one edit after the other, and some of them may
fail.  Whether an edit fails, with which error, and which pattern it stores
otherwise, is decided by the edit alone (`Edit.Stores`, `Edit.Fails`): the
schedule it meets has no say in it.  So the edits aimed at one field do not feel
those aimed at the others, and among themselves only the last one that succeeds
counts.

The step lemma is `field_run_congr`: a field after an edit depends on this field
before it and on nothing else of the schedule.  Carried through a run it says
that the edits aimed at other fields may be left out (`field_runAll_filter`),
which is all there is to edits that commute.

## Main results

* `Edit.stores_or_fails` — an edit stores the same pattern in every schedule, or
  it fails in every schedule with the same error.
* `Schedule.field_runAll_filter` — a field after a run depends on the edits aimed
  at it only.
* `Schedule.runAll_last_success_wins` — it holds what the last of these that
  succeeded has stored.
-/

namespace Cron

/-! ## One edit -/

namespace Edit

theorem apply_eq (e : Edit) (s : Schedule) : e.apply s = e.pattern.map (s.put e.field) := by
  rw [apply]
  cases e.pattern <;> rfl

/-- The edit succeeds, and it puts the pattern into its field. -/
def Stores (e : Edit) (p : Pattern) : Prop := ∀ s, e.apply s = .ok (s.put e.field p)

/-- The edit fails, with one error whatever the schedule is. -/
def Fails (e : Edit) : Prop := ∃ err, ∀ s, e.apply s = .error err

theorem stores_of_pattern {e : Edit} {p : Pattern} (h : e.pattern = .ok p) : e.Stores p := by
  intro s
  rw [apply_eq, h]
  rfl

theorem fails_of_pattern {e : Edit} {err : Error} (h : e.pattern = .error err) : e.Fails := by
  refine ⟨err, fun s => ?_⟩
  rw [apply_eq, h]
  rfl

theorem stores_or_fails (e : Edit) : (∃ p, e.Stores p) ∨ e.Fails := by
  cases hPattern : e.pattern with
  | ok p => exact .inl ⟨p, stores_of_pattern hPattern⟩
  | error err => exact .inr (fails_of_pattern hPattern)

/-- What an edit answers, and what it leaves in its field, is the same for all
schedules. -/
theorem map_field_apply (e : Edit) (s : Schedule) :
    (e.apply s).map (fun edited => edited.field e.field) = e.pattern := by
  rw [apply_eq]
  cases e.pattern with
  | ok p => exact congrArg Except.ok (s.field_put_self e.field p)
  | error err => rfl

/-- The last edit aimed at a field that succeeds stores a pattern. -/
def LastStored (es : List Edit) (f : Field) (p : Pattern) : Prop :=
  ∃ before e after, es = before ++ e :: after ∧ e.field = f ∧ e.Stores p ∧
    ∀ later ∈ after, later.field = f → later.Fails

/-- No edit aimed at a field succeeds. -/
def NoneStored (es : List Edit) (f : Field) : Prop := ∀ e ∈ es, e.field = f → e.Fails

theorem lastStored_or_noneStored (es : List Edit) (f : Field) :
    (∃ p, LastStored es f p) ∨ NoneStored es f := by
  induction es with
  | nil => exact .inr fun e hMem => absurd hMem List.not_mem_nil
  | cons e rest ih =>
      -- the first edit counts only if no later one is stored
      rcases ih with ⟨p, before, last, after, hRest, hLast⟩ | hNone
      · exact .inl ⟨p, e :: before, last, after, congrArg (e :: ·) hRest, hLast⟩
      · by_cases hField : e.field = f
        · rcases e.stores_or_fails with ⟨p, hStores⟩ | hFails
          · exact .inl ⟨p, [], e, rest, rfl, hField, hStores, hNone⟩
          · exact .inr (List.forall_mem_cons.2 ⟨fun _ => hFails, hNone⟩)
        · exact .inr (List.forall_mem_cons.2 ⟨fun hEq => absurd hEq hField, hNone⟩)

end Edit

namespace Schedule

open Edit

/-- Schedules with the same patterns are the same. -/
theorem eq_of_field_eq {s t : Schedule} (h : ∀ f, s.field f = t.field f) : s = t := by
  cases s
  cases t
  congr
  · exact h .minute
  · exact h .hour
  · exact h .dayOfMonth
  · exact h .month
  · exact h .dayOfWeek

theorem run_of_stores {e : Edit} {p : Pattern} (h : e.Stores p) (s : Schedule) :
    s.run e = s.put e.field p := by
  rw [run, h s]

theorem run_of_fails {e : Edit} (h : e.Fails) (s : Schedule) : s.run e = s := by
  obtain ⟨err, hError⟩ := h
  rw [run, hError s]

/-- An edit carries nothing from one field to another. -/
theorem field_run_congr {s t : Schedule} {f : Field} (h : s.field f = t.field f) (e : Edit) :
    (s.run e).field f = (t.run e).field f := by
  by_cases hField : f = e.field
  · rcases e.stores_or_fails with ⟨p, hStores⟩ | hFails
    · rw [run_of_stores hStores, run_of_stores hStores, hField, field_put_self, field_put_self]
    · rw [run_of_fails hFails, run_of_fails hFails, h]
  · rw [field_run_of_ne s e hField, field_run_of_ne t e hField, h]

/-! ## Runs of edits -/

/-- The schedule after a sequence of edits, each of which may fail. -/
def runAll (s : Schedule) (es : List Edit) : Schedule := es.foldl run s

@[simp] theorem runAll_nil (s : Schedule) : s.runAll [] = s := rfl

@[simp] theorem runAll_cons (s : Schedule) (e : Edit) (es : List Edit) :
    s.runAll (e :: es) = (s.run e).runAll es := rfl

@[simp] theorem runAll_append (s : Schedule) (es es' : List Edit) :
    s.runAll (es ++ es') = (s.runAll es).runAll es' := List.foldl_append

theorem field_runAll_congr {s t : Schedule} {f : Field} (h : s.field f = t.field f)
    (es : List Edit) : (s.runAll es).field f = (t.runAll es).field f := by
  induction es generalizing s t with
  | nil => exact h
  | cons e rest ih => exact ih (field_run_congr h e)

/-- The edits aimed at other fields may be left out. -/
theorem field_runAll_filter (s : Schedule) (es : List Edit) (f : Field) :
    (s.runAll es).field f = (s.runAll (es.filter fun e => e.field = f)).field f := by
  induction es generalizing s with
  | nil => rfl
  | cons e rest ih =>
      -- an edit that is left out changes the schedule, but not in the field looked at
      by_cases hField : e.field = f
      · rw [List.filter_cons_of_pos (by simpa using hField), runAll_cons, runAll_cons, ih]
      · have hOther : (s.run e).field f = s.field f := field_run_of_ne s e (Ne.symm hField)
        rw [List.filter_cons_of_neg (by simpa using hField), runAll_cons, ih]
        exact field_runAll_congr hOther _

theorem field_runAll_of_noneStored {es : List Edit} {f : Field} (h : NoneStored es f)
    (s : Schedule) : (s.runAll es).field f = s.field f := by
  induction es generalizing s with
  | nil => rfl
  | cons e rest ih =>
      obtain ⟨hFirst, hRest⟩ := List.forall_mem_cons.1 h
      rw [runAll_cons, ih hRest]
      by_cases hField : e.field = f
      · rw [run_of_fails (hFirst hField)]
      · exact field_run_of_ne s e (Ne.symm hField)

theorem field_runAll_of_lastStored {es : List Edit} {f : Field} {p : Pattern}
    (h : LastStored es f p) (s : Schedule) : (s.runAll es).field f = p := by
  obtain ⟨before, e, after, rfl, hField, hStores, hAfter⟩ := h
  rw [runAll_append, runAll_cons, field_runAll_of_noneStored hAfter, run_of_stores hStores,
    hField, field_put_self]

/-- Runs that agree on the edits of each field, in the order they come in, end alike. -/
theorem runAll_eq_of_filter_eq {es es' : List Edit}
    (h : ∀ f, (es.filter fun e => e.field = f) = es'.filter fun e => e.field = f)
    (s : Schedule) : s.runAll es = s.runAll es' := by
  apply eq_of_field_eq
  intro f
  rw [field_runAll_filter s es, h f, ← field_runAll_filter s es']

theorem run_comm {e e' : Edit} (h : e.field ≠ e'.field) (s : Schedule) :
    (s.run e).run e' = (s.run e').run e := by
  show s.runAll [e, e'] = s.runAll [e', e]
  apply runAll_eq_of_filter_eq
  intro f
  by_cases hField : e.field = f
  · have hOther : e'.field ≠ f := fun hEq => h (hField.trans hEq.symm)
    simp [hField, hOther]
  · simp [List.filter_cons, hField]

/-- After any run of edits, each field holds the pattern that the last edit aimed at
it has stored, of those that succeed, and its first pattern if there is none.  Each
edit of the run answers as it would on any other schedule, with the same pattern or
the same error, and where it fails the schedule stays.  Edits aimed at different
fields commute, and runs that agree on the edits of each field end alike. -/
theorem runAll_last_success_wins (s : Schedule) (es : List Edit) :
    (∀ f p, LastStored es f p → (s.runAll es).field f = p) ∧
    (∀ f, NoneStored es f → (s.runAll es).field f = s.field f) ∧
    (∀ f, (∃ p, LastStored es f p) ∨ NoneStored es f) ∧
    (∀ before e after, es = before ++ e :: after →
      (∀ t, (e.apply (s.runAll before)).map (fun edited => edited.field e.field) =
        (e.apply t).map fun edited => edited.field e.field) ∧
      (∀ err, e.apply (s.runAll before) = .error err →
        s.runAll (before ++ [e]) = s.runAll before)) ∧
    (∀ e e', e.field ≠ e'.field → (s.run e).run e' = (s.run e').run e) ∧
    (∀ es', (∀ f, (es.filter fun e => e.field = f) = es'.filter fun e => e.field = f) →
      s.runAll es = s.runAll es') := by
  refine ⟨fun f p h => field_runAll_of_lastStored h s,
    fun f h => field_runAll_of_noneStored h s, lastStored_or_noneStored es, ?_,
    fun e e' h => run_comm h s, fun es' h => runAll_eq_of_filter_eq h s⟩
  intro before e after _
  constructor
  · intro t
    rw [map_field_apply, map_field_apply]
  · intro err hError
    rw [runAll_append, runAll_cons, runAll_nil, run, hError]

example : ((({} : Schedule).runAll
    [.set .hour "9,5", .set .minute "60", .on .hour [3], .range .hour 9 4]).field .hour) =
      .value 3 := by
  decide +kernel

end Schedule

end Cron
