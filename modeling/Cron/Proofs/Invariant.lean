import Cron.Proofs.Canonical
import Cron.Proofs.PatternOrder

/-!
# What the fields of a schedule hold

A canonical pattern is ascending among neighbours, which is what reading and
printing need to know.  A reader of the stored items relies on more: that each
of them comes before all that follow, and that none is there twice.  This
follows since the order of list items is transitive.

The two keys of this order are spelled out: the leading value first, where all
values and a step without an anchor count as zero, and then the order of
patterns.

## Main results

* `Pattern.Canonical.form` — a canonical pattern is an item of its field, or a
  strictly ascending list of two or more.
* `Schedule.reachable_field_form` — so is every field of a reachable schedule,
  whatever edits it went through.
-/

namespace Cron

namespace Pattern

/-- The patterns of a list ascend by their leading values, and those with the same
leading value by the order of patterns. -/
def Ascends (items : List Pattern) : Prop :=
  items.Pairwise fun p q => p.leading < q.leading ∨ p.leading = q.leading ∧ order p q = .lt

theorem ascends_of_isAscending {items : List Pattern}
    (h : Ascending.IsAscending listOrder items) : Ascends items := by
  apply h.pairwise.imp
  intro p q hLt
  exact (listOrder_eq_lt_iff p q).1 hLt

theorem Canonical.form {f : Field} {p : Pattern} (h : Canonical f p) :
    IsItem f p ∨ ∃ items, p = list items ∧ 2 ≤ items.length ∧ (∀ q ∈ items, IsItem f q) ∧
      items.Nodup ∧ Ascends items := by
  rcases h.isItem_or_list with hItem | ⟨items, hList, hLength, hItems, hAscending⟩
  · exact .inl hItem
  · exact .inr ⟨items, hList, hLength, hItems, hAscending.nodup,
      ascends_of_isAscending hAscending⟩

end Pattern

namespace Schedule

/-- However a program has come by a schedule, each field holds an item whose
numbers suit the field, or a list of at least two such items, which ascends
strictly and so names none of them twice. -/
theorem reachable_field_form {s : Schedule} (h : s.Reachable) (f : Field) :
    Pattern.IsItem f (s.field f) ∨
      ∃ items, s.field f = .list items ∧ 2 ≤ items.length ∧
        (∀ p ∈ items, Pattern.IsItem f p) ∧ items.Nodup ∧ Pattern.Ascends items :=
  (h.canonical f).form

/-- The items of an hour, set after an edit that fails: the step counts from zero, so
that it comes before the range, and the value that is listed twice is kept once. -/
theorem form_of_hours :
    ((({} : Schedule).run (.set .hour "24")).run (.set .hour "22,05-09,*/6,22")).field .hour =
      .list [.step none 6, .range 5 9, .value 22] ∧
    ∃ items, Pattern.list [.step none 6, .range 5 9, .value 22] = .list items ∧
      2 ≤ items.length ∧ (∀ p ∈ items, Pattern.IsItem .hour p) ∧ items.Nodup ∧
        Pattern.Ascends items := by
  have hField : ((({} : Schedule).run (.set .hour "24")).run
      (.set .hour "22,05-09,*/6,22")).field .hour =
        .list [.step none 6, .range 5 9, .value 22] := by
    decide +kernel
  have hForm := reachable_field_form (.run (.set .hour "22,05-09,*/6,22")
    (.run (.set .hour "24") .default)) .hour
  rw [hField] at hForm
  exact ⟨hField, hForm.resolve_left id⟩

end Schedule

end Cron
