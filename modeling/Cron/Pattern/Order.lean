import Cron.Pattern.Basic

/-!
# The order of patterns

Patterns are ordered by their form — all, value, range, step, list — and then
by their components from left to right.  A missing anchor comes before every
anchor, and a list before any list that continues it.

The items of a list are arranged differently: by the first value they name
and, where this is the same, by the order of patterns (`listOrder`).

## Main results

* `order_eq_iff`, `listOrder_eq_iff` — both orders tell all patterns apart,
  so patterns can be compared for equality.
* `order_swap`, `listOrder_swap` — swapping the patterns swaps the answer.
-/

namespace Cron.Pattern

/-! ## The order by form -/

/-- The place of a pattern's form among the forms. -/
def rank : Pattern → Nat
  | all => 0
  | value _ => 1
  | range .. => 2
  | step .. => 3
  | list _ => 4

mutual

/-- Compares patterns by form, then by components. -/
def order : Pattern → Pattern → Ordering
  | value a, value b => compare a b
  | range a b, range c d => (compare a c).then (compare b d)
  | step a n, step b m => (compare a b).then (compare n m)
  | list ps, list qs => orderItems ps qs
  | p, q => compare p.rank q.rank

/-- Compares lists of patterns item by item; a shorter list comes first. -/
def orderItems : List Pattern → List Pattern → Ordering
  | [], [] => .eq
  | [], _ :: _ => .lt
  | _ :: _, [] => .gt
  | p :: ps, q :: qs => (order p q).then (orderItems ps qs)

end

/-- The form is a key before all others. -/
theorem order_eq_then (p q : Pattern) :
    order p q = (compare p.rank q.rank).then (order p q) := by
  cases p <;> cases q <;> rfl

/-- Patterns of different forms compare by their forms. -/
theorem order_eq_compare_rank {p q : Pattern} (h : p.rank ≠ q.rank) :
    order p q = compare p.rank q.rank := by
  rw [order_eq_then]
  cases hForm : compare p.rank q.rank with
  | lt => rfl
  | eq => exact absurd (Nat.compare_eq_eq.1 hForm) h
  | gt => rfl

mutual

theorem order_eq_iff (p q : Pattern) : order p q = .eq ↔ p = q := by
  by_cases hForm : p.rank = q.rank
  · match p, q, hForm with
    | all, all, _ => exact iff_of_true rfl rfl
    | value a, value b, _ => rw [order, Std.compare_eq_iff_eq, value.injEq]
    | range a b, range c d, _ =>
        rw [order, Ordering.then_eq_eq, Std.compare_eq_iff_eq, Std.compare_eq_iff_eq, range.injEq]
    | step a n, step b m, _ =>
        rw [order, Ordering.then_eq_eq, Std.compare_eq_iff_eq, Std.compare_eq_iff_eq, step.injEq]
    | list ps, list qs, _ => rw [order, orderItems_eq_iff, list.injEq]
  · rw [order_eq_compare_rank hForm, Nat.compare_eq_eq]
    exact iff_of_false hForm fun hEq => hForm (congrArg rank hEq)

theorem orderItems_eq_iff (ps qs : List Pattern) : orderItems ps qs = .eq ↔ ps = qs := by
  match ps, qs with
  | [], [] => exact iff_of_true rfl rfl
  | [], q :: qs =>
      have hShorter : orderItems [] (q :: qs) = .lt := rfl
      simp [hShorter]
  | p :: ps, [] =>
      have hLonger : orderItems (p :: ps) [] = .gt := rfl
      simp [hLonger]
  | p :: ps, q :: qs =>
      rw [orderItems, Ordering.then_eq_eq, order_eq_iff p q, orderItems_eq_iff ps qs,
        List.cons.injEq]

end

instance : DecidableEq Pattern := fun p q => decidable_of_iff (order p q = .eq) (order_eq_iff p q)

mutual

theorem order_swap (p q : Pattern) : (order p q).swap = order q p := by
  by_cases hForm : p.rank = q.rank
  · match p, q, hForm with
    | all, all, _ => rfl
    | value a, value b, _ => exact Std.OrientedOrd.eq_swap.symm
    | range a b, range c d, _ =>
        rw [order, order, Ordering.swap_then, ← Std.OrientedOrd.eq_swap,
          ← Std.OrientedOrd.eq_swap]
    | step a n, step b m, _ =>
        rw [order, order, Ordering.swap_then, ← Std.OrientedOrd.eq_swap,
          ← Std.OrientedOrd.eq_swap]
    | list ps, list qs, _ => exact orderItems_swap ps qs
  · rw [order_eq_compare_rank hForm, order_eq_compare_rank (Ne.symm hForm)]
    exact Std.OrientedOrd.eq_swap.symm

theorem orderItems_swap (ps qs : List Pattern) :
    (orderItems ps qs).swap = orderItems qs ps := by
  match ps, qs with
  | [], [] => rfl
  | [], _ :: _ => rfl
  | _ :: _, [] => rfl
  | p :: ps, q :: qs =>
      rw [orderItems, orderItems, Ordering.swap_then, order_swap p q, orderItems_swap ps qs]

end

instance : Std.OrientedCmp order := ⟨fun {p q} => (order_swap q p).symm⟩

/-! ## The order of list items -/

/-- The first value that an item names.  All values and steps without an anchor
count as zero. -/
def leading : Pattern → UInt8
  | all | list _ => 0
  | value v | range v _ => v
  | step anchor _ => anchor.getD 0

/-- Compares items by leading value, then by the order of patterns. -/
def listOrder (p q : Pattern) : Ordering := (compare p.leading q.leading).then (order p q)

theorem listOrder_eq_iff (p q : Pattern) : listOrder p q = .eq ↔ p = q := by
  simp only [listOrder, Ordering.then_eq_eq, order_eq_iff]
  exact ⟨And.right, fun h => ⟨by simp [h], h⟩⟩

theorem listOrder_swap (p q : Pattern) : (listOrder p q).swap = listOrder q p := by
  rw [listOrder, Ordering.swap_then, ← Std.OrientedOrd.eq_swap, order_swap, listOrder]

instance : Std.OrientedCmp listOrder := ⟨fun {p q} => (listOrder_swap q p).symm⟩

end Cron.Pattern
