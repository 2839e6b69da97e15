import Cron.Proofs.LastWrite
import Cron.Proofs.PatternOrder
import Cron.Proofs.RoundTrip

/-!
# The orders are total

Patterns, the items of a list and schedules each have an order of their own.  All
three put every two values in a row, also patterns that no text expresses, and
none of them takes two values for one.

What the order of patterns is, is said once more as a relation (`Before`): forms
first, then components from left to right, a step without an anchor before those
with one, and a list before the lists that continue it.  Schedules need no relation of
their own.  They compare as the lists of their five patterns do, and these have
the same length, so the first field that differs decides.

A text is more forgetful than an order, since a list of one item is written like
the item.  No reachable schedule holds such a list, or any other pattern that is
not read back from its text, and so the text decides there as well.

## Main results

* `Pattern.order_eq_lt_iff` — the order of patterns is the one that `Before`
  describes.
* `Schedule.order_eq_lt_iff` — the first field that differs decides.
* `Schedule.orders_total` — the three orders are total, and for schedules that a
  program can come by they agree with equality and with the texts.
-/

namespace Cron

/-- A comparison that puts all values in a row and tells them apart. -/
structure IsTotalOrder {α : Type} (cmp : α → α → Ordering) : Prop where
  eq_iff : ∀ a b, cmp a b = .eq ↔ a = b
  swap : ∀ a b, (cmp a b).swap = cmp b a
  antisymm : ∀ a b, (cmp a b).isLE → (cmp b a).isLE → a = b
  trans : ∀ a b c, (cmp a b).isLE → (cmp b c).isLE → (cmp a c).isLE
  total : ∀ a b, (cmp a b).isLE ∨ (cmp b a).isLE

theorem isTotalOrder_of_transCmp {α : Type} {cmp : α → α → Ordering} [Std.TransCmp cmp]
    (hEq : ∀ a b, cmp a b = .eq ↔ a = b) : IsTotalOrder cmp where
  eq_iff := hEq
  swap _ _ := Std.OrientedCmp.eq_swap.symm
  antisymm a b hAB hBA := (hEq a b).1 (Std.OrientedCmp.isLE_antisymm hAB hBA)
  trans _ _ _ := Std.TransCmp.isLE_trans
  total a b := by
    have hSwap : cmp b a = (cmp a b).swap := Std.OrientedCmp.eq_swap
    rw [hSwap]
    cases cmp a b with
    | lt => exact .inl rfl
    | eq => exact .inl rfl
    | gt => exact .inr rfl

namespace Pattern

/-! ## The order of patterns as a relation -/

mutual

/-- A pattern comes before another one. -/
inductive Before : Pattern → Pattern → Prop
  /-- All values, a value, a range, a step, a list, in this order. -/
  | form {p q : Pattern} (h : p.rank < q.rank) : Before p q
  | value {a b : UInt8} (h : a < b) : Before (value a) (value b)
  | first {a b c d : UInt8} (h : a < c) : Before (range a b) (range c d)
  | last {a b d : UInt8} (h : b < d) : Before (range a b) (range a d)
  | noAnchor {b n m : UInt8} : Before (step none n) (step (some b) m)
  | anchor {a b n m : UInt8} (h : a < b) : Before (step (some a) n) (step (some b) m)
  | interval {a : Option UInt8} {n m : UInt8} (h : n < m) : Before (step a n) (step a m)
  | list {ps qs : List Pattern} (h : ItemsBefore ps qs) : Before (list ps) (list qs)

/-- A list of patterns comes before another one. -/
inductive ItemsBefore : List Pattern → List Pattern → Prop
  | shorter {q : Pattern} {qs : List Pattern} : ItemsBefore [] (q :: qs)
  | head {p q : Pattern} {ps qs : List Pattern} (h : Before p q) :
      ItemsBefore (p :: ps) (q :: qs)
  | tail {p : Pattern} {ps qs : List Pattern} (h : ItemsBefore ps qs) :
      ItemsBefore (p :: ps) (p :: qs)

end

/-- A key that decides. -/
private theorem then_of_compare {a b : UInt8} {o : Ordering} (h : a < b) :
    (compare a b).then o = .lt := by
  rw [Std.compare_eq_lt.2 h]
  rfl

/-- A key that is the same leaves the decision to the next one. -/
private theorem then_of_eq {α : Type} [Ord α] [Std.ReflOrd α] (a : α) (o : Ordering) :
    (compare a a).then o = o := by
  rw [Std.ReflOrd.compare_self]
  rfl

mutual

theorem order_of_before {p q : Pattern} : Before p q → order p q = .lt
  | .form h => order_of_rank_lt h
  | .value h => Std.compare_eq_lt.2 h
  | .first h => then_of_compare h
  | .last h => (then_of_eq _ _).trans (Std.compare_eq_lt.2 h)
  | .noAnchor => rfl
  | .anchor h => then_of_compare h
  | .interval h => (then_of_eq _ _).trans (Std.compare_eq_lt.2 h)
  | .list h => orderItems_of_itemsBefore h

theorem orderItems_of_itemsBefore {ps qs : List Pattern} :
    ItemsBefore ps qs → orderItems ps qs = .lt
  | .shorter => rfl
  | .head h => by
      rw [orderItems, order_of_before h]
      rfl
  | .tail h => by
      rw [orderItems, (order_eq_iff _ _).2 rfl]
      exact orderItems_of_itemsBefore h

end

theorem before_range {a b c d : UInt8} (h : order (range a b) (range c d) = .lt) :
    Before (range a b) (range c d) := by
  rcases Ordering.then_eq_lt.1 h with hFirst | ⟨hSame, hLast⟩
  · exact .first (Std.compare_eq_lt.1 hFirst)
  · obtain rfl := Std.LawfulEqOrd.eq_of_compare hSame
    exact .last (Std.compare_eq_lt.1 hLast)

theorem before_step {a b : Option UInt8} {n m : UInt8}
    (h : order (step a n) (step b m) = .lt) : Before (step a n) (step b m) := by
  rcases Ordering.then_eq_lt.1 h with hAnchor | ⟨hSame, hInterval⟩
  · match a, b, hAnchor with
    | none, some _, _ => exact .noAnchor
    | some a, some b, hAnchor =>
        have hLess : compare a b = .lt := hAnchor
        exact .anchor (Std.compare_eq_lt.1 hLess)
  · obtain rfl := Std.LawfulEqOrd.eq_of_compare hSame
    exact .interval (Std.compare_eq_lt.1 hInterval)

mutual

theorem before_of_order {p q : Pattern} (h : order p q = .lt) : Before p q := by
  have hRank := rank_le_of_order h
  by_cases hLess : p.rank < q.rank
  · exact .form hLess
  · have hForm : p.rank = q.rank := by omega
    clear hRank hLess
    match p, q, hForm with
    | all, all, _ => cases h
    | value _, value _, _ => exact .value (Std.compare_eq_lt.1 h)
    | range .., range .., _ => exact before_range h
    | step .., step .., _ => exact before_step h
    | list _, list _, _ => exact .list (itemsBefore_of_orderItems h)

theorem itemsBefore_of_orderItems {ps qs : List Pattern} (h : orderItems ps qs = .lt) :
    ItemsBefore ps qs := by
  match ps, qs with
  | [], _ :: _ => exact .shorter
  | p :: ps, q :: qs =>
      rcases Ordering.then_eq_lt.1 h with hHead | ⟨hSame, hTail⟩
      · exact .head (before_of_order hHead)
      · obtain rfl := (order_eq_iff p q).1 hSame
        exact .tail (itemsBefore_of_orderItems hTail)

end

theorem order_eq_lt_iff (p q : Pattern) : order p q = .lt ↔ Before p q :=
  ⟨before_of_order, order_of_before⟩

theorem orderItems_eq_lt_iff (ps qs : List Pattern) :
    orderItems ps qs = .lt ↔ ItemsBefore ps qs :=
  ⟨itemsBefore_of_orderItems, orderItems_of_itemsBefore⟩

end Pattern

/-! ## Schedules -/

namespace Schedule

/-- The patterns of a schedule, in the order of an expression. -/
def patterns (s : Schedule) : List Pattern := Field.all.map s.field

theorem order_eq_orderItems (s t : Schedule) :
    s.order t = Pattern.orderItems s.patterns t.patterns := rfl

theorem order_eq_iff (s t : Schedule) : s.order t = .eq ↔ s = t := by
  rw [order_eq_orderItems, Pattern.orderItems_eq_iff]
  constructor
  · intro h
    apply eq_of_field_eq
    intro f
    exact List.map_inj_left.1 h f (by cases f <;> decide)
  · intro h
    rw [h]

instance : Std.OrientedCmp order :=
  ⟨fun {s t} => (Pattern.orderItems_swap t.patterns s.patterns).symm⟩

theorem order_lt_trans {s t u : Schedule} (h : s.order t = .lt) (h' : t.order u = .lt) :
    s.order u = .lt := by
  rw [order_eq_orderItems] at *
  exact Pattern.orderItems_lt_trans h h'

instance : Std.TransCmp order :=
  Pattern.transCmp_of_lt_trans (fun s t => (order_eq_iff s t).1) fun _ _ _ => order_lt_trans

/-- The fields are looked at one after the other, and the first that differs
decides. -/
theorem itemsBefore_map_iff (s t : Schedule) (fs : List Field) :
    Pattern.ItemsBefore (fs.map s.field) (fs.map t.field) ↔
      ∃ earlier f later, fs = earlier ++ f :: later ∧
        (∀ g ∈ earlier, s.field g = t.field g) ∧ (s.field f).Before (t.field f) := by
  induction fs with
  | nil =>
      constructor
      · intro h
        cases h
      · intro ⟨earlier, f, later, hNil, _⟩
        cases earlier <;> cases hNil
  | cons f rest ih =>
      rw [List.map_cons, List.map_cons]
      constructor
      · intro h
        generalize hHead : t.field f = q at h
        cases h with
        | head h =>
            refine ⟨[], f, rest, rfl, fun _ hMem => absurd hMem List.not_mem_nil, ?_⟩
            rw [hHead]
            exact h
        | tail h =>
            obtain ⟨earlier, g, later, rfl, hSame, hBefore⟩ := ih.1 h
            exact ⟨f :: earlier, g, later, rfl,
              List.forall_mem_cons.2 ⟨hHead.symm, hSame⟩, hBefore⟩
      · intro ⟨earlier, g, later, hList, hSame, hBefore⟩
        cases earlier with
        | nil =>
            obtain ⟨rfl, rfl⟩ := List.cons.inj hList
            exact .head hBefore
        | cons _ earlier =>
            obtain ⟨rfl, rfl⟩ := List.cons.inj hList
            obtain ⟨hHead, hRest⟩ := List.forall_mem_cons.1 hSame
            rw [hHead]
            exact .tail (ih.2 ⟨earlier, g, later, rfl, hRest, hBefore⟩)

theorem order_eq_lt_iff (s t : Schedule) :
    s.order t = .lt ↔ ∃ earlier f later, Field.all = earlier ++ f :: later ∧
      (∀ g ∈ earlier, s.field g = t.field g) ∧ (s.field f).Before (t.field f) := by
  rw [order_eq_orderItems, Pattern.orderItems_eq_lt_iff, patterns, patterns,
    itemsBefore_map_iff]

/-- A text is read back as one schedule only. -/
theorem eq_of_text_eq {s t : Schedule} (hs : s.Reachable) (ht : t.Reachable)
    (h : s.text = t.text) : s = t := by
  have hParse := parse_text hs.canonical
  rw [h, parse_text ht.canonical] at hParse
  exact (Except.ok.inj hParse).symm

/-- The order of patterns, that of list items and that of schedules are total orders,
in which only equal values compare as equal: the first one by forms and then by
components, the second one by the first value and then by the first order, the
third one by the first field that differs.  For schedules that a program can
come by, comparing as equal, being equal and having the same text are one. -/
theorem orders_total :
    (IsTotalOrder Pattern.order ∧ ∀ p q, Pattern.order p q = .lt ↔ p.Before q) ∧
    (IsTotalOrder Pattern.listOrder ∧ ∀ p q, Pattern.listOrder p q = .lt ↔
      p.leading < q.leading ∨ p.leading = q.leading ∧ p.Before q) ∧
    (IsTotalOrder order ∧ ∀ s t : Schedule, s.order t = .lt ↔
      ∃ earlier f later, Field.all = earlier ++ f :: later ∧
        (∀ g ∈ earlier, s.field g = t.field g) ∧ (s.field f).Before (t.field f)) ∧
    ∀ s t : Schedule, s.Reachable → t.Reachable →
      (s.order t = .eq ↔ s = t) ∧ (s == t ↔ s = t) ∧ (s.text = t.text ↔ s = t) := by
  refine ⟨⟨isTotalOrder_of_transCmp Pattern.order_eq_iff, Pattern.order_eq_lt_iff⟩,
    ⟨isTotalOrder_of_transCmp Pattern.listOrder_eq_iff, fun p q => ?_⟩,
    ⟨isTotalOrder_of_transCmp order_eq_iff, order_eq_lt_iff⟩, fun s t hs ht => ?_⟩
  · rw [Pattern.listOrder_eq_lt_iff, Pattern.order_eq_lt_iff]
  · refine ⟨order_eq_iff s t, beq_iff_eq, eq_of_text_eq hs ht, ?_⟩
    intro h
    rw [h]

/-- Two values against one of them: the list comes after the value, so the texts are
not the same. -/
theorem texts_of_two_minutes_differ :
    parse "5,0 * * * *" = .ok { minute := .list [.value 0, .value 5] } ∧
    parse "05 * * * *" = .ok { minute := .value 5 } ∧
    order { minute := .list [.value 0, .value 5] } { minute := .value 5 } = .gt ∧
    text { minute := .list [.value 0, .value 5] } ≠ text { minute := .value 5 } := by
  have hs : parse "5,0 * * * *" = .ok { minute := .list [.value 0, .value 5] } := by
    decide +kernel
  have ht : parse "05 * * * *" = .ok { minute := .value 5 } := by
    decide +kernel
  have hOrder : order { minute := .list [.value 0, .value 5] } { minute := .value 5 } = .gt := by
    decide +kernel
  have hSame := orders_total.2.2.2 _ _ (.parse hs) (.parse ht)
  refine ⟨hs, ht, hOrder, fun hText => ?_⟩
  have hEq := hSame.1.2 (hSame.2.2.1 hText)
  rw [hOrder] at hEq
  cases hEq

/-- A list of one item is no canonical pattern, and its text is that of the item. -/
example :
    text { minute := .list [.value 5] } = text { minute := .value 5 } ∧
    order { minute := .list [.value 5] } { minute := .value 5 } = .gt := by
  decide +kernel

end Schedule

end Cron
