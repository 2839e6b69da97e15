import Cron.Pattern.Order

/-!
# The orders of patterns are transitive

Both orders compare by one key after the other: the order of patterns by form
and then by components, the order of list items by leading value and then by
the order of patterns.  Such a comparison is transitive if each key is and if
keys that compare as equal are equal (`then_lt_trans`).  For the components of
a range and a step this is a fact about bytes.  For lists it is the transitivity
of the order itself, so the proof is a mutual induction over patterns and lists
of patterns, nested to any depth.

Forms need no case of their own: patterns that ascend in the order do not
descend in rank, so either the rank decides, or all of them have one form.

## Main results

* `order_lt_trans`, `orderItems_lt_trans` — the order of patterns and that of
  their lists.
* `listOrder_lt_trans` — the order of list items.
* `listOrder_eq_lt_iff` — the two keys of a list item, spelled out.
-/

namespace Cron.Pattern

/-! ## One key after the other -/

theorem then_lt_trans {α : Type} {cmp : α → α → Ordering} {a b c : α} {o₁ o₂ o₃ : Ordering}
    (hEq : ∀ a b, cmp a b = .eq → a = b)
    (hCmp : cmp a b = .lt → cmp b c = .lt → cmp a c = .lt)
    (hNext : o₁ = .lt → o₂ = .lt → o₃ = .lt)
    (h : (cmp a b).then o₁ = .lt) (h' : (cmp b c).then o₂ = .lt) :
    (cmp a c).then o₃ = .lt := by
  rw [Ordering.then_eq_lt] at h h' ⊢
  rcases h with hLt | ⟨hSame, hLt⟩
  · rcases h' with hLt' | ⟨hSame', -⟩
    · exact .inl (hCmp hLt hLt')
    · rw [← hEq b c hSame']
      exact .inl hLt
  · rw [hEq a b hSame]
    rcases h' with hLt' | ⟨hSame', hLt'⟩
    · exact .inl hLt'
    · exact .inr ⟨hSame', hNext hLt hLt'⟩

/-- The first key of a type that comes with an order. -/
theorem compare_then_lt_trans {α : Type} [Ord α] [Std.TransOrd α] [Std.LawfulEqOrd α]
    {a b c : α} {o₁ o₂ o₃ : Ordering} (hNext : o₁ = .lt → o₂ = .lt → o₃ = .lt)
    (h : (compare a b).then o₁ = .lt) (h' : (compare b c).then o₂ = .lt) :
    (compare a c).then o₃ = .lt :=
  then_lt_trans (fun _ _ => Std.LawfulEqOrd.eq_of_compare) Std.TransCmp.lt_trans hNext h h'

/-- A comparison that tells all values apart is transitive if its strict part is. -/
theorem transCmp_of_lt_trans {α : Type} {cmp : α → α → Ordering} [Std.OrientedCmp cmp]
    (hEq : ∀ a b, cmp a b = .eq → a = b)
    (hTrans : ∀ a b c, cmp a b = .lt → cmp b c = .lt → cmp a c = .lt) : Std.TransCmp cmp where
  isLE_trans := by
    intro a b c h h'
    rw [Ordering.isLE_iff_eq_lt_or_eq_eq] at h h'
    rcases h with hLt | hSame
    · rcases h' with hLt' | hSame'
      · rw [hTrans a b c hLt hLt']
        rfl
      · rw [← hEq b c hSame', hLt]
        rfl
    · rw [hEq a b hSame, Ordering.isLE_iff_eq_lt_or_eq_eq]
      exact h'

/-! ## The order of patterns -/

theorem rank_le_of_order {p q : Pattern} (h : order p q = .lt) : p.rank ≤ q.rank := by
  rw [order_eq_then, Ordering.then_eq_lt, Nat.compare_eq_lt, Nat.compare_eq_eq] at h
  omega

theorem order_of_rank_lt {p q : Pattern} (h : p.rank < q.rank) : order p q = .lt := by
  rw [order_eq_then, Nat.compare_eq_lt.2 h]
  rfl

mutual

theorem order_lt_trans {p q r : Pattern} (h : order p q = .lt) (h' : order q r = .lt) :
    order p r = .lt := by
  have hRank := rank_le_of_order h
  have hRank' := rank_le_of_order h'
  by_cases hLess : p.rank < r.rank
  · exact order_of_rank_lt hLess
  · have hForm : p.rank = q.rank ∧ q.rank = r.rank := by omega
    clear hRank hRank' hLess
    match p, q, r, hForm with
    | all, all, all, _ => exact h
    | value a, value _, value c, _ =>
        show compare a c = .lt
        exact Std.TransCmp.lt_trans h h'
    | range .., range .., range .., _ => exact compare_then_lt_trans Std.TransCmp.lt_trans h h'
    | step .., step .., step .., _ => exact compare_then_lt_trans Std.TransCmp.lt_trans h h'
    | list .., list .., list .., _ => exact orderItems_lt_trans h h'

theorem orderItems_lt_trans {ps qs rs : List Pattern} (h : orderItems ps qs = .lt)
    (h' : orderItems qs rs = .lt) : orderItems ps rs = .lt := by
  match ps, qs, rs with
  | [], _ :: _, _ :: _ => rfl
  | p :: ps, q :: qs, r :: rs =>
      exact then_lt_trans (fun a b => (order_eq_iff a b).1) order_lt_trans
        orderItems_lt_trans h h'

end

instance : Std.TransCmp order :=
  transCmp_of_lt_trans (fun p q => (order_eq_iff p q).1) fun _ _ _ => order_lt_trans

/-! ## The order of list items -/

theorem listOrder_lt_trans {p q r : Pattern} (h : listOrder p q = .lt)
    (h' : listOrder q r = .lt) : listOrder p r = .lt :=
  compare_then_lt_trans order_lt_trans h h'

instance : Std.TransCmp listOrder :=
  transCmp_of_lt_trans (fun p q => (listOrder_eq_iff p q).1) fun _ _ _ => listOrder_lt_trans

theorem listOrder_eq_lt_iff (p q : Pattern) :
    listOrder p q = .lt ↔
      p.leading < q.leading ∨ p.leading = q.leading ∧ order p q = .lt := by
  rw [listOrder, Ordering.then_eq_lt, Std.compare_eq_lt, Std.LawfulEqOrd.compare_eq_iff_eq]

end Cron.Pattern
