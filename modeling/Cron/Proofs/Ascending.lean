import Cron.Ascending
import Mathlib.Data.List.Chain
import Mathlib.Data.List.Sort

/-!
# What is built is ascending

A list built by `Ascending.ofList` is in strictly ascending order, and a list
that is in this order is built from its own values without a change.  Together
they make building idempotent, which is what reading a printed list rests on.

Only neighbours are compared.  So the comparison need not be transitive: it is
enough that swapping its arguments swaps its answer.  Where it is transitive,
each value is smaller than all that follow it, and none occurs twice.

## Main results

* `isAscending_ofList` — what is built is ascending.
* `ofList_of_isAscending` — building an ascending list changes nothing.
* `IsAscending.pairwise`, `IsAscending.nodup` — a transitive order goes through
  the whole list.
* `ofList_eq_ofList_iff` — what is built is the same exactly if the values are.
-/

namespace Cron.Ascending

variable {α : Type} {cmp : α → α → Ordering}

/-- Every value of a list is smaller than the one behind it. -/
def IsAscending (cmp : α → α → Ordering) (l : List α) : Prop :=
  l.IsChain fun a b => cmp a b = .lt

instance (l : List α) : Decidable (IsAscending cmp l) :=
  inferInstanceAs (Decidable (l.IsChain _))

/-- The front of a list after an insertion is the value put in or the old front. -/
theorem head?_insert {a x : α} {l : List α} (h : x ∈ (insert cmp a l).head?) :
    x = a ∨ x ∈ l.head? := by
  cases l with
  | nil =>
      left
      exact (Option.some.inj h).symm
  | cons b rest =>
      rw [insert] at h
      cases hCmp : cmp a b with
      | lt =>
          rw [hCmp] at h
          exact .inl (Option.some.inj h).symm
      | eq =>
          rw [hCmp] at h
          exact .inr h
      | gt =>
          rw [hCmp] at h
          exact .inr h

theorem isAscending_insert [Std.OrientedCmp cmp] (a : α) {l : List α}
    (h : IsAscending cmp l) : IsAscending cmp (insert cmp a l) := by
  induction l with
  | nil => exact List.isChain_singleton a
  | cons b rest ih =>
      obtain ⟨hFront, hRest⟩ := List.isChain_cons.1 h
      rw [insert]
      cases hCmp : cmp a b with
      | lt => exact List.isChain_cons_cons.2 ⟨hCmp, h⟩
      | eq => exact h
      | gt =>
          refine List.isChain_cons.2 ⟨?_, ih hRest⟩
          intro x hx
          rcases head?_insert hx with rfl | hx
          · exact Std.OrientedCmp.lt_of_gt hCmp
          · exact hFront x hx

theorem isAscending_ofList [Std.OrientedCmp cmp] (as : List α) :
    IsAscending cmp (ofList cmp as) := by
  induction as with
  | nil => exact List.isChain_nil
  | cons a rest ih => exact isAscending_insert a ih

/-- A value smaller than the front of a list goes before it. -/
theorem insert_of_isAscending {a : α} {l : List α} (h : IsAscending cmp (a :: l)) :
    insert cmp a l = a :: l := by
  cases l with
  | nil => rfl
  | cons b rest => rw [insert, (List.isChain_cons_cons.1 h).1]

theorem ofList_of_isAscending {l : List α} (h : IsAscending cmp l) :
    ofList cmp l = l := by
  induction l with
  | nil => rfl
  | cons a rest ih =>
      show insert cmp a (ofList cmp rest) = a :: rest
      rw [ih (List.isChain_cons.1 h).2]
      exact insert_of_isAscending h

/-! ## Transitive comparisons -/

theorem IsAscending.pairwise [Std.TransCmp cmp] {l : List α} (h : IsAscending cmp l) :
    l.Pairwise fun a b => cmp a b = .lt := by
  have hTrans : Trans (fun a b => cmp a b = .lt) (fun a b => cmp a b = .lt)
      (fun a b => cmp a b = .lt) := ⟨Std.TransCmp.lt_trans⟩
  exact List.IsChain.pairwise h

theorem IsAscending.nodup [Std.TransCmp cmp] {l : List α} (h : IsAscending cmp l) :
    l.Nodup := by
  apply h.pairwise.imp
  intro a b hLt hEq
  have hSelf : cmp b b = .eq := Std.ReflCmp.compare_self
  rw [hEq, hSelf] at hLt
  cases hLt

/-- The values of an ascending list decide the list. -/
theorem IsAscending.eq_of_mem_iff [Std.TransCmp cmp] {l l' : List α}
    (h : IsAscending cmp l) (h' : IsAscending cmp l') (hMem : ∀ a, a ∈ l ↔ a ∈ l') :
    l = l' := by
  have hIrrefl : Std.Irrefl fun a b => cmp a b = .lt :=
    ⟨fun _ hLt => absurd hLt (Std.OrientedCmp.not_lt_of_lt hLt)⟩
  have hAntisymm : Std.Antisymm fun a b => cmp a b = .lt :=
    ⟨fun _ _ hLt hGt => absurd hGt (Std.OrientedCmp.not_lt_of_lt hLt)⟩
  exact List.Pairwise.eq_of_mem_iff h.pairwise h'.pairwise hMem

theorem ofList_eq_ofList_iff [Std.TransCmp cmp] (hCmp : ∀ a b, cmp a b = .eq → a = b)
    {as bs : List α} : ofList cmp as = ofList cmp bs ↔ ∀ a, a ∈ as ↔ a ∈ bs := by
  constructor
  · intro h a
    rw [← mem_ofList hCmp a as, h, mem_ofList hCmp]
  · intro h
    apply (isAscending_ofList as).eq_of_mem_iff (isAscending_ofList bs)
    intro a
    rw [mem_ofList hCmp, mem_ofList hCmp, h]

end Cron.Ascending
