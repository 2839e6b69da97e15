import Cron.Proofs.Meaning

/-!
# Where testing a value meets a fault

Lists nest to any depth, and testing a list stops at the first item that matches.
So a step of zero somewhere in a list is a fault for some values and none for
others: a match further to the left keeps it from showing, in whatever list the
match is.

The nesting has no part in this.  Testing a value goes through the leaves of a
pattern, from left to right, as through the items of one flat list.  A leaf that is
a step of zero is a fault for every value, and any other leaf decides whether it
denotes the value.  Hence a value meets a fault exactly if the first leaf that
either is a step of zero or denotes the value is a step of zero.

The leaves of a canonical pattern are its items, and none of them is a step of
zero.

A machine computes how far a value is beyond an anchor, and the remainder of this,
in words of 64 bits with a sign.  Values of 32 bits and anchors of 8 bits leave so
much room that nothing wraps around there.

## Main results

* `test_eq_error_iff_faultsAt`, `decides_of_not_faultsAt` — which values meet a
  fault, and what the answer is for all others.
* `Canonical.test_eq_ok` — testing a value against a canonical pattern meets no
  fault.
* `toInt_wordOffset`, `test_step_eq_words` — what a machine computes is exact.
-/

namespace Cron.Pattern

/-! ## Leaves -/

mutual

/-- The patterns within nested lists that are no lists themselves, from left to
right. -/
def leaves : Pattern → List Pattern
  | list items => leavesOfItems items
  | p => [p]

/-- The leaves of the items of a list, one after the other. -/
def leavesOfItems : List Pattern → List Pattern
  | [] => []
  | p :: rest => leaves p ++ leavesOfItems rest

end

theorem mem_leavesOfItems {q : Pattern} {items : List Pattern} :
    q ∈ leavesOfItems items ↔ ∃ p ∈ items, q ∈ p.leaves := by
  induction items with
  | nil => simp [leavesOfItems]
  | cons p rest ih =>
      simp only [leavesOfItems, List.mem_append, ih, List.mem_cons, exists_eq_or_imp]

mutual

/-- A leaf is an item, though its numbers may suit no field. -/
theorem exists_item?_of_mem_leaves {p q : Pattern} (h : q ∈ p.leaves) :
    ∃ i, q.item? = some i := by
  cases p with
  | list items => exact exists_item?_of_mem_leavesOfItems h
  | _ =>
      rw [List.mem_singleton.1 h]
      exact ⟨_, rfl⟩

theorem exists_item?_of_mem_leavesOfItems {items : List Pattern} {q : Pattern}
    (h : q ∈ leavesOfItems items) : ∃ i, q.item? = some i := by
  cases items with
  | nil => cases h
  | cons p rest =>
      rcases List.mem_append.1 h with hHead | hTail
      · exact exists_item?_of_mem_leaves hHead
      · exact exists_item?_of_mem_leavesOfItems hTail

end

/-! ## Testing the items of a list -/

theorem testItems_append (ps qs : List Pattern) (v : Nat) :
    testItems (ps ++ qs) v =
      match testItems ps v with
      | .ok false => testItems qs v
      | outcome => outcome := by
  have hLists := test_list_append ps qs v
  simp only [test] at hLists
  exact hLists

theorem testItems_singleton (p : Pattern) (v : Nat) : testItems [p] v = p.test v := by
  rw [testItems]
  cases p.test v with
  | error fault => rfl
  | ok b => cases b <;> rfl

mutual

/-- Testing goes through the leaves as through one flat list. -/
theorem test_eq_testItems_leaves (p : Pattern) (v : Nat) : p.test v = testItems p.leaves v := by
  cases p with
  | list items => exact testItems_eq_testItems_leaves items v
  | _ => exact (testItems_singleton _ v).symm

theorem testItems_eq_testItems_leaves (items : List Pattern) (v : Nat) :
    testItems items v = testItems (leavesOfItems items) v := by
  cases items with
  | nil => rfl
  | cons p rest =>
      rw [leavesOfItems, testItems_append, ← test_eq_testItems_leaves p v,
        ← testItems_eq_testItems_leaves rest v, testItems]
      cases p.test v with
      | error fault => rfl
      | ok b => cases b <;> rfl

end

theorem testItems_eq_false_iff {items : List Pattern} {v : Nat} :
    testItems items v = .ok false ↔ ∀ p ∈ items, p.test v = .ok false := by
  induction items with
  | nil => exact iff_of_true rfl fun _ h => absurd h List.not_mem_nil
  | cons p rest ih =>
      rw [testItems, List.forall_mem_cons]
      cases p.test v with
      | error fault => simp
      | ok b => cases b <;> simp [ih]

theorem testItems_cons_of_ne {p : Pattern} {v : Nat} (h : p.test v ≠ .ok false)
    (rest : List Pattern) : testItems (p :: rest) v = p.test v := by
  rw [testItems]
  split
  · rename_i hHead
    exact hHead.symm
  · rename_i hHead
    exact absurd hHead h
  · rename_i hHead
    exact hHead.symm

/-- Any other outcome is that of the first item which does not refuse the value. -/
theorem testItems_eq_iff {items : List Pattern} {v : Nat} {outcome : Except Fault Bool}
    (h : outcome ≠ .ok false) :
    testItems items v = outcome ↔ ∃ before q after, items = before ++ q :: after ∧
      (∀ r ∈ before, r.test v = .ok false) ∧ q.test v = outcome := by
  constructor
  · intro hTest
    induction items with
    | nil => exact absurd hTest.symm h
    | cons p rest ih =>
        by_cases hHead : p.test v = .ok false
        · rw [testItems, hHead] at hTest
          obtain ⟨before, q, after, rfl, hBefore, hq⟩ := ih hTest
          exact ⟨p :: before, q, after, rfl, List.forall_mem_cons.2 ⟨hHead, hBefore⟩, hq⟩
        · rw [testItems_cons_of_ne hHead] at hTest
          exact ⟨[], p, rest, rfl, fun _ hr => absurd hr List.not_mem_nil, hTest⟩
  · rintro ⟨before, q, after, rfl, hBefore, hq⟩
    rw [testItems_append, testItems_eq_false_iff.2 hBefore]
    show testItems (q :: after) v = outcome
    rw [testItems_cons_of_ne (hq ▸ h), hq]

/-! ## Testing one leaf -/

/-- The values of an item, whatever its numbers; a list has none of its own. -/
def Denotes (p : Pattern) (v : Nat) : Prop := ∃ i, p.item? = some i ∧ i.Denotes v

theorem IsZeroStep.test_eq {p : Pattern} (h : p.IsZeroStep) (v : Nat) :
    p.test v = .error .zeroDivisor := by
  cases p with
  | step anchor interval => exact if_pos h
  | _ => exact h.elim

section Leaf

variable {q : Pattern} (hLeaf : ∃ i, q.item? = some i) {v : Nat}

include hLeaf

theorem decides_leaf (h : ¬ q.IsZeroStep) : q.Decides v (q.Denotes v) := by
  obtain ⟨i, hItem⟩ := hLeaf
  refine (decides_of_not_isZeroStep h hItem v).congr ?_
  simp only [Denotes, hItem, Option.some.injEq, exists_eq_left']

theorem test_leaf_eq_error_iff : q.test v = .error .zeroDivisor ↔ q.IsZeroStep := by
  constructor
  · intro hTest
    by_contra hNot
    obtain ⟨b, hAnswer, -⟩ := decides_leaf hLeaf (v := v) hNot
    rw [hTest] at hAnswer
    cases hAnswer
  · intro h
    exact h.test_eq v

theorem test_leaf_eq_ok_iff (b : Bool) :
    q.test v = .ok b ↔ ¬ q.IsZeroStep ∧ (b = true ↔ q.Denotes v) := by
  by_cases h : q.IsZeroStep
  · rw [h.test_eq v]
    exact iff_of_false nofun fun hBoth => hBoth.1 h
  · obtain ⟨c, hTest, hAnswer⟩ := decides_leaf hLeaf (v := v) h
    rw [hTest, ← hAnswer, Except.ok.injEq]
    cases b <;> cases c <;> simp [h]

end Leaf

/-! ## Faults of a pattern -/

/-- The first leaf that either is a step of zero or denotes the value is a step of
zero. -/
def FaultsAt (p : Pattern) (v : Nat) : Prop :=
  ∃ before q after, p.leaves = before ++ q :: after ∧
    (∀ r ∈ before, ¬ r.IsZeroStep ∧ ¬ r.Denotes v) ∧ q.IsZeroStep

theorem test_eq_error_iff_faultsAt {p : Pattern} {v : Nat} :
    p.test v = .error .zeroDivisor ↔ p.FaultsAt v := by
  have hFault : (Except.error Fault.zeroDivisor : Except Fault Bool) ≠ .ok false := nofun
  rw [test_eq_testItems_leaves, testItems_eq_iff hFault]
  refine exists_congr fun before => exists_congr fun q => exists_congr fun after =>
    and_congr_right fun hLeaves => ?_
  have hLeaf (r : Pattern) (hr : r ∈ before ++ q :: after) : ∃ i, r.item? = some i :=
    exists_item?_of_mem_leaves (hLeaves ▸ hr)
  refine and_congr (forall₂_congr fun r hr => ?_) ?_
  · rw [test_leaf_eq_ok_iff (hLeaf r (List.mem_append_left _ hr))]
    simp
  · exact test_leaf_eq_error_iff (hLeaf q (List.mem_append_right _ List.mem_cons_self))

/-- Where no fault shows, the answer is whether a leaf denotes the value; a step of
zero is none, wherever it stands. -/
theorem decides_of_not_faultsAt {p : Pattern} {v : Nat} (h : ¬ p.FaultsAt v) :
    p.Decides v (∃ q ∈ p.leaves, ¬ q.IsZeroStep ∧ q.Denotes v) := by
  have hTrue (q : Pattern) (hq : q ∈ p.leaves) :
      q.test v = .ok true ↔ ¬ q.IsZeroStep ∧ q.Denotes v := by
    rw [test_leaf_eq_ok_iff (exists_item?_of_mem_leaves hq)]
    simp
  cases hTest : p.test v with
  | error fault => exact absurd (test_eq_error_iff_faultsAt.1 hTest) h
  | ok b =>
      refine ⟨b, hTest, ?_⟩
      rw [test_eq_testItems_leaves] at hTest
      cases b with
      | true =>
          have hMatch : (Except.ok true : Except Fault Bool) ≠ .ok false := nofun
          obtain ⟨before, q, after, hLeaves, -, hq⟩ := (testItems_eq_iff hMatch).1 hTest
          have hMem : q ∈ p.leaves :=
            hLeaves ▸ List.mem_append_right before List.mem_cons_self
          exact iff_of_true rfl ⟨q, hMem, (hTrue q hMem).1 hq⟩
      | false =>
          refine iff_of_false Bool.false_ne_true ?_
          intro ⟨q, hMem, hq⟩
          have hFalse := testItems_eq_false_iff.1 hTest q hMem
          rw [(hTrue q hMem).2 hq] at hFalse
          cases hFalse

/-! ## Canonical patterns -/

theorem IsItem.leaves_eq {f : Field} {p : Pattern} (h : IsItem f p) : p.leaves = [p] := by
  cases p with
  | list items => exact h.elim
  | _ => rfl

theorem Canonical.isItem_of_mem_leaves {f : Field} {p q : Pattern} (h : Canonical f p)
    (hq : q ∈ p.leaves) : IsItem f q := by
  rcases h.isItem_or_list with hItem | ⟨items, rfl, -, hItems, -⟩
  · rw [hItem.leaves_eq, List.mem_singleton] at hq
    exact hq ▸ hItem
  · obtain ⟨r, hr, hqr⟩ := mem_leavesOfItems.1 hq
    rw [(hItems r hr).leaves_eq, List.mem_singleton] at hqr
    exact hqr ▸ hItems r hr

theorem Canonical.not_isZeroStep_of_mem_leaves {f : Field} {p q : Pattern}
    (h : Canonical f p) (hq : q ∈ p.leaves) : ¬ q.IsZeroStep :=
  (h.isItem_of_mem_leaves hq).not_isZeroStep

theorem Canonical.not_faultsAt {f : Field} {p : Pattern} (h : Canonical f p) (v : Nat) :
    ¬ p.FaultsAt v := by
  rintro ⟨before, q, after, hLeaves, -, hZero⟩
  have hq : q ∈ p.leaves := hLeaves ▸ List.mem_append_right before List.mem_cons_self
  exact h.not_isZeroStep_of_mem_leaves hq hZero

theorem Canonical.test_eq_ok {f : Field} {p : Pattern} (h : Canonical f p) (v : Nat) :
    p.test v = .ok (p.accepts v) := by
  obtain ⟨b, hTest, -⟩ := decides_of_not_faultsAt (h.not_faultsAt v)
  rw [accepts, hTest]

/-! ## Words of a machine -/

/-- How far a value is beyond the anchor of a step, in words that wrap around. -/
def wordOffset (anchor : Option UInt8) (v : UInt32) : Int64 :=
  Int64.ofNat v.toNat - Int64.ofNat (match anchor with | some a => a.toNat | none => 0)

/-- The remainder that is not negative, in words that wrap around.  What a machine
computes first has the sign of the dividend. -/
def wordRemainder (x n : Int64) : Int64 := if x % n < 0 then x % n + n else x % n

/-- The offset is exact.  It is not the one dividend whose quotient by `-1` is beyond
all words. -/
theorem toInt_wordOffset (anchor : Option UInt8) (v : UInt32) :
    (wordOffset anchor v).toInt = offset anchor v.toNat ∧
      wordOffset anchor v ≠ Int64.minValue := by
  have hValue := v.toNat_lt
  have hWords (a : Nat) (ha : a < 2 ^ 8) :
      (Int64.ofNat v.toNat - Int64.ofNat a).toInt = v.toNat - a := by
    rw [Int64.toInt_sub, Int64.toInt_ofNat_of_lt (by omega), Int64.toInt_ofNat_of_lt (by omega)]
    exact Int.bmod_eq_of_le (by omega) (by omega)
  obtain ⟨a, ha, hOffset, hWord⟩ : ∃ a : Nat, a < 2 ^ 8 ∧ offset anchor v.toNat = v.toNat - a ∧
      wordOffset anchor v = Int64.ofNat v.toNat - Int64.ofNat a := by
    cases anchor with
    | none => exact ⟨0, by decide, rfl, rfl⟩
    | some a => exact ⟨a.toNat, a.toNat_lt, rfl, rfl⟩
  have hExact := hWords a ha
  refine ⟨by rw [hWord, hExact, hOffset], fun hMin => ?_⟩
  rw [← hWord, hMin, Int64.toInt_minValue] at hExact
  omega

theorem toInt_wordRemainder {x n : Int64} (hn : 0 < n.toInt) :
    (wordRemainder x n).toInt = x.toInt % n.toInt := by
  have hMax := n.toInt_lt
  have hNonneg := Int.emod_nonneg x.toInt (Int.ne_of_gt hn)
  have hLt := Int.emod_lt_of_pos x.toInt hn
  have hSign := Int.tmod_eq_emod (a := x.toInt) (b := n.toInt)
  rw [wordRemainder]
  split
  · rename_i hNeg
    rw [Int64.lt_iff_toInt_lt, Int64.toInt_mod, Int64.toInt_zero] at hNeg
    rw [Int64.toInt_add, Int64.toInt_mod]
    split at hSign
    · omega
    · rw [hSign, Int.bmod_eq_of_le (by omega) (by omega)]
      omega
  · rename_i hNeg
    rw [Int64.lt_iff_toInt_lt, Int64.toInt_mod, Int64.toInt_zero] at hNeg
    rw [Int64.toInt_mod]
    split at hSign <;> omega

/-- Testing a value of 32 bits against a step, in words. -/
theorem test_step_eq_words (anchor : Option UInt8) {n : UInt8} (hn : n ≠ 0) (v : UInt32) :
    (step anchor n).test v.toNat =
      .ok (wordRemainder (wordOffset anchor v) (Int64.ofNat n.toNat) == 0) := by
  have hPos : 0 < n.toNat := Nat.pos_of_ne_zero fun hZero => hn (UInt8.toNat_inj.1 hZero)
  have hWord : (Int64.ofNat n.toNat).toInt = n.toNat :=
    Int64.toInt_ofNat_of_lt (Nat.lt_trans n.toNat_lt (by decide))
  have hWordPos : 0 < (Int64.ofNat n.toNat).toInt := by
    rw [hWord]
    exact Int.natCast_pos.2 hPos
  have hRemainder := toInt_wordRemainder (x := wordOffset anchor v) hWordPos
  rw [hWord, (toInt_wordOffset anchor v).1] at hRemainder
  rw [test, if_neg hn, ← hRemainder]
  refine congrArg Except.ok (Bool.eq_iff_iff.2 ?_)
  rw [beq_iff_eq, beq_iff_eq, ← Int64.toInt_inj, Int64.toInt_zero]

end Cron.Pattern
