import Cron.Proofs.Canonical

/-!
# What the text of a field means

An item denotes values: all of them, one, those of a range, or those at whole
multiples of an interval from an anchor.  The text of a field denotes what one
of its items denotes.  This says nothing about patterns, about the order of the
items or about numbers in a byte.

A pattern that was read from a text accepts exactly what the text denotes.
Numbers that the reader cuts off suit no field, so the item that was read is
the item that was written, and narrowing keeps its numbers.  Arranging the
items neither loses nor adds one.  And no step that was read has an interval of
zero, so that testing a value always ends with an answer.

## Main results

* `decides_of_parseItem` — testing a value against the pattern of an item
  decides whether the item denotes it.
* `decides_ofItems` — and against the items, arranged, whether one of them does.
* `parse_keeps_meaning` — the same for the text of a field.
-/

namespace Cron

/-! ## Values of an item -/

/-- The values that an item denotes.  A step goes on below its anchor. -/
def Item.Denotes : Item → Nat → Prop
  | .all, _ => True
  | .value n, v => v = n
  | .range a b, v => a ≤ v ∧ v ≤ b
  | .step none n, v => n ∣ v
  | .step (some a) n, v => v % n = a % n

namespace Pattern

/-- Testing a value meets no fault, and the answer is whether `P` holds. -/
def Decides (p : Pattern) (v : Nat) (P : Prop) : Prop :=
  ∃ b, p.test v = .ok b ∧ (b = true ↔ P)

theorem Decides.congr {p : Pattern} {v : Nat} {P Q : Prop} (h : p.Decides v P) (hPQ : P ↔ Q) :
    p.Decides v Q := by
  obtain ⟨b, hTest, hAnswer⟩ := h
  exact ⟨b, hTest, hAnswer.trans hPQ⟩

theorem Decides.accepts_iff {p : Pattern} {v : Nat} {P : Prop} (h : p.Decides v P) :
    p.accepts v = true ↔ P := by
  obtain ⟨b, hTest, hAnswer⟩ := h
  rw [accepts, hTest]
  exact hAnswer

/-- A pattern that decides anything decides whether it accepts. -/
theorem Decides.accepts {p : Pattern} {v : Nat} {P : Prop} (h : p.Decides v P) :
    p.Decides v (p.accepts v = true) := h.congr h.accepts_iff.symm

/-! ## Items that are read -/

/-- A value lies at a whole multiple of the interval from the anchor, before or
after it. -/
theorem offset_emod_eq_zero_iff (anchor : Option UInt8) (v n : Nat) :
    offset anchor v % n = 0 ↔ Item.Denotes (.step (anchor.map UInt8.toNat) n) v := by
  cases anchor with
  | none =>
      show ((v : Int) - (0 : Nat)) % n = 0 ↔ n ∣ v
      rw [Int.natCast_zero, Int.sub_zero, ← Int.dvd_iff_emod_eq_zero, Int.natCast_dvd_natCast]
  | some a =>
      show ((v : Int) - a.toNat) % n = 0 ↔ v % n = a.toNat % n
      rw [← Int.emod_eq_emod_iff_emod_sub_eq_zero]
      exact Int.natCast_inj

/-- A step that has no remainder to look at. -/
def IsZeroStep : Pattern → Prop
  | step _ interval => interval = 0
  | _ => False

theorem IsItem.not_isZeroStep {f : Field} {p : Pattern} (h : IsItem f p) : ¬ p.IsZeroStep := by
  cases p with
  | step anchor interval => exact h.2.2.2
  | _ => exact id

/-- A pattern decides what its item denotes, as long as there is a remainder to look at.
The numbers of the item may be any. -/
theorem decides_of_not_isZeroStep {p : Pattern} {i : Item} (h : ¬ p.IsZeroStep)
    (hItem : p.item? = some i) (v : Nat) : p.Decides v (i.Denotes v) := by
  cases p with
  | all =>
      cases hItem
      exact ⟨true, rfl, iff_of_true rfl trivial⟩
  | value x =>
      cases hItem
      exact ⟨v == x.toNat, rfl, beq_iff_eq⟩
  | range first last =>
      cases hItem
      refine ⟨first.toNat ≤ v && v ≤ last.toNat, rfl, ?_⟩
      rw [Bool.and_eq_true, decide_eq_true_eq, decide_eq_true_eq]
      exact Iff.rfl
  | step anchor interval =>
      cases hItem
      have hNe : interval ≠ 0 := h
      refine ⟨offset anchor v % interval.toNat == 0, ?_, ?_⟩
      · rw [test, if_neg hNe]
      · rw [beq_iff_eq, offset_emod_eq_zero_iff]
  | list items => cases hItem

/-- The pattern of an item of a field decides what the item denotes. -/
theorem decides_of_item? {f : Field} {p : Pattern} {i : Item} (h : IsItem f p)
    (hItem : p.item? = some i) (v : Nat) : p.Decides v (i.Denotes v) :=
  decides_of_not_isZeroStep h.not_isZeroStep hItem v

theorem decides_of_parseItem {f : Field} {cs : List Char} {p : Pattern}
    (h : parseItem f cs = .ok p) (v : Nat) :
    p.Decides v (∃ i, Item.Spells cs i ∧ i.Denotes v) := by
  obtain ⟨i, hItem, hIsItem, hSpells⟩ := spells_iff_of_parseItem h
  refine (decides_of_item? hIsItem hItem v).congr ?_
  simp only [hSpells, exists_eq_left]

/-! ## Lists that are read -/

/-- Testing the items of a list one by one decides whether one of them accepts,
as long as none meets a fault. -/
theorem decides_list {items : List Pattern} {v : Nat} {P : Pattern → Prop}
    (h : ∀ p ∈ items, p.Decides v (P p)) : (list items).Decides v (∃ p ∈ items, P p) := by
  simp only [Decides, test]
  induction items with
  | nil => exact ⟨false, rfl, by simp⟩
  | cons p rest ih =>
      obtain ⟨b, hTest, hAnswer⟩ := h p List.mem_cons_self
      obtain ⟨c, hRest, hTail⟩ := ih fun q hq => h q (List.mem_cons_of_mem p hq)
      rw [testItems, hTest]
      cases b with
      | true => exact ⟨true, rfl, iff_of_true rfl ⟨p, List.mem_cons_self, hAnswer.1 rfl⟩⟩
      | false =>
          have hNot : ¬ P p := fun hP => Bool.false_ne_true (hAnswer.2 hP)
          refine ⟨c, hRest, hTail.trans ?_⟩
          simp only [List.mem_cons, exists_eq_or_imp, hNot, false_or]

/-- Arranging the items changes no answer. -/
theorem decides_ofItems {items : List Pattern} {v : Nat} {P : Pattern → Prop}
    (h : ∀ p ∈ items, p.Decides v (P p)) : (ofItems items).Decides v (∃ p ∈ items, P p) := by
  have hSame : (∃ p ∈ Ascending.ofList listOrder items, P p) ↔ ∃ p ∈ items, P p := by
    simp only [mem_arranged]
  have hArranged : ∀ p ∈ Ascending.ofList listOrder items, p.Decides v (P p) :=
    fun p hp => h p ((mem_arranged p items).1 hp)
  rw [ofItems]
  split
  · rename_i p hOne
    rw [hOne] at hSame hArranged
    refine (hArranged p List.mem_cons_self).congr (Iff.trans ?_ hSame)
    simp only [List.mem_singleton, exists_eq_left]
  · exact (decides_list hArranged).congr hSame

/-- A pattern that was read from the text of a field answers for every value,
and it accepts the values that some item of the text denotes.  The items are
the parts between the commas, as they stand in the text: in any order,
repeated, and with numbers of any length. -/
theorem parse_keeps_meaning {f : Field} {text : String} {p : Pattern}
    (h : parse f text = .ok p) :
    ∃ items, Text.IsSplit ',' text.toList items ∧
      ∀ v, ∃ b, p.test v = .ok b ∧
        (b = true ↔ ∃ cs ∈ items, ∃ i, Item.Spells cs i ∧ i.Denotes v) := by
  obtain ⟨patterns, hRead, hPattern⟩ := bind_eq_ok_iff.1 h
  cases hPattern
  have hItems := mapM_eq_ok_iff.1 hRead
  refine ⟨_, Text.isSplit_iff.2 rfl, fun v => ?_⟩
  have hEach : ∀ q ∈ patterns, q.Decides v (q.accepts v = true) := by
    intro q hq
    obtain ⟨cs, -, hItem⟩ := exists_of_mem_mapM hRead hq
    exact (decides_of_parseItem hItem v).accepts
  refine (decides_ofItems hEach).congr (exists_mem_iff_of_forall₂ ?_ hItems)
  intro cs q hItem
  exact (decides_of_parseItem hItem v).accepts_iff

/-- Read out of order, with leading zeros and twice; the step matches below its
anchor. -/
theorem meaning_of_list :
    parse .minute "10/5,0007,05-9,7" = .ok (list [range 5 9, value 7, step (some 10) 5]) ∧
    ∃ items, Text.IsSplit ',' "10/5,0007,05-9,7".toList items ∧
      ∀ v, ∃ b, (list [range 5 9, value 7, step (some 10) 5]).test v = .ok b ∧
        (b = true ↔ ∃ cs ∈ items, ∃ i, Item.Spells cs i ∧ i.Denotes v) := by
  have hParse : parse .minute "10/5,0007,05-9,7" =
      .ok (list [range 5 9, value 7, step (some 10) 5]) := by
    decide +kernel
  exact ⟨hParse, parse_keeps_meaning hParse⟩

end Pattern

end Cron
