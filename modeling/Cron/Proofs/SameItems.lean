import Cron.Proofs.Acceptance
import Cron.Proofs.PatternOrder

/-!
# Texts with the same items

A field keeps the items of its text in one order and each of them once.  What
it forgets of the text is the order of the items, how often they occur and the
zeros in front of their numbers; whatever else differs between two texts shows
in the patterns read from them.  So patterns are equal exactly if the texts
list the same items, and a program may compare patterns where it means texts.

The items of a text are those that its parts spell (`Lists`).  They are taken
from the text and not from the pattern, with numbers of any length.  A step
that counts from zero by a star, `*/n`, is another item than `0/n`, although
both have the same values.

## Main results

* `lists_iff_of_parse` — the patterns that are arranged stand for the items
  that the text lists.
* `ofItems_eq_ofItems_iff` — arranging forgets order and repetition only.
* `parse_eq_iff_same_items` — patterns are equal exactly if the texts list the
  same items, and any text with the items of one that is read is read alike.
-/

namespace Cron

open Text

/-! ## The items of a text -/

/-- A text lists an item if one of the parts between its commas spells it. -/
def Lists (text : String) (i : Item) : Prop :=
  ∃ parts, IsSplit ',' text.toList parts ∧ ∃ part ∈ parts, Item.Spells part i

/-- Every part of a text spells an item, of whatever field. -/
def Itemized (text : String) : Prop :=
  ∃ parts, IsSplit ',' text.toList parts ∧ ∀ part ∈ parts, ∃ i, Item.Spells part i

theorem lists_iff {text : String} {i : Item} :
    Lists text i ↔ ∃ part ∈ pieces (· == ',') text.toList, Item.Spells part i := by
  simp only [Lists, isSplit_iff, exists_eq_left']

theorem itemized_iff {text : String} :
    Itemized text ↔ ∀ part ∈ pieces (· == ',') text.toList, ∃ i, Item.Spells part i := by
  simp only [Itemized, isSplit_iff, exists_eq_left']

namespace Pattern

/-! ## The items of a pattern -/

/-- In one field, different patterns stand for different items: an item that suits
the field is read as one pattern. -/
theorem IsItem.eq_of_item? {f : Field} {p q : Pattern} {i : Item} (h : IsItem f p)
    (h' : IsItem f q) (hp : p.item? = some i) (hq : q.item? = some i) : p = q := by
  have hRead := ofItem_of_item? h hp
  rw [ofItem_of_item? h' hq] at hRead
  exact (Except.ok.inj hRead).symm

/-- A text that is read is read as an arrangement of patterns, which stand for the
items that the text lists. -/
theorem lists_iff_of_parse {f : Field} {text : String} {p : Pattern}
    (h : parse f text = .ok p) :
    ∃ items, p = ofItems items ∧ (∀ q ∈ items, IsItem f q) ∧
      ∀ i, Lists text i ↔ ∃ q ∈ items, q.item? = some i := by
  obtain ⟨items, hItems, hPattern⟩ := bind_eq_ok_iff.1 h
  have hRead := mapM_eq_ok_iff.1 hItems
  refine ⟨items, (Except.ok.inj hPattern).symm, ?_, ?_⟩
  · intro q hq
    obtain ⟨part, -, hPart⟩ := exists_of_mem_mapM hItems hq
    exact (item?_of_parseItem hPart).2
  · intro i
    rw [lists_iff]
    refine (exists_mem_iff_of_forall₂ ?_ hRead).symm
    intro part q hPart
    obtain ⟨j, hItem, -, hSpells⟩ := spells_iff_of_parseItem hPart
    rw [hItem, hSpells, Option.some.injEq, eq_comm]

/-! ## Arranging -/

/-- An arrangement of items can be taken apart again, since an item is no list. -/
theorem ofList_eq_of_ofItems_eq {f : Field} {ps qs : List Pattern}
    (hp : ∀ p ∈ ps, IsItem f p) (hq : ∀ q ∈ qs, IsItem f q) (h : ofItems ps = ofItems qs) :
    Ascending.ofList listOrder ps = Ascending.ofList listOrder qs := by
  have hFirst (p : Pattern) (hMem : p ∈ Ascending.ofList listOrder ps) : IsItem f p :=
    hp p ((mem_arranged p ps).1 hMem)
  have hSecond (q : Pattern) (hMem : q ∈ Ascending.ofList listOrder qs) : IsItem f q :=
    hq q ((mem_arranged q qs).1 hMem)
  rw [ofItems, ofItems] at h
  -- a single item against a list: an item of a field is never a list
  split at h <;> split at h
  · rename_i p hOne _ q hOther
    rw [hOne, hOther, h]
  · rename_i p hOne _ _
    have hItem := hFirst p (hOne ▸ List.mem_cons_self)
    rw [h] at hItem
    exact hItem.elim
  · rename_i q hOne
    have hItem := hSecond q (hOne ▸ List.mem_cons_self)
    rw [← h] at hItem
    exact hItem.elim
  · exact list.inj h

theorem ofItems_eq_ofItems_iff {f : Field} {ps qs : List Pattern}
    (hp : ∀ p ∈ ps, IsItem f p) (hq : ∀ q ∈ qs, IsItem f q) :
    ofItems ps = ofItems qs ↔ ∀ p, p ∈ ps ↔ p ∈ qs := by
  rw [← Ascending.ofList_eq_ofList_iff fun a b => (listOrder_eq_iff a b).1]
  constructor
  · exact ofList_eq_of_ofItems_eq hp hq
  · intro h
    rw [ofItems, ofItems, h]

/-- Patterns are among others exactly if their items are. -/
theorem subset_iff_item? {f : Field} {ps qs : List Pattern}
    (hp : ∀ p ∈ ps, IsItem f p) (hq : ∀ q ∈ qs, IsItem f q) :
    (∀ p ∈ ps, p ∈ qs) ↔
      ∀ i, (∃ p ∈ ps, p.item? = some i) → ∃ q ∈ qs, q.item? = some i := by
  constructor
  · intro h i ⟨p, hMem, hItem⟩
    exact ⟨p, h p hMem, hItem⟩
  · intro h p hMem
    obtain ⟨i, hItem⟩ := (hp p hMem).exists_item?
    obtain ⟨q, hOther, hSame⟩ := h i ⟨p, hMem, hItem⟩
    rw [(hp p hMem).eq_of_item? (hq q hOther) hItem hSame]
    exact hOther

/-! ## Two texts -/

theorem eq_iff_of_parse {f : Field} {s t : String} {p q : Pattern} (hs : parse f s = .ok p)
    (ht : parse f t = .ok q) : p = q ↔ ∀ i, Lists s i ↔ Lists t i := by
  obtain ⟨ps, rfl, hp, hListsFirst⟩ := lists_iff_of_parse hs
  obtain ⟨qs, rfl, hq, hListsSecond⟩ := lists_iff_of_parse ht
  simp only [ofItems_eq_ofItems_iff hp hq, hListsFirst, hListsSecond, iff_def, forall_and,
    subset_iff_item? hp hq, subset_iff_item? hq hp]

/-- What is read spells items, and these suit the field. -/
theorem suits_of_lists {f : Field} {text : String} {p : Pattern} {i : Item}
    (h : parse f text = .ok p) (hLists : Lists text i) : i.Suits f := by
  obtain ⟨items, -, hItems, hListed⟩ := lists_iff_of_parse h
  obtain ⟨q, hMem, hItem⟩ := (hListed i).1 hLists
  exact suits_of_isItem (hItems q hMem) hItem

theorem itemized_of_parse {f : Field} {text : String} {p : Pattern}
    (h : parse f text = .ok p) : Itemized text := by
  rw [itemized_iff]
  intro part hPart
  obtain ⟨i, hSpells, -⟩ := (exists_parseChars_iff f text.toList).1 ⟨p, h⟩ part hPart
  exact ⟨i, hSpells⟩

/-- Two texts that a field reads give the same pattern exactly if they list the same
items.  And a text made of the items of one that the field reads, in any order, any
number of times each and with any zeros in front of their numbers, is read as the
same pattern; no other text is. -/
theorem parse_eq_iff_same_items {f : Field} {s : String} {p : Pattern}
    (hs : parse f s = .ok p) (t : String) :
    (∀ q, parse f t = .ok q → (p = q ↔ ∀ i, Lists s i ↔ Lists t i)) ∧
    (parse f t = .ok p ↔ Itemized t ∧ ∀ i, Lists s i ↔ Lists t i) := by
  refine ⟨fun q ht => eq_iff_of_parse hs ht, ?_, ?_⟩
  · intro ht
    exact ⟨itemized_of_parse ht, (eq_iff_of_parse hs ht).1 rfl⟩
  · intro ⟨hItemized, hSame⟩
    have hSuits : ∀ part ∈ pieces (· == ',') t.toList,
        ∃ i, Item.Spells part i ∧ i.Suits f := by
      intro part hPart
      obtain ⟨i, hSpells⟩ := itemized_iff.1 hItemized part hPart
      have hLists : Lists t i := lists_iff.2 ⟨part, hPart, hSpells⟩
      exact ⟨i, hSpells, suits_of_lists hs ((hSame i).2 hLists)⟩
    obtain ⟨q, ht⟩ := (exists_parseChars_iff f t.toList).2 hSuits
    have hRead : parse f t = .ok q := ht
    rw [hRead, (eq_iff_of_parse hs hRead).2 hSame]

/-- The order, the repetition and the zeros go; a step from zero stays apart from
one that counts from a star. -/
theorem same_items_of_minutes :
    parse .minute "30,0/5,1-9,*/5" =
      .ok (list [step none 5, step (some 0) 5, range 1 9, value 30]) ∧
    parse .minute "01-9,*/005,30,0/5,*/5,030" =
      .ok (list [step none 5, step (some 0) 5, range 1 9, value 30]) ∧
    (∀ i, Lists "30,0/5,1-9,*/5" i ↔ Lists "01-9,*/005,30,0/5,*/5,030" i) ∧
    ¬ (∀ i, Lists "30,0/5,1-9,*/5" i ↔ Lists "30,0/5,1-9" i) := by
  have hs : parse .minute "30,0/5,1-9,*/5" =
      .ok (list [step none 5, step (some 0) 5, range 1 9, value 30]) := by
    decide +kernel
  have ht : parse .minute "01-9,*/005,30,0/5,*/5,030" =
      .ok (list [step none 5, step (some 0) 5, range 1 9, value 30]) := by
    decide +kernel
  have hOther : parse .minute "30,0/5,1-9" =
      .ok (list [step (some 0) 5, range 1 9, value 30]) := by
    decide +kernel
  refine ⟨hs, ht, ((parse_eq_iff_same_items hs _).2.1 ht).2, fun hSame => ?_⟩
  have hEq := ((parse_eq_iff_same_items hs _).1 _ hOther).2 hSame
  exact absurd hEq (by decide +kernel)

end Pattern

end Cron
