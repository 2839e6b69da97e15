import Cron.Interchange
import Cron.Proofs.Ascending
import Cron.Proofs.Grammar
import Cron.Schedule.Edit
import Mathlib.Data.List.Forall2

/-!
# Canonical schedules

The type of patterns holds more than a text can express, but a schedule that a
program can come by does not.  There are few ways to come by one
(`Schedule.Reachable`), and each of them stores in a field what was read from a
text.  What was read is canonical: an item whose numbers suit the field, or an
ascending list of two or more such items.

## Main results

* `canonical_of_parseChars` — what is read from the text of a field is canonical.
* `Schedule.Reachable.canonical` — every field of a reachable schedule is
  canonical, whatever edits it went through.
-/

namespace Cron

/-! ## Readings that succeed or fail -/

theorem bind_eq_ok_iff {ε α β : Type} {x : Except ε α} {k : α → Except ε β} {b : β} :
    x >>= k = .ok b ↔ ∃ a, x = .ok a ∧ k a = .ok b := by
  cases x with
  | error e =>
      constructor
      · intro h
        cases h
      · intro ⟨a, hx, _⟩
        cases hx
  | ok a =>
      constructor
      · intro h
        exact ⟨a, rfl, h⟩
      · intro ⟨b, hx, h⟩
        cases hx
        exact h

theorem bind_eq_error_iff {ε α β : Type} {x : Except ε α} {k : α → Except ε β} {e : ε} :
    x >>= k = .error e ↔ x = .error e ∨ ∃ a, x = .ok a ∧ k a = .error e := by
  cases x with
  | error err => simp [Bind.bind, Except.bind]
  | ok a => simp [Bind.bind, Except.bind]

theorem map_eq_ok_iff {ε α β : Type} {x : Except ε α} {g : α → β} {b : β} :
    x.map g = .ok b ↔ ∃ a, x = .ok a ∧ g a = b := by
  cases x <;> simp [Except.map]

theorem map_eq_error_iff {ε α β : Type} {x : Except ε α} {g : α → β} {e : ε} :
    x.map g = .error e ↔ x = .error e := by
  cases x <;> simp [Except.map]

/-- Reading a list succeeds if reading each of its members does. -/
theorem mapM_eq_ok_iff {ε α β : Type} {g : α → Except ε β} {as : List α} {bs : List β} :
    as.mapM g = .ok bs ↔ List.Forall₂ (fun a b => g a = .ok b) as bs := by
  induction as generalizing bs with
  | nil =>
      rw [List.mapM_nil, List.forall₂_nil_left_iff]
      constructor
      · intro h
        exact (Except.ok.inj h).symm
      · intro h
        rw [h]
        rfl
  | cons a rest ih =>
      rw [List.mapM_cons, List.forall₂_cons_left_iff, bind_eq_ok_iff]
      constructor
      · intro ⟨b, hHead, hTail⟩
        obtain ⟨more, hMore, hList⟩ := bind_eq_ok_iff.1 hTail
        exact ⟨b, more, hHead, ih.1 hMore, (Except.ok.inj hList).symm⟩
      · intro ⟨b, more, hHead, hMore, hList⟩
        refine ⟨b, hHead, bind_eq_ok_iff.2 ⟨more, ih.2 hMore, ?_⟩⟩
        rw [hList]
        rfl

/-- Reading a list fails as the first of its members does that fails. -/
theorem mapM_eq_error_iff {ε α β : Type} {g : α → Except ε β} {as : List α} {e : ε} :
    as.mapM g = .error e ↔ ∃ before a after, as = before ++ a :: after ∧
      (∀ b ∈ before, ∃ c, g b = .ok c) ∧ g a = .error e := by
  induction as with
  | nil =>
      rw [List.mapM_nil]
      constructor
      · intro h
        cases h
      · intro ⟨before, a, after, hNil, _⟩
        cases before <;> cases hNil
  | cons a rest ih =>
      rw [List.mapM_cons, bind_eq_error_iff]
      constructor
      · rintro (hHead | ⟨b, hHead, hTail⟩)
        · exact ⟨[], a, rest, rfl, fun _ hMem => absurd hMem List.not_mem_nil, hHead⟩
        · rcases bind_eq_error_iff.1 hTail with hRest | ⟨_, _, hPure⟩
          · obtain ⟨before, c, after, rfl, hBefore, hError⟩ := ih.1 hRest
            exact ⟨a :: before, c, after, rfl,
              List.forall_mem_cons.2 ⟨⟨b, hHead⟩, hBefore⟩, hError⟩
          · cases hPure
      · intro ⟨before, c, after, hList, hBefore, hError⟩
        cases before with
        | nil =>
            obtain ⟨rfl, rfl⟩ := List.cons.inj hList
            exact .inl hError
        | cons d before =>
            obtain ⟨rfl, rfl⟩ := List.cons.inj hList
            obtain ⟨⟨b, hHead⟩, hRest⟩ := List.forall_mem_cons.1 hBefore
            have hTail := ih.2 ⟨before, c, after, rfl, hRest, hError⟩
            exact .inr ⟨b, hHead, bind_eq_error_iff.2 (.inl hTail)⟩

/-- What is in the list read was read from a member. -/
theorem exists_of_mem_mapM {ε α β : Type} {g : α → Except ε β} {as : List α} {bs : List β}
    (h : as.mapM g = .ok bs) {b : β} (hb : b ∈ bs) : ∃ a ∈ as, g a = .ok b := by
  have hRead := mapM_eq_ok_iff.1 h
  clear h
  induction hRead with
  | nil => cases hb
  | @cons a c as bs hHead _ ih =>
      rcases List.mem_cons.1 hb with rfl | hb
      · exact ⟨a, List.mem_cons_self, hHead⟩
      · obtain ⟨d, hd, hRead⟩ := ih hb
        exact ⟨d, List.mem_cons_of_mem a hd, hRead⟩

/-- Of two lists read member by member, one has a member with a property exactly
if the other has one. -/
theorem exists_mem_iff_of_forall₂ {α β : Type} {R : α → β → Prop} {P : α → Prop}
    {Q : β → Prop} (hPQ : ∀ a b, R a b → (Q b ↔ P a)) {as : List α} {bs : List β}
    (h : List.Forall₂ R as bs) : (∃ b ∈ bs, Q b) ↔ ∃ a ∈ as, P a := by
  induction h with
  | nil => simp
  | cons hHead _ ih => simp only [List.mem_cons, exists_eq_or_imp, ih, hPQ _ _ hHead]

/-! ## Canonical patterns -/

/-- Whether a value lies within the bounds of a field. -/
def Field.Allows (f : Field) (v : UInt8) : Prop := f.min ≤ v.toNat ∧ v.toNat ≤ f.max

instance (f : Field) (v : UInt8) : Decidable (f.Allows v) :=
  inferInstanceAs (Decidable (_ ∧ _))

namespace Pattern

/-- A pattern that an item of a field's text can stand for. -/
def IsItem (f : Field) : Pattern → Prop
  | all => True
  | value v => f.Allows v
  | range first last => f.Allows first ∧ f.Allows last ∧ first < last
  | step anchor interval =>
      f ≠ .dayOfWeek ∧ (∀ a ∈ anchor, f.Allows a) ∧ f.Allows interval ∧ interval ≠ 0
  | list _ => False

/-- A pattern that the text of a field can stand for.  Lists do not nest, and a
single item is no list. -/
def Canonical (f : Field) : Pattern → Prop
  | list items =>
      2 ≤ items.length ∧ (∀ p ∈ items, IsItem f p) ∧ Ascending.IsAscending listOrder items
  | p => IsItem f p

instance (f : Field) : (p : Pattern) → Decidable (IsItem f p)
  | all => inferInstanceAs (Decidable True)
  | value v => inferInstanceAs (Decidable (f.Allows v))
  | range first last =>
      inferInstanceAs (Decidable (f.Allows first ∧ f.Allows last ∧ first < last))
  | step anchor interval =>
      inferInstanceAs (Decidable (f ≠ .dayOfWeek ∧ (∀ a ∈ anchor, f.Allows a) ∧
        f.Allows interval ∧ interval ≠ 0))
  | list _ => inferInstanceAs (Decidable False)

instance (f : Field) : (p : Pattern) → Decidable (Canonical f p)
  | list items =>
      inferInstanceAs (Decidable (2 ≤ items.length ∧ (∀ p ∈ items, IsItem f p) ∧
        Ascending.IsAscending listOrder items))
  | all => inferInstanceAs (Decidable (IsItem f all))
  | value v => inferInstanceAs (Decidable (IsItem f (value v)))
  | range first last => inferInstanceAs (Decidable (IsItem f (range first last)))
  | step anchor interval => inferInstanceAs (Decidable (IsItem f (step anchor interval)))

theorem IsItem.canonical {f : Field} {p : Pattern} (h : IsItem f p) : Canonical f p := by
  cases p with
  | list items => exact h.elim
  | all => exact h
  | value v => exact h
  | range first last => exact h
  | step anchor interval => exact h

theorem IsItem.exists_item? {f : Field} {p : Pattern} (h : IsItem f p) :
    ∃ i, p.item? = some i := by
  cases p with
  | list items => exact h.elim
  | _ => exact ⟨_, rfl⟩

theorem Canonical.isItem_or_list {f : Field} {p : Pattern} (h : Canonical f p) :
    IsItem f p ∨ ∃ items, p = list items ∧ 2 ≤ items.length ∧
      (∀ q ∈ items, IsItem f q) ∧ Ascending.IsAscending listOrder items := by
  cases p with
  | list items => exact .inr ⟨items, rfl, h⟩
  | all => exact .inl h
  | value v => exact .inl h
  | range first last => exact .inl h
  | step anchor interval => exact .inl h

/-! ## Reading an item -/

theorem allows_of_narrow {f : Field} {n : Nat} {v : UInt8} (h : narrow f n = .ok v) :
    f.Allows v := by
  obtain ⟨hVal, hMin, hMax⟩ := toNat_of_narrow h
  rw [Field.Allows, hVal]
  exact ⟨hMin, hMax⟩

/-- An anchor that was read has the value that is written, within the bounds. -/
theorem anchor_of_mapM_narrow {f : Field} {anchor : Option Nat} {found : Option UInt8}
    (h : anchor.mapM (narrow f) = .ok found) :
    found.map UInt8.toNat = anchor ∧ ∀ a ∈ found, f.Allows a := by
  cases anchor with
  | none =>
      cases h
      exact ⟨rfl, fun _ hMem => absurd hMem (Option.not_mem_none _)⟩
  | some n =>
      obtain ⟨v, hNarrow, hFound⟩ := bind_eq_ok_iff.1 h
      cases hFound
      refine ⟨congrArg some (toNat_of_narrow hNarrow).1, fun a hMem => ?_⟩
      obtain rfl := Option.some.inj hMem
      exact allows_of_narrow hNarrow

/-- The pattern of an item stands for this item, with the numbers it has. -/
theorem item?_of_ofItem {f : Field} {item : Item} {p : Pattern}
    (hStep : ∀ anchor n, item = .step anchor n → f ≠ .dayOfWeek)
    (h : ofItem f item = .ok p) : p.item? = some item ∧ IsItem f p := by
  cases item with
  | all =>
      cases h
      exact ⟨rfl, trivial⟩
  | value n =>
      obtain ⟨v, hNarrow, hValue⟩ := bind_eq_ok_iff.1 h
      cases hValue
      rw [item?, (toNat_of_narrow hNarrow).1]
      exact ⟨rfl, allows_of_narrow hNarrow⟩
  | range a b =>
      obtain ⟨first, hFirst, hRest⟩ := bind_eq_ok_iff.1 h
      obtain ⟨last, hLast, hRange⟩ := bind_eq_ok_iff.1 hRest
      by_cases hLt : a < b
      · rw [if_pos hLt] at hRange
        cases hRange
        have hA := (toNat_of_narrow hFirst).1
        have hB := (toNat_of_narrow hLast).1
        rw [item?, hA, hB]
        refine ⟨rfl, allows_of_narrow hFirst, allows_of_narrow hLast, ?_⟩
        rw [UInt8.lt_iff_toNat_lt, hA, hB]
        exact hLt
      · rw [if_neg hLt] at hRange
        cases hRange
  | step anchor n =>
      obtain ⟨start, hStart, hRest⟩ := bind_eq_ok_iff.1 h
      obtain ⟨interval, hInterval, hPattern⟩ := bind_eq_ok_iff.1 hRest
      by_cases hZero : n = 0
      · rw [if_pos hZero] at hPattern
        cases hPattern
      · rw [if_neg hZero] at hPattern
        cases hPattern
        obtain ⟨hAnchor, hAllows⟩ := anchor_of_mapM_narrow hStart
        have hN := (toNat_of_narrow hInterval).1
        rw [item?, hAnchor, hN]
        refine ⟨rfl, hStep anchor n rfl, hAllows, allows_of_narrow hInterval, ?_⟩
        rintro rfl
        exact hZero hN.symm

/-- A text that is read as a step is one by its separators as well. -/
theorem isStepLike_of_read? {cs : List Char} {anchor : Option Nat} {n : Nat}
    (h : Item.read? cs = some (.step anchor n)) : Item.isStepLike cs := by
  obtain ⟨j, hSpells, hItem⟩ := Item.read?_eq_some_iff.1 h
  cases j with
  | step _ _ => exact Item.isStepLike_of_step hSpells
  | _ => cases hItem

/-- A text that is read is read as the item that its pattern stands for. -/
theorem item?_of_parseItem {f : Field} {cs : List Char} {p : Pattern}
    (h : parseItem f cs = .ok p) : p.item? = Item.read? cs ∧ IsItem f p := by
  rw [parseItem] at h
  by_cases hSteps : f = .dayOfWeek ∧ Item.isStepLike cs
  · rw [if_pos hSteps] at h
    cases h
  · rw [if_neg hSteps] at h
    cases hRead : Item.read? cs with
    | none =>
        rw [hRead] at h
        cases h
    | some item =>
        rw [hRead] at h
        refine item?_of_ofItem ?_ h
        intro anchor n hItem hField
        rw [hItem] at hRead
        exact hSteps ⟨hField, isStepLike_of_read? hRead⟩

/-- A text that is read spells one item only.  The numbers of the pattern suit the
field, so none of those that are written was cut off. -/
theorem spells_iff_of_parseItem {f : Field} {cs : List Char} {p : Pattern}
    (h : parseItem f cs = .ok p) :
    ∃ i, p.item? = some i ∧ IsItem f p ∧ ∀ j, Item.Spells cs j ↔ j = i := by
  obtain ⟨hRead, hIsItem⟩ := item?_of_parseItem h
  obtain ⟨i, hItem⟩ := hIsItem.exists_item?
  rw [hItem] at hRead
  have hOne (j : Item) (hSpells : Item.Spells cs j) : j = i := by
    rw [Item.read?_of_spells hSpells, Option.some.injEq] at hRead
    exact (capped_eq_iff_of_item? hItem j).1 hRead.symm
  refine ⟨i, hItem, hIsItem, fun j => ⟨hOne j, fun hEq => ?_⟩⟩
  obtain ⟨k, hSpells, -⟩ := Item.read?_eq_some_iff.1 hRead.symm
  rw [hEq, ← hOne k hSpells]
  exact hSpells

/-! ## Reading a list -/

/-- Arranging items neither loses nor adds one. -/
theorem mem_arranged (p : Pattern) (items : List Pattern) :
    p ∈ Ascending.ofList listOrder items ↔ p ∈ items :=
  Ascending.mem_ofList (fun a b => (listOrder_eq_iff a b).1) p items

theorem canonical_ofItems {f : Field} {items : List Pattern} (hNe : items ≠ [])
    (hItems : ∀ p ∈ items, IsItem f p) : Canonical f (ofItems items) := by
  have hMem (p : Pattern) := mem_arranged p items
  have hAscending : Ascending.IsAscending listOrder (Ascending.ofList listOrder items) :=
    Ascending.isAscending_ofList items
  rw [ofItems]
  cases hList : Ascending.ofList listOrder items with
  | nil =>
      obtain ⟨p, hp⟩ := List.exists_mem_of_ne_nil items hNe
      rw [← hMem, hList] at hp
      cases hp
  | cons p rest =>
      rw [hList] at hMem hAscending
      cases rest with
      | nil => exact (hItems p ((hMem p).1 List.mem_cons_self)).canonical
      | cons q more =>
          refine ⟨?_, ?_, hAscending⟩
          · rw [List.length_cons, List.length_cons]
            omega
          · intro r hr
            exact hItems r ((hMem r).1 hr)

/-- What is read from the text of a field is canonical. -/
theorem canonical_of_parseChars {f : Field} {cs : List Char} {p : Pattern}
    (h : parseChars f cs = .ok p) : Canonical f p := by
  obtain ⟨items, hItems, hPattern⟩ := bind_eq_ok_iff.1 h
  cases hPattern
  have hRead := mapM_eq_ok_iff.1 hItems
  apply canonical_ofItems
  · intro hNil
    rw [hNil, List.forall₂_nil_right_iff] at hRead
    exact Text.pieces_ne_nil _ _ hRead
  · intro q hq
    obtain ⟨piece, _, hPiece⟩ := exists_of_mem_mapM hItems hq
    exact (item?_of_parseItem hPiece).2

example : Canonical .hour (list [step none 6, range 5 9, value 22]) := by decide +kernel

example : ¬ Canonical .hour (list [value 22, value 5]) := by decide +kernel

end Pattern

/-! ## Schedules -/

/-- What an edit stores is canonical. -/
theorem Edit.canonical_of_pattern {e : Edit} {p : Pattern} (h : e.pattern = .ok p) :
    p.Canonical e.field := by
  rw [Edit.pattern] at h
  cases hText : e.text? with
  | some cs =>
      rw [hText] at h
      exact Pattern.canonical_of_parseChars h
  | none =>
      rw [hText] at h
      cases h
      trivial

namespace Schedule

theorem ofFields_eq_ok_iff {minute hour dayOfMonth month dayOfWeek : String} {s : Schedule} :
    ofFields minute hour dayOfMonth month dayOfWeek = .ok s ↔
      Pattern.parse .minute minute = .ok s.minute ∧
      Pattern.parse .hour hour = .ok s.hour ∧
      Pattern.parse .dayOfMonth dayOfMonth = .ok s.dayOfMonth ∧
      Pattern.parse .month month = .ok s.month ∧
      Pattern.parse .dayOfWeek dayOfWeek = .ok s.dayOfWeek := by
  constructor
  · intro h
    obtain ⟨a, hMinute, h⟩ := bind_eq_ok_iff.1 h
    obtain ⟨b, hHour, h⟩ := bind_eq_ok_iff.1 h
    obtain ⟨c, hDay, h⟩ := bind_eq_ok_iff.1 h
    obtain ⟨d, hMonth, h⟩ := bind_eq_ok_iff.1 h
    obtain ⟨e, hWeekday, h⟩ := bind_eq_ok_iff.1 h
    cases h
    exact ⟨hMinute, hHour, hDay, hMonth, hWeekday⟩
  · intro ⟨hMinute, hHour, hDay, hMonth, hWeekday⟩
    rw [ofFields, hMinute, hHour, hDay, hMonth, hWeekday]
    rfl

/-- The patterns of a schedule read from fields were read from their texts. -/
theorem exists_parse_of_ofFields {minute hour dayOfMonth month dayOfWeek : String}
    {s : Schedule} (h : ofFields minute hour dayOfMonth month dayOfWeek = .ok s) (f : Field) :
    ∃ text, Pattern.parse f text = .ok (s.field f) := by
  obtain ⟨hMinute, hHour, hDay, hMonth, hWeekday⟩ := ofFields_eq_ok_iff.1 h
  cases f with
  | minute => exact ⟨minute, hMinute⟩
  | hour => exact ⟨hour, hHour⟩
  | dayOfMonth => exact ⟨dayOfMonth, hDay⟩
  | month => exact ⟨month, hMonth⟩
  | dayOfWeek => exact ⟨dayOfWeek, hWeekday⟩

/-- An expression that is read is read as its five fields. -/
theorem exists_ofFields_of_parse {expression : String} {s : Schedule}
    (h : parse expression = .ok s) :
    ∃ minute hour dayOfMonth month dayOfWeek,
      fieldTexts expression = [minute, hour, dayOfMonth, month, dayOfWeek] ∧
      ofFields minute hour dayOfMonth month dayOfWeek = .ok s := by
  rw [parse] at h
  split at h
  · rename_i minute hour dayOfMonth month dayOfWeek hTexts
    exact ⟨minute, hour, dayOfMonth, month, dayOfWeek, hTexts, h⟩
  · cases h

/-- The schedules that a program can come by. -/
inductive Reachable : Schedule → Prop where
  | default : Reachable {}
  | parse {expression : String} {s : Schedule} (h : Schedule.parse expression = .ok s) :
      Reachable s
  | ofFields {minute hour dayOfMonth month dayOfWeek : String} {s : Schedule}
      (h : Schedule.ofFields minute hour dayOfMonth month dayOfWeek = .ok s) : Reachable s
  | read {datum : Interchange.Datum} {s : Schedule} (h : Interchange.read datum = .ok s) :
      Reachable s
  /-- An edit that fails counts as well; it leaves the schedule as it is. -/
  | run {s : Schedule} (e : Edit) (h : Reachable s) : Reachable (s.run e)

theorem canonical_of_ofFields {minute hour dayOfMonth month dayOfWeek : String} {s : Schedule}
    (h : ofFields minute hour dayOfMonth month dayOfWeek = .ok s) (f : Field) :
    (s.field f).Canonical f := by
  obtain ⟨text, hText⟩ := exists_parse_of_ofFields h f
  exact Pattern.canonical_of_parseChars hText

theorem canonical_of_parse {expression : String} {s : Schedule}
    (h : parse expression = .ok s) (f : Field) : (s.field f).Canonical f := by
  obtain ⟨_, _, _, _, _, _, hFields⟩ := exists_ofFields_of_parse h
  exact canonical_of_ofFields hFields f

/-- A schedule is only read from a string, as an expression. -/
theorem parse_of_read {datum : Interchange.Datum} {s : Schedule}
    (h : Interchange.read datum = .ok s) :
    ∃ expression, datum = .string expression ∧ parse expression = .ok s := by
  cases datum with
  | string expression =>
      refine ⟨expression, rfl, ?_⟩
      cases hParse : parse expression with
      | error err =>
          rw [Interchange.read, hParse] at h
          cases h
      | ok t =>
          rw [Interchange.read, hParse] at h
          exact congrArg Except.ok (Except.ok.inj h)
  | _ => cases h

/-- One edit keeps the fields canonical: the edited one is read anew, the others
stay. -/
theorem canonical_run {s : Schedule} (h : ∀ f, (s.field f).Canonical f) (e : Edit)
    (f : Field) : ((s.run e).field f).Canonical f := by
  by_cases hField : f = e.field
  · cases hPattern : e.pattern with
    | error err =>
        rw [run_of_error hPattern]
        exact h f
    | ok p =>
        rw [run_of_ok hPattern, hField, field_put_self]
        exact Edit.canonical_of_pattern hPattern
  · rw [field_run_of_ne s e hField]
    exact h f

/-- Every field of a reachable schedule is canonical. -/
theorem Reachable.canonical {s : Schedule} (h : s.Reachable) (f : Field) :
    (s.field f).Canonical f := by
  induction h generalizing f with
  | default => cases f <;> trivial
  | parse hParse => exact canonical_of_parse hParse f
  | ofFields hFields => exact canonical_of_ofFields hFields f
  | read hRead =>
      obtain ⟨_, _, hParse⟩ := parse_of_read hRead
      exact canonical_of_parse hParse f
  | run e _ ih => exact canonical_run ih e f

end Schedule

end Cron
