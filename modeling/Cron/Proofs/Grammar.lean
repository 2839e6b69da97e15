import Cron.Item
import Cron.Pattern.Basic
import Cron.Proofs.Decimal
import Cron.Proofs.Split

/-!
# The grammar of items

The reader of items cuts a text at its first dash or slash and then looks at
the parts.  What it accepts can be said without cutting: a text spells an item
if it is put together from numerals and separators in one of five ways
(`Spells`).  The two agree since a numeral holds no separator, so that the
first dash or slash is the one that was put in.

Cutting also tells which parts of a text have to be numerals, whether they are or
not (`Demands`).  A text spells an item exactly if all of these are numerals,
and it is read as an item under the same condition.

Numbers come in any length here, while the reader cuts them off at a ceiling.
So what is read is the item spelled with its numbers cut off (`capped`).  The
numbers of a pattern are bytes, far below the ceiling: its text is read as the
item that it stands for (`Pattern.item?`).

## Main results

* `Item.exists_spells_of_demands`, `Item.exists_isNumeral_of_demands` — the parts
  that have to be numerals decide.
* `Item.read?_eq_some_iff` — what is read are the items spelled, with their
  numbers cut off at the ceiling.
* `Pattern.spells_chars` — the text of a pattern that is no list spells its item.
-/

namespace Cron

open Text

namespace Item

/-! ## Spelling -/

/-- The text of an item, whatever its numbers are and whatever field it is in. -/
inductive Spells : List Char → Item → Prop where
  | all : Spells ['*'] .all
  | value {cs : List Char} {n : Nat} (h : Decimal.IsNumeral cs n) : Spells cs (.value n)
  | range {first last : List Char} {a b : Nat} (hFirst : Decimal.IsNumeral first a)
      (hLast : Decimal.IsNumeral last b) : Spells (first ++ '-' :: last) (.range a b)
  | stepFromZero {interval : List Char} {n : Nat} (hInterval : Decimal.IsNumeral interval n) :
      Spells ('*' :: '/' :: interval) (.step none n)
  | stepFrom {anchor interval : List Char} {a n : Nat} (hAnchor : Decimal.IsNumeral anchor a)
      (hInterval : Decimal.IsNumeral interval n) :
      Spells (anchor ++ '/' :: interval) (.step (some a) n)

/-- The item with its numbers cut off at the ceiling of reading. -/
def capped : Item → Item
  | .all => .all
  | .value n => .value (min n Decimal.ceiling)
  | .range a b => .range (min a Decimal.ceiling) (min b Decimal.ceiling)
  | .step anchor n =>
      .step (anchor.map fun a => min a Decimal.ceiling) (min n Decimal.ceiling)

/-! ## What is spelled is read -/

theorem isStepLike_iff {cs : List Char} : isStepLike cs = true ↔ '-' ∉ cs ∧ '/' ∈ cs := by
  rw [isStepLike, Bool.and_eq_true, Option.isNone_iff_eq_none, cut?_eq_none_iff,
    Option.isSome_iff_ne_none, ne_eq, cut?_eq_none_iff, Decidable.not_not]

/-- The interval of a step brings no dash with it. -/
private theorem dash_not_mem_step {cs interval : List Char} {n : Nat} (hDash : '-' ∉ cs)
    (hInterval : Decimal.IsNumeral interval n) : '-' ∉ cs ++ '/' :: interval := by
  rw [List.mem_append, List.mem_cons]
  rintro (hMem | hMem | hMem)
  · exact hDash hMem
  · exact absurd hMem (by decide)
  · exact hInterval.not_mem rfl hMem

/-- The text of a step is one by its separators. -/
theorem isStepLike_of_step {cs : List Char} {anchor : Option Nat} {n : Nat}
    (h : Spells cs (.step anchor n)) : isStepLike cs = true := by
  rw [isStepLike_iff]
  cases h with
  | stepFromZero hInterval =>
      have hDash : '-' ∉ star := by decide
      exact ⟨dash_not_mem_step hDash hInterval, List.mem_cons_of_mem _ List.mem_cons_self⟩
  | stepFrom hAnchor hInterval =>
      exact ⟨dash_not_mem_step (hAnchor.not_mem rfl) hInterval,
        List.mem_append_right _ List.mem_cons_self⟩

theorem ne_star_of_isNumeral {cs : List Char} {n : Nat} (h : Decimal.IsNumeral cs n) :
    cs ≠ star := by
  rintro rfl
  exact h.not_mem (c := '*') rfl List.mem_cons_self

/-- A text with a dash or a slash is more than a star. -/
private theorem append_ne_star {before after : List Char} {sep : Char} (h : sep ≠ '*') :
    before ++ sep :: after ≠ star := by
  intro hEq
  have hMem : sep ∈ star := hEq ▸ List.mem_append_right before List.mem_cons_self
  exact h (List.mem_singleton.1 hMem)

private theorem read?_of_isNumeral {cs : List Char} {n : Nat} (h : Decimal.IsNumeral cs n) :
    Decimal.read? cs = some (min n Decimal.ceiling) :=
  Decimal.read?_eq_some_iff.2 ⟨n, h, rfl⟩

/-- The first dash makes a range. -/
theorem read?_dash {first : List Char} (h : '-' ∉ first) (last : List Char) :
    read? (first ++ '-' :: last) =
      (Decimal.read? first).bind fun a => (Decimal.read? last).bind fun b =>
        some (.range a b) := by
  rw [read?, if_neg (append_ne_star (by decide)), cut?_append h]
  rfl

/-- Without a dash, the first slash makes a step. -/
theorem read?_slash {anchor interval : List Char} (hDash : '-' ∉ anchor ++ '/' :: interval)
    (hSlash : '/' ∉ anchor) :
    read? (anchor ++ '/' :: interval) =
      (readAnchor? anchor).bind fun a => (Decimal.read? interval).bind fun n =>
        some (.step a n) := by
  rw [read?, if_neg (append_ne_star (by decide)), (cut?_eq_none_iff '-' _).2 hDash,
    cut?_append hSlash]
  rfl

theorem read?_plain {cs : List Char} (hDash : '-' ∉ cs) (hSlash : '/' ∉ cs) (hStar : cs ≠ star) :
    read? cs = (Decimal.read? cs).map .value := by
  rw [read?, if_neg hStar, (cut?_eq_none_iff '-' cs).2 hDash,
    (cut?_eq_none_iff '/' cs).2 hSlash]

/-- A step is read from its anchor and its interval. -/
theorem read?_step {cs interval : List Char} {anchor : Option Nat} {n : Nat}
    (hDash : '-' ∉ cs) (hSlash : '/' ∉ cs) (hAnchor : readAnchor? cs = some anchor)
    (hInterval : Decimal.IsNumeral interval n) :
    read? (cs ++ '/' :: interval) = some (.step anchor (min n Decimal.ceiling)) := by
  rw [read?_slash (dash_not_mem_step hDash hInterval) hSlash, hAnchor,
    read?_of_isNumeral hInterval]
  rfl

theorem read?_of_spells {cs : List Char} {i : Item} (h : Spells cs i) :
    read? cs = some i.capped := by
  cases h with
  | all => exact read?_star
  | value h =>
      rw [read?_plain (h.not_mem rfl) (h.not_mem rfl) (ne_star_of_isNumeral h),
        read?_of_isNumeral h]
      rfl
  | range hFirst hLast =>
      rw [read?_dash (hFirst.not_mem rfl), read?_of_isNumeral hFirst, read?_of_isNumeral hLast]
      rfl
  | stepFromZero hInterval =>
      have hStar : readAnchor? star = some none := if_pos rfl
      exact read?_step (by decide) (by decide) hStar hInterval
  | stepFrom hAnchor hInterval =>
      refine read?_step (hAnchor.not_mem rfl) (hAnchor.not_mem rfl) ?_ hInterval
      rw [readAnchor?, if_neg (ne_star_of_isNumeral hAnchor), read?_of_isNumeral hAnchor]
      rfl

/-! ## What is read is spelled -/

/-- The parts of a text that have to be numbers for it to be an item, from left to
right: what is on the two sides of its first dash; without a dash, what is on the
two sides of its first slash, a star before it apart; the whole text otherwise. -/
inductive Demands : List Char → List (List Char) → Prop where
  | all : Demands star []
  | range {first last : List Char} (hFirst : '-' ∉ first) :
      Demands (first ++ '-' :: last) [first, last]
  | stepFromZero {interval : List Char} (hDash : '-' ∉ interval) :
      Demands ('*' :: '/' :: interval) [interval]
  | stepFrom {anchor interval : List Char} (hDash : '-' ∉ anchor ++ '/' :: interval)
      (hSlash : '/' ∉ anchor) (hStar : anchor ≠ star) :
      Demands (anchor ++ '/' :: interval) [anchor, interval]
  | value {cs : List Char} (hDash : '-' ∉ cs) (hSlash : '/' ∉ cs) (hStar : cs ≠ star) :
      Demands cs [cs]

theorem exists_demands (cs : List Char) : ∃ parts, Demands cs parts := by
  by_cases hStar : cs = star
  · exact ⟨[], hStar ▸ .all⟩
  · cases hCut : cut? '-' cs with
    | some parts =>
        obtain ⟨rfl, hFirst⟩ := cut?_eq_some hCut
        exact ⟨_, .range hFirst⟩
    | none =>
        have hDash := (cut?_eq_none_iff '-' cs).1 hCut
        cases hSlash : cut? '/' cs with
        | none => exact ⟨_, .value hDash ((cut?_eq_none_iff '/' cs).1 hSlash) hStar⟩
        | some parts =>
            obtain ⟨rfl, hAnchor⟩ := cut?_eq_some hSlash
            by_cases hZero : parts.1 = star
            · rw [hZero] at hDash ⊢
              have hInterval : '-' ∉ parts.2 := fun hMem =>
                hDash (List.mem_append_right _ (List.mem_cons_of_mem _ hMem))
              exact ⟨_, .stepFromZero hInterval⟩
            · exact ⟨_, .stepFrom hDash hAnchor hZero⟩

/-- If all of them are numbers, the text spells an item. -/
theorem exists_spells_of_demands {cs : List Char} {parts : List (List Char)}
    (h : Demands cs parts) (hNumerals : ∀ part ∈ parts, ∃ n, Decimal.IsNumeral part n) :
    ∃ i, Spells cs i := by
  cases h with
  | all => exact ⟨_, .all⟩
  | range _ =>
      obtain ⟨a, hFirst⟩ := hNumerals _ List.mem_cons_self
      obtain ⟨b, hLast⟩ := hNumerals _ (List.mem_cons_of_mem _ List.mem_cons_self)
      exact ⟨_, .range hFirst hLast⟩
  | stepFromZero _ =>
      obtain ⟨n, hInterval⟩ := hNumerals _ List.mem_cons_self
      exact ⟨_, .stepFromZero hInterval⟩
  | stepFrom _ _ _ =>
      obtain ⟨a, hAnchor⟩ := hNumerals _ List.mem_cons_self
      obtain ⟨n, hInterval⟩ := hNumerals _ (List.mem_cons_of_mem _ List.mem_cons_self)
      exact ⟨_, .stepFrom hAnchor hInterval⟩
  | value _ _ _ =>
      obtain ⟨n, hNumeral⟩ := hNumerals _ List.mem_cons_self
      exact ⟨_, .value hNumeral⟩

/-- A number that is read was a number. -/
private theorem exists_isNumeral_of_read? {cs : List Char} {n : Nat}
    (h : Decimal.read? cs = some n) : ∃ k, Decimal.IsNumeral cs k := by
  obtain ⟨k, hNumeral, -⟩ := Decimal.read?_eq_some_iff.1 h
  exact ⟨k, hNumeral⟩

/-- And if the text is read as an item, all of them are numbers. -/
theorem exists_isNumeral_of_demands {cs : List Char} {parts : List (List Char)} {i : Item}
    (h : Demands cs parts) (hRead : read? cs = some i) :
    ∀ part ∈ parts, ∃ n, Decimal.IsNumeral part n := by
  cases h with
  | all => exact fun part hMem => absurd hMem List.not_mem_nil
  | range hFirst =>
      rw [read?_dash hFirst] at hRead
      obtain ⟨a, hA, hRest⟩ := Option.bind_eq_some_iff.1 hRead
      obtain ⟨b, hB, -⟩ := Option.bind_eq_some_iff.1 hRest
      simp [exists_isNumeral_of_read? hA, exists_isNumeral_of_read? hB]
  | @stepFromZero interval hDash =>
      have hNone : '-' ∉ star ++ '/' :: interval := by simp [star, hDash]
      change read? (star ++ '/' :: interval) = some i at hRead
      rw [read?_slash hNone (by decide)] at hRead
      obtain ⟨a, -, hRest⟩ := Option.bind_eq_some_iff.1 hRead
      obtain ⟨n, hN, -⟩ := Option.bind_eq_some_iff.1 hRest
      simp [exists_isNumeral_of_read? hN]
  | stepFrom hDash hSlash hStar =>
      rw [read?_slash hDash hSlash, readAnchor?, if_neg hStar] at hRead
      obtain ⟨a, hAnchor, hRest⟩ := Option.bind_eq_some_iff.1 hRead
      obtain ⟨k, hA, -⟩ := Option.map_eq_some_iff.1 hAnchor
      obtain ⟨n, hN, -⟩ := Option.bind_eq_some_iff.1 hRest
      simp [exists_isNumeral_of_read? hA, exists_isNumeral_of_read? hN]
  | value hDash hSlash hStar =>
      rw [read?_plain hDash hSlash hStar] at hRead
      obtain ⟨n, hN, -⟩ := Option.map_eq_some_iff.1 hRead
      simp [exists_isNumeral_of_read? hN]

theorem exists_spells_of_read? {cs : List Char} {i : Item} (h : read? cs = some i) :
    ∃ j, Spells cs j ∧ i = j.capped := by
  obtain ⟨parts, hParts⟩ := exists_demands cs
  obtain ⟨j, hSpells⟩ := exists_spells_of_demands hParts (exists_isNumeral_of_demands hParts h)
  rw [read?_of_spells hSpells] at h
  exact ⟨j, hSpells, (Option.some.inj h).symm⟩

theorem read?_eq_some_iff {cs : List Char} {i : Item} :
    read? cs = some i ↔ ∃ j, Spells cs j ∧ i = j.capped := by
  constructor
  · exact exists_spells_of_read?
  · rintro ⟨j, hSpells, rfl⟩
    exact read?_of_spells hSpells

end Item

/-! ## The items of patterns -/

namespace Pattern

/-- The item that a pattern stands for; a list stands for none. -/
def item? : Pattern → Option Item
  | all => some .all
  | value v => some (.value v.toNat)
  | range first last => some (.range first.toNat last.toNat)
  | step anchor interval => some (.step (anchor.map UInt8.toNat) interval.toNat)
  | list _ => none

theorem spells_chars {p : Pattern} {i : Item} (h : p.item? = some i) :
    Item.Spells p.chars i := by
  have hNumeral (v : UInt8) := Decimal.isNumeral_write v.toNat
  cases p with
  | all =>
      cases h
      exact .all
  | value v =>
      cases h
      exact .value (hNumeral v)
  | range first last =>
      cases h
      exact .range (hNumeral first) (hNumeral last)
  | step anchor interval =>
      cases h
      cases anchor with
      | none => exact .stepFromZero (hNumeral interval)
      | some a => exact .stepFrom (hNumeral a) (hNumeral interval)
  | list items => cases h

/-- Bytes are not cut off, and a number that is cut off is no byte. -/
theorem capped_eq_iff_of_item? {p : Pattern} {i : Item} (h : p.item? = some i) (j : Item) :
    j.capped = i ↔ j = i := by
  have hByte (n : Nat) (v : UInt8) : min n Decimal.ceiling = v.toNat ↔ n = v.toNat := by
    have hLt := v.toNat_lt
    rw [Decimal.ceiling]
    omega
  have hAnchor (anchor : Option Nat) (a : Option UInt8) :
      anchor.map (fun n => min n Decimal.ceiling) = a.map UInt8.toNat ↔
        anchor = a.map UInt8.toNat := by
    cases anchor <;> cases a <;> simp [hByte]
  cases p with
  | all =>
      cases h
      cases j <;> simp [Item.capped]
  | value v =>
      cases h
      cases j <;> simp [Item.capped, hByte]
  | range first last =>
      cases h
      cases j <;> simp [Item.capped, hByte]
  | step anchor interval =>
      cases h
      cases j <;> simp [Item.capped, hByte, hAnchor]
  | list items => cases h

end Pattern

end Cron
