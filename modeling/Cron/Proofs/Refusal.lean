import Cron.Proofs.Acceptance

/-!
# Why a text is refused

A text can be wrong in several ways at once: several of its items may be wrong,
and one item may have a step where none is allowed, parts that are no numbers,
numbers out of bounds, a range that does not ascend and an interval of zero.
One error is reported, and which one is decided by a fixed precedence: the
leftmost wrong item, and for this item the kinds of faults in the order above.

The precedence is stated without the reader (`Item.Refuses`), with one
constructor for each kind of fault.  Form comes before bounds: to say which
parts of an item have to be numbers, it is cut at its first dash, or at its
first slash if it has no dash (`Item.Demands`).  A part that is no number is
reported even if another number of the item is out of bounds.

Every item suits the field or is refused (`Item.suits_or_refuses`), and what is
refused is answered with the error of the refusal.  As a text is answered in one
way only, the two together say that the reader answers with an error exactly if
this is the error of its refusal.

## Main results

* `Pattern.parseItem_eq_error_iff` — the error of a single item.
* `Pattern.parse_refuses_leftmost` — the error of a text, the field that it names
  and its kind.
-/

namespace Cron

open Text

/-- The field that an error is about. -/
def Error.field? : Error → Option Field
  | .malformed f _ | .outOfRange f _ _ _ | .emptyRange f _ _ | .zeroInterval f _
  | .stepUnsupported f => some f
  | .fieldCount _ | .noSuchDay _ _ _ | .noUpcoming _ _ => none

namespace Item

/-! ## The precedence of faults -/

/-- The numbers of an item, from left to right. -/
def numbers : Item → List Nat
  | .all => []
  | .value n => [n]
  | .range a b => [a, b]
  | .step anchor n => anchor.toList ++ [n]

/-- The text has the separators of a step, and the field has no steps. -/
def IsForbiddenStep (f : Field) (cs : List Char) : Prop :=
  f = .dayOfWeek ∧ '-' ∉ cs ∧ '/' ∈ cs

/-- A part that has to be a number is none. -/
def IsMalformed (cs : List Char) : Prop :=
  ∃ parts, Demands cs parts ∧ ∃ part ∈ parts, ∀ n, ¬ Decimal.IsNumeral part n

/-- A field refuses a text as an item, with an error.  Each kind of fault supposes
that the text has none of the kinds before it. -/
inductive Refuses (f : Field) (cs : List Char) : Error → Prop where
  /-- Whatever else is wrong. -/
  | step (hStep : IsForbiddenStep f cs) : Refuses f cs (.stepUnsupported f)
  /-- The whole text is reported, even if another number is out of bounds. -/
  | form (hStep : ¬ IsForbiddenStep f cs) (hForm : IsMalformed cs) :
      Refuses f cs (.malformed f (String.ofList cs))
  /-- The first number out of bounds is reported, cut off at the ceiling. -/
  | bounds {i : Item} {n : Nat} (hStep : ¬ IsForbiddenStep f cs) (hSpells : Spells cs i)
      (hFirst : i.numbers.find? (fun k => ¬ f.Covers k) = some n) :
      Refuses f cs (.outOfRange f (min n Decimal.ceiling) f.min f.max)
  | order {a b : Nat} (hSpells : Spells cs (.range a b)) (hA : f.Covers a) (hB : f.Covers b)
      (hLe : b ≤ a) : Refuses f cs (.emptyRange f a b)
  | interval {anchor : Option Nat} (hStep : ¬ IsForbiddenStep f cs)
      (hSpells : Spells cs (.step anchor 0)) (hAnchor : ∀ a ∈ anchor, f.Covers a)
      (hZero : f.Covers 0) : Refuses f cs (.zeroInterval f 0)

theorem not_isMalformed_of_read? {cs : List Char} {i : Item} (h : read? cs = some i) :
    ¬ IsMalformed cs := by
  intro ⟨parts, hParts, part, hPart, hNone⟩
  obtain ⟨n, hNumeral⟩ := exists_isNumeral_of_demands hParts h part hPart
  exact hNone n hNumeral

theorem not_isMalformed_of_spells {cs : List Char} {i : Item} (h : Spells cs i) :
    ¬ IsMalformed cs := not_isMalformed_of_read? (read?_of_spells h)

/-- What is not malformed spells an item. -/
theorem exists_spells_of_not_isMalformed {cs : List Char} (h : ¬ IsMalformed cs) :
    ∃ i, Spells cs i := by
  obtain ⟨parts, hParts⟩ := exists_demands cs
  refine exists_spells_of_demands hParts fun part hPart => ?_
  by_contra hNone
  exact h ⟨parts, hParts, part, hPart, not_exists.1 hNone⟩

theorem isForbiddenStep_of_spells {f : Field} {cs : List Char} {anchor : Option Nat} {n : Nat}
    (h : Spells cs (.step anchor n)) (hField : f = .dayOfWeek) : IsForbiddenStep f cs :=
  ⟨hField, isStepLike_iff.1 (isStepLike_of_step h)⟩

/-- Every item suits the field or is refused. -/
theorem suits_or_refuses (f : Field) (cs : List Char) :
    (∃ i, Spells cs i ∧ i.Suits f) ∨ ∃ e, Refuses f cs e := by
  -- the kinds of faults in the order of the precedence, each without those before it
  by_cases hStep : IsForbiddenStep f cs
  · exact .inr ⟨_, .step hStep⟩
  by_cases hForm : IsMalformed cs
  · exact .inr ⟨_, .form hStep hForm⟩
  · obtain ⟨i, hSpells⟩ := exists_spells_of_not_isMalformed hForm
    cases hFirst : i.numbers.find? fun k => ¬ f.Covers k with
    | some n => exact .inr ⟨_, .bounds hStep hSpells hFirst⟩
    | none =>
        have hCovers : ∀ n ∈ i.numbers, f.Covers n := by simpa using hFirst
        cases i with
        | all => exact .inl ⟨_, hSpells, trivial⟩
        | value n => exact .inl ⟨_, hSpells, hCovers n List.mem_cons_self⟩
        | range a b =>
            have hA := hCovers a List.mem_cons_self
            have hB := hCovers b (List.mem_cons_of_mem a List.mem_cons_self)
            by_cases hLt : a < b
            · exact .inl ⟨_, hSpells, hA, hB, hLt⟩
            · exact .inr ⟨_, .order hSpells hA hB (Nat.le_of_not_lt hLt)⟩
        | step anchor n =>
            have hAnchor : ∀ a ∈ anchor, f.Covers a := fun a ha =>
              hCovers a (List.mem_append_left _ (Option.mem_toList.2 ha))
            have hInterval := hCovers n (List.mem_append_right _ List.mem_cons_self)
            have hField : f ≠ .dayOfWeek := fun hEq =>
              hStep (isForbiddenStep_of_spells hSpells hEq)
            -- where values start at one, an interval of zero was out of bounds already
            by_cases hZero : n = 0
            · rw [hZero] at hSpells hInterval
              exact .inr ⟨_, .interval hStep hSpells hAnchor hInterval⟩
            · exact .inl ⟨_, hSpells, hField, hAnchor, hInterval, Nat.pos_of_ne_zero hZero⟩

theorem not_isForbiddenStep_of_range {f : Field} {cs : List Char} {a b : Nat}
    (h : Spells cs (.range a b)) : ¬ IsForbiddenStep f cs := by
  intro hStep
  cases h
  exact hStep.2.1 (List.mem_append_right _ List.mem_cons_self)

/-- The field that a refusal names, and its kind: the precedence of faults is one of
kinds. -/
theorem Refuses.kind_iff {f : Field} {cs : List Char} {e : Error} (h : Refuses f cs e) :
    e.field? = some f ∧
    (e.kind = .unsupported ↔ IsForbiddenStep f cs) ∧
    (e.kind = .format ↔ ¬ IsForbiddenStep f cs ∧ IsMalformed cs) ∧
    (e.kind = .range ↔ ¬ IsForbiddenStep f cs ∧ ¬ IsMalformed cs) := by
  cases h with
  | step hStep => simp [Error.field?, Error.kind, hStep]
  | form hStep hForm => simp [Error.field?, Error.kind, hStep, hForm]
  | bounds hStep hSpells _ =>
      simp [Error.field?, Error.kind, hStep, not_isMalformed_of_spells hSpells]
  | order hSpells _ _ _ =>
      simp [Error.field?, Error.kind, not_isForbiddenStep_of_range hSpells,
        not_isMalformed_of_spells hSpells]
  | interval hStep hSpells _ _ =>
      simp [Error.field?, Error.kind, hStep, not_isMalformed_of_spells hSpells]

end Item

namespace Pattern

/-! ## The error of an item -/

theorem covers_min_iff (f : Field) (n : Nat) : f.Covers (min n Decimal.ceiling) ↔ f.Covers n := by
  have hMax := f.max_lt
  rw [Field.Covers, Field.Covers, Decimal.ceiling]
  omega

/-- A number that is cut off is out of bounds, as it was before. -/
theorem narrow_min_of_not_covers {f : Field} {n : Nat} (h : ¬ f.Covers n) :
    narrow f (min n Decimal.ceiling) =
      .error (.outOfRange f (min n Decimal.ceiling) f.min f.max) :=
  if_neg fun hCovers => h ((covers_min_iff f n).1 hCovers)

theorem narrow_min_of_covers {f : Field} {n : Nat} (h : f.Covers n) :
    narrow f (min n Decimal.ceiling) = .ok (UInt8.ofNat (min n Decimal.ceiling)) :=
  if_pos ((covers_min_iff f n).2 h)

/-- The numbers are looked at from left to right. -/
theorem ofItem_of_find? {f : Field} {i : Item} {n : Nat}
    (h : i.numbers.find? (fun k => ¬ f.Covers k) = some n) :
    ofItem f i.capped = .error (.outOfRange f (min n Decimal.ceiling) f.min f.max) := by
  cases i with
  | all => cases h
  | value m =>
      obtain ⟨hOut, rfl⟩ : ¬ f.Covers m ∧ m = n := by simpa [Item.numbers] using h
      rw [Item.capped, ofItem, narrow_min_of_not_covers hOut]
      rfl
  | range a b =>
      rw [Item.capped, ofItem]
      by_cases hA : f.Covers a
      · obtain ⟨hOut, rfl⟩ : ¬ f.Covers b ∧ b = n := by simpa [Item.numbers, hA] using h
        rw [narrow_min_of_covers hA, narrow_min_of_not_covers hOut]
        rfl
      · obtain rfl : a = n := by simpa [Item.numbers, hA] using h
        rw [narrow_min_of_not_covers hA]
        rfl
  | step anchor m =>
      rw [Item.capped, ofItem]
      cases anchor with
      | none =>
          obtain ⟨hOut, rfl⟩ : ¬ f.Covers m ∧ m = n := by simpa [Item.numbers] using h
          rw [narrow_min_of_not_covers hOut]
          rfl
      | some a =>
          rw [Option.map_some, Option.mapM_some]
          by_cases hA : f.Covers a
          · obtain ⟨hOut, rfl⟩ : ¬ f.Covers m ∧ m = n := by simpa [Item.numbers, hA] using h
            rw [narrow_min_of_covers hA, narrow_min_of_not_covers hOut]
            rfl
          · obtain rfl : a = n := by simpa [Item.numbers, hA] using h
            rw [narrow_min_of_not_covers hA]
            rfl

/-- Below the ceiling nothing is cut off. -/
theorem min_of_covers {f : Field} {n : Nat} (h : f.Covers n) : min n Decimal.ceiling = n := by
  have hMax := f.max_lt
  have hUpTo := h.2
  rw [Decimal.ceiling]
  omega

theorem ofItem_of_le {f : Field} {a b : Nat} (hA : f.Covers a) (hB : f.Covers b) (hLe : b ≤ a) :
    ofItem f (Item.range a b).capped = .error (.emptyRange f a b) := by
  rw [Item.capped, ofItem, narrow_min_of_covers hA, narrow_min_of_covers hB,
    min_of_covers hA, min_of_covers hB]
  exact if_neg (Nat.not_lt_of_le hLe)

theorem ofItem_of_zero {f : Field} {anchor : Option Nat} (hAnchor : ∀ a ∈ anchor, f.Covers a)
    (hZero : f.Covers 0) :
    ofItem f (Item.step anchor 0).capped = .error (.zeroInterval f 0) := by
  rw [Item.capped, ofItem, narrow_min_of_covers hZero]
  cases anchor with
  | none => rfl
  | some a =>
      rw [Option.map_some, Option.mapM_some, narrow_min_of_covers (hAnchor a rfl)]
      rfl

/-- What is refused is answered with the error of the refusal. -/
theorem parseItem_of_refuses {f : Field} {cs : List Char} {e : Error}
    (h : Item.Refuses f cs e) : parseItem f cs = .error e := by
  have hForm (hStep : ¬ Item.IsForbiddenStep f cs) {i : Item} (hSpells : Item.Spells cs i) :
      parseItem f cs = ofItem f i.capped := by
    refine parseItem_of_read? (fun hField => ?_) (Item.read?_of_spells hSpells)
    rw [← Bool.not_eq_true, Item.isStepLike_iff]
    exact fun hSeparators => hStep ⟨hField, hSeparators⟩
  cases h with
  | step hStep => exact if_pos ⟨hStep.1, Item.isStepLike_iff.2 hStep.2⟩
  | form hStep hMalformed =>
      have hRead : Item.read? cs = none := by
        rw [Option.eq_none_iff_forall_ne_some]
        exact fun i hRead => Item.not_isMalformed_of_read? hRead hMalformed
      have hNot : ¬ (f = .dayOfWeek ∧ Item.isStepLike cs = true) := by
        rw [Item.isStepLike_iff]
        exact hStep
      rw [parseItem, if_neg hNot, hRead]
  | bounds hStep hSpells hFirst => rw [hForm hStep hSpells, ofItem_of_find? hFirst]
  | order hSpells hA hB hLe =>
      rw [hForm (Item.not_isForbiddenStep_of_range hSpells) hSpells, ofItem_of_le hA hB hLe]
  | interval hStep hSpells hAnchor hZero =>
      rw [hForm hStep hSpells, ofItem_of_zero hAnchor hZero]

theorem parseItem_eq_error_iff {f : Field} {cs : List Char} {e : Error} :
    parseItem f cs = .error e ↔ Item.Refuses f cs e := by
  constructor
  · intro h
    rcases Item.suits_or_refuses f cs with hSuits | ⟨err, hRefuses⟩
    · obtain ⟨p, hRead⟩ := (exists_parseItem_iff f cs).2 hSuits
      rw [h] at hRead
      cases hRead
    · rw [parseItem_of_refuses hRefuses] at h
      rw [← Except.error.inj h]
      exact hRefuses
  · exact parseItem_of_refuses

/-! ## The error of a text -/

theorem parseChars_eq_error_iff {f : Field} {cs : List Char} {e : Error} :
    parseChars f cs = .error e ↔ (pieces (· == ',') cs).mapM (parseItem f) = .error e := by
  rw [parseChars, bind_eq_error_iff]
  constructor
  · rintro (h | ⟨_, _, hPure⟩)
    · exact h
    · cases hPure
  · exact .inl

/-- A text that a field cannot read is answered with the error of its leftmost item
that does not suit the field, as the precedence of faults decides it.  The error
names the field, and its kind goes by the same precedence. -/
theorem parse_refuses_leftmost (f : Field) (text : String) (e : Error) :
    (parse f text = .error e ↔
      ∃ before item after, IsSplit ',' text.toList (before ++ item :: after) ∧
        (∀ part ∈ before, ∃ i, Item.Spells part i ∧ i.Suits f) ∧ Item.Refuses f item e) ∧
    (∀ item, Item.Refuses f item e → e.field? = some f ∧
      (e.kind = .unsupported ↔ Item.IsForbiddenStep f item) ∧
      (e.kind = .format ↔ ¬ Item.IsForbiddenStep f item ∧ Item.IsMalformed item) ∧
      (e.kind = .range ↔ ¬ Item.IsForbiddenStep f item ∧ ¬ Item.IsMalformed item)) := by
  refine ⟨?_, fun item hRefuses => hRefuses.kind_iff⟩
  rw [parse, parseChars_eq_error_iff, mapM_eq_error_iff]
  simp only [exists_parseItem_iff, parseItem_eq_error_iff, isSplit_iff]

example : parse .dayOfWeek "1,x/y,9" = .error (.stepUnsupported .dayOfWeek) := by
  decide +kernel

example : parse .hour "5,99-x,24" = .error (.malformed .hour "99-x") := by decide +kernel

end Pattern

end Cron
