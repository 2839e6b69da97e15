import Cron.Proofs.Acceptance
import Cron.Proofs.LastWrite
import Cron.Proofs.Meaning

/-!
# Steps and ranges set by numbers

An edit that sets a step or a range by its numbers writes the text of an item and
reads it like any other text, except for a step of one, from zero or from one: it
goes to `*` without reading anything.  The two ways must not be told apart.  They
store different patterns, `*` and a step of one, but both match every number; and
the shortcut succeeds without a check, but only where the text would be read.

Such an edit stands for an item (`Edit.StandsFor`), and what the edit does follows
from the item alone: whether it succeeds, and what the field matches then.

The day of the week has no steps.  There the shortcut would succeed where the text
is refused, so the steps are about the other four fields.  These are the fields in
which such an edit has a name; the edits without one change nothing, or store the
`*` that the text does (`Schedule.run_of_not_named`).

## Main results

* `Edit.StandsFor.map_test`, `Edit.StandsFor.exists_pattern_iff`,
  `Edit.StandsFor.decides` — an edit against the item it stands for.
* `Edit.standsFor_everyNth`, `Edit.standsFor_everyNthFrom`, `Edit.standsFor_range` —
  the items of steps and ranges.
* `Schedule.numbers_agree_with_texts` — edits by numbers against edits by texts.
* `Schedule.exists_named_runAll` — edits by name lead to all schedules that edits
  lead to.
-/

namespace Cron

open Text

/-- The answers of a schedule's fields: for each field and each number, what testing
the number against the field gives. -/
def Schedule.answers (s : Schedule) (f : Field) : Nat → Except Pattern.Fault Bool :=
  (s.field f).test

theorem Schedule.answers_put (s : Schedule) (f : Field) (p : Pattern) :
    (s.put f p).answers = Function.update s.answers f p.test := by
  funext g
  by_cases hField : g = f
  · rw [hField, Function.update_self, answers, field_put_self]
  · rw [Function.update_of_ne hField, answers, field_put_of_ne s p hField, answers]

namespace Edit

open Pattern

/-- Two edits cannot be told apart by their answer, nor by what any field matches
after them: both fail with one error, or both succeed. -/
def Agree (e e' : Edit) (s : Schedule) : Prop :=
  (e.apply s).map Schedule.answers = (e'.apply s).map Schedule.answers

theorem map_answers_apply (e : Edit) (s : Schedule) :
    (e.apply s).map Schedule.answers =
      (e.pattern.map test).map fun answer => Function.update s.answers e.field answer := by
  rw [apply_eq]
  cases e.pattern with
  | error err => rfl
  | ok p => exact congrArg Except.ok (s.answers_put e.field p)

theorem agree_of_map_test {e e' : Edit} (hField : e.field = e'.field)
    (h : e.pattern.map test = e'.pattern.map test) (s : Schedule) : e.Agree e' s := by
  rw [Agree, map_answers_apply, map_answers_apply, h, hField]

/-! ## Edits that stand for an item -/

/-- The edit stands for an item with a given text: it reads this text, or it stores
`*` where the item suits the field and denotes every number. -/
structure StandsFor (e : Edit) (cs : List Char) (i : Item) : Prop where
  spells : Item.Spells cs i
  pattern : e.pattern = parseChars e.field cs ∨
    e.pattern = .ok all ∧ i.Suits e.field ∧ ∀ x, i.Denotes x

namespace StandsFor

variable {e : Edit} {cs : List Char} {i : Item}

theorem exists_pattern_iff (h : e.StandsFor cs i) :
    (∃ p, e.pattern = .ok p) ↔ i.Suits e.field := by
  rcases h.pattern with hText | ⟨hAll, hSuits, -⟩
  · rw [hText]
    exact exists_parseChars_iff_of_spells h.spells
  · exact iff_of_true ⟨all, hAll⟩ hSuits

/-- What is stored matches the numbers that the item denotes. -/
theorem decides (h : e.StandsFor cs i) {p : Pattern} (hPattern : e.pattern = .ok p) (x : Nat) :
    p.Decides x (i.Denotes x) := by
  rcases h.pattern with hText | ⟨hAll, -, hEvery⟩
  · rw [hText, parseChars_eq_ok_iff_of_spells h.spells] at hPattern
    exact decides_of_item? hPattern.1 hPattern.2 x
  · obtain rfl : all = p := Except.ok.inj (hAll.symm.trans hPattern)
    exact ⟨true, rfl, iff_of_true rfl (hEvery x)⟩

/-- Reading the text leads to the same error, or to a pattern that tests alike. -/
theorem map_test (h : e.StandsFor cs i) :
    e.pattern.map test = (parseChars e.field cs).map test := by
  rcases h.pattern with hText | ⟨hAll, hSuits, hEvery⟩
  · rw [hText]
  · obtain ⟨p, hRead⟩ := (exists_parseChars_iff_of_spells h.spells).2 hSuits
    have hItem := (parseChars_eq_ok_iff_of_spells h.spells).1 hRead
    rw [hAll, hRead]
    refine congrArg Except.ok (funext fun x => ?_)
    obtain ⟨b, hTest, hAnswer⟩ := decides_of_item? hItem.1 hItem.2 x
    rw [hTest, hAnswer.2 (hEvery x)]
    rfl

theorem agree_set {text : String} (h : e.StandsFor text.toList i) (s : Schedule) :
    e.Agree (set e.field text) s := by
  have hSame : e.pattern.map test = (set e.field text).pattern.map test := h.map_test
  exact agree_of_map_test (by rfl) hSame s

theorem exists_apply_iff (h : e.StandsFor cs i) (s : Schedule) :
    (∃ t, e.apply s = .ok t) ↔ i.Suits e.field := by
  rw [← h.exists_pattern_iff]
  simp [apply_eq, map_eq_ok_iff]

theorem decides_of_apply (h : e.StandsFor cs i) {s t : Schedule} (hStored : e.apply s = .ok t)
    (x : Nat) : (t.field e.field).Decides x (i.Denotes x) := by
  rw [apply_eq] at hStored
  obtain ⟨p, hPattern, rfl⟩ := map_eq_ok_iff.1 hStored
  rw [Schedule.field_put_self]
  exact h.decides hPattern x

end StandsFor

/-! ## The items of steps and ranges -/

/-- An interval of one suits every field that has steps. -/
theorem suits_step_one {f : Field} (hField : f ≠ .dayOfWeek) {anchor : Option Nat}
    (hAnchor : ∀ a ∈ anchor, a = 1) : (Item.step anchor 1).Suits f := by
  have hOne : f.Covers 1 := by cases f <;> decide
  refine ⟨hField, fun a hMem => ?_, hOne, Nat.le_refl 1⟩
  rw [hAnchor a hMem]
  exact hOne

theorem standsFor_everyNth {f : Field} (hField : f ≠ .dayOfWeek) (n : UInt32) :
    (everyNth f n).StandsFor ("*/" ++ Decimal.text n.toNat).toList (.step none n.toNat) := by
  have hText : ("*/" ++ Decimal.text n.toNat).toList = '*' :: '/' :: Decimal.write n.toNat := by
    simp [Decimal.text]
  rw [hText]
  refine ⟨.stepFromZero (Decimal.isNumeral_write n.toNat), ?_⟩
  by_cases hOne : n = 1
  · right
    rw [hOne]
    exact ⟨rfl, suits_step_one hField (by simp), fun x => Nat.one_dvd x⟩
  · left
    rw [Edit.pattern, text?, if_neg hOne]
    rfl

theorem standsFor_everyNthFrom {f : Field} (hField : f ≠ .dayOfWeek) (start n : UInt32) :
    (everyNthFrom f start n).StandsFor
      (Decimal.text start.toNat ++ "/" ++ Decimal.text n.toNat).toList
      (.step (some start.toNat) n.toNat) := by
  have hText : (Decimal.text start.toNat ++ "/" ++ Decimal.text n.toNat).toList =
      Decimal.write start.toNat ++ '/' :: Decimal.write n.toNat := by
    simp [Decimal.text]
  rw [hText]
  refine ⟨.stepFrom (Decimal.isNumeral_write start.toNat) (Decimal.isNumeral_write n.toNat), ?_⟩
  by_cases hOne : start = 1 ∧ n = 1
  · right
    rw [hOne.1, hOne.2]
    refine ⟨rfl, suits_step_one hField (by simp), fun x => ?_⟩
    exact (Nat.mod_one x).trans (Nat.mod_one 1).symm
  · left
    rw [Edit.pattern, text?, if_neg hOne]
    rfl

/-- Without its shortcuts an edit that sets a step of the day of the week is refused. -/
theorem pattern_of_isPeriodic {e : Edit} (h : e.IsPeriodic) (hField : e.field = .dayOfWeek) :
    e.pattern = .ok all ∨ e.pattern = .error (.stepUnsupported .dayOfWeek) := by
  have hRefused {cs : List Char} {anchor : Option Nat} {n : Nat}
      (hSpells : Item.Spells cs (.step anchor n)) :
      parseChars .dayOfWeek cs = .error (.stepUnsupported .dayOfWeek) := by
    rw [parseChars_of_comma_not_mem (comma_not_mem_of_spells hSpells), parseItem,
      if_pos ⟨rfl, Item.isStepLike_of_step hSpells⟩]
  cases e with
  | every f => exact .inl rfl
  | everyNth f n =>
      obtain rfl : f = .dayOfWeek := hField
      by_cases hOne : n = 1
      · rw [hOne]
        exact .inl rfl
      · right
        rw [Edit.pattern, text?, if_neg hOne]
        exact hRefused (.stepFromZero (Decimal.isNumeral_write n.toNat))
  | everyNthFrom f a n =>
      obtain rfl : f = .dayOfWeek := hField
      by_cases hOne : a = 1 ∧ n = 1
      · rw [hOne.1, hOne.2]
        exact .inl rfl
      · right
        rw [Edit.pattern, text?, if_neg hOne]
        exact hRefused (.stepFrom (Decimal.isNumeral_write a.toNat)
          (Decimal.isNumeral_write n.toNat))
  | set f text => exact h.elim
  | range f a b => exact h.elim
  | on f values => exact h.elim

/-- A range has no shortcut. -/
theorem standsFor_range (f : Field) (start last : UInt32) :
    (range f start last).StandsFor (Decimal.write start.toNat ++ '-' :: Decimal.write last.toNat)
      (.range start.toNat last.toNat) :=
  ⟨.range (Decimal.isNumeral_write start.toNat) (Decimal.isNumeral_write last.toNat), .inl rfl⟩

end Edit

namespace Schedule

open Pattern

/-- An edit that sets a step by its numbers agrees with the one that sets the text of
the step: they fail with the same error, or leave fields that match alike.  It succeeds
exactly if the step suits the field, and the field then matches the multiples of the
interval, or the numbers that leave the same remainder as the start.  A range is set
exactly if its ends ascend within the bounds of the field, and its numbers match. -/
theorem numbers_agree_with_texts (s : Schedule) (f : Field) (start last n : UInt32) :
    (f ≠ .dayOfWeek →
      ((Edit.everyNth f n).Agree (.set f ("*/" ++ Decimal.text n.toNat)) s ∧
        ((∃ t, (Edit.everyNth f n).apply s = .ok t) ↔ f.Covers n.toNat ∧ 1 ≤ n.toNat) ∧
        ∀ t, (Edit.everyNth f n).apply s = .ok t →
          ∀ x, (t.field f).Decides x (n.toNat ∣ x)) ∧
      ((Edit.everyNthFrom f start n).Agree
          (.set f (Decimal.text start.toNat ++ "/" ++ Decimal.text n.toNat)) s ∧
        ((∃ t, (Edit.everyNthFrom f start n).apply s = .ok t) ↔
          f.Covers start.toNat ∧ f.Covers n.toNat ∧ 1 ≤ n.toNat) ∧
        ∀ t, (Edit.everyNthFrom f start n).apply s = .ok t →
          ∀ x, (t.field f).Decides x (x % n.toNat = start.toNat % n.toNat))) ∧
    ((∃ t, (Edit.range f start last).apply s = .ok t) ↔
      f.min ≤ start.toNat ∧ start < last ∧ last.toNat ≤ f.max) ∧
    (∀ t, (Edit.range f start last).apply s = .ok t →
      ∀ x, (t.field f).Decides x (start.toNat ≤ x ∧ x ≤ last.toNat)) := by
  have hRange := Edit.standsFor_range f start last
  refine ⟨fun hField => ?_, ?_, fun t hStored => hRange.decides_of_apply hStored⟩
  · have hStep := Edit.standsFor_everyNth hField n
    have hStepFrom := Edit.standsFor_everyNthFrom hField start n
    refine ⟨⟨hStep.agree_set s, ?_, fun t hStored => hStep.decides_of_apply hStored⟩,
      hStepFrom.agree_set s, ?_, fun t hStored => hStepFrom.decides_of_apply hStored⟩
    · rw [hStep.exists_apply_iff]
      simp [Edit.field, Item.Suits, hField]
    · rw [hStepFrom.exists_apply_iff]
      simp [Edit.field, Item.Suits, hField]
  · rw [hRange.exists_apply_iff, UInt32.lt_iff_toNat_lt]
    simp only [Edit.field, Item.Suits, Field.Covers]
    omega

/-- The shortcut stores another pattern than the text, and the two match alike. -/
theorem month_steps_agree :
    Field.month ≠ .dayOfWeek ∧
    (Edit.everyNthFrom .month 1 1).pattern = .ok .all ∧
    (Edit.set .month "1/1").pattern = .ok (.step (some 1) 1) ∧
    (Edit.everyNthFrom .month 1 1).Agree (.set .month "1/1") {} := by
  have hField : Field.month ≠ .dayOfWeek := by decide
  have hText : Decimal.text (1 : UInt32).toNat ++ "/" ++ Decimal.text (1 : UInt32).toNat =
      "1/1" := by
    decide +kernel
  have hAgree := ((numbers_agree_with_texts {} .month 1 12 1).1 hField).2.1
  rw [hText] at hAgree
  exact ⟨hField, rfl, by decide +kernel, hAgree⟩

/-- Without the field having steps, the shortcut and the text would disagree. -/
example : (Edit.everyNth .dayOfWeek 1).pattern = .ok .all ∧
    (Edit.set .dayOfWeek "*/1").pattern = .error (.stepUnsupported .dayOfWeek) := by
  decide +kernel

/-! ## Edits without a name -/

theorem run_of_not_named {e : Edit} (h : ¬ e.Named) (s : Schedule) :
    s.run e = s.run (.setDayOfWeek "*") ∨ s.run e = s := by
  rw [Edit.named_iff, not_not] at h
  obtain ⟨hPeriodic, hField⟩ := h
  rcases Edit.pattern_of_isPeriodic hPeriodic hField with hAll | hRefused
  · left
    have hStar : (Edit.setDayOfWeek "*").pattern = .ok .all := by decide +kernel
    rw [run_of_ok hAll, run_of_ok hStar, hField]
    rfl
  · right
    exact run_of_error hRefused

theorem exists_named_runAll (s : Schedule) (es : List Edit) :
    ∃ named, (∀ e ∈ named, e.Named) ∧ s.runAll named = s.runAll es := by
  induction es generalizing s with
  | nil => exact ⟨[], fun _ hMem => absurd hMem List.not_mem_nil, rfl⟩
  | cons e rest ih =>
      obtain ⟨named, hNamed, hRun⟩ := ih (s.run e)
      rw [runAll_cons, ← hRun]
      by_cases hFirst : e.Named
      · exact ⟨e :: named, List.forall_mem_cons.2 ⟨hFirst, hNamed⟩, rfl⟩
      · rcases run_of_not_named hFirst s with hStar | hSame
        · rw [hStar]
          exact ⟨_ :: named, List.forall_mem_cons.2 ⟨.setDayOfWeek "*", hNamed⟩, rfl⟩
        · rw [hSame]
          exact ⟨named, hNamed, rfl⟩

end Schedule

end Cron
