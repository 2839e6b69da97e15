import Cron.Proofs.Acceptance

/-!
# The two checks of a day against its month

A schedule is checked by the values it stores, and two texts are checked by the
numbers they are, before any field has read them.  Both ask the same about a day
and a month.  They can only differ in what they take for a single number: a text
of one item is a number exactly if the field stores a single value, and then it is
this value, with any zeros in front.  A text with a comma is never a number, while
the field may store a single value for it, if all its items are the same.

So the check of the texts is the weaker one, and on canonical texts the two agree,
since a canonical text has a comma only where a list is stored.

## Main results

* `Pattern.read?_eq_value?` — a text of one item as a number, against the value
  stored for it.
* `Pattern.read?_chars_eq_value?` — the same for canonical texts.
* `Schedule.validate_agrees_with_checkTexts` — the two checks against each other.
-/

namespace Cron

open Text

/-! ## Items that are numbers -/

namespace Item

/-- The number of an item that is no more than a number. -/
def number? : Item → Option Nat
  | .value n => some n
  | _ => none

theorem read?_eq_none_of_mem {cs : List Char} {c : Char} (hMem : c ∈ cs)
    (hDigit : c.isDigit = false) : Decimal.read? cs = none :=
  (Decimal.read?_eq_none_iff cs).2 (.inr ⟨c, hMem, hDigit⟩)

/-- Only the text of a value is read as a number, cut off at the ceiling. -/
theorem read?_eq_number? {cs : List Char} {i : Item} (h : Spells cs i) :
    Decimal.read? cs = i.capped.number? := by
  cases h with
  | all => rfl
  | value hNumeral => exact Decimal.read?_eq_some_iff.2 ⟨_, hNumeral, rfl⟩
  | range _ _ =>
      exact read?_eq_none_of_mem (List.mem_append_right _ List.mem_cons_self) rfl
  | stepFromZero _ => exact read?_eq_none_of_mem List.mem_cons_self rfl
  | stepFrom _ _ =>
      exact read?_eq_none_of_mem (List.mem_append_right _ List.mem_cons_self) rfl

end Item

/-! ## Texts against stored values -/

namespace Pattern

theorem number?_eq_value? {p : Pattern} {i : Item} (h : p.item? = some i) :
    i.number? = p.value?.map UInt8.toNat := by
  cases p with
  | list items => cases h
  | _ =>
      cases h
      rfl

theorem read?_eq_value?_of_parseItem {f : Field} {cs : List Char} {p : Pattern}
    (h : parseItem f cs = .ok p) : Decimal.read? cs = p.value?.map UInt8.toNat := by
  obtain ⟨i, hItem, -, hSpells⟩ := spells_iff_of_parseItem h
  calc
    Decimal.read? cs = i.capped.number? := Item.read?_eq_number? ((hSpells i).2 rfl)
    _ = i.number? := by rw [(capped_eq_iff_of_item? hItem i).2 rfl]
    _ = p.value?.map UInt8.toNat := number?_eq_value? hItem

/-- Zeros in front of a number do not show in the value. -/
theorem read?_eq_value? {f : Field} {text : String} {p : Pattern} (h : parse f text = .ok p)
    (hComma : ',' ∉ text.toList) : Decimal.read? text.toList = p.value?.map UInt8.toNat := by
  rw [parse, parseChars_of_comma_not_mem hComma] at h
  exact read?_eq_value?_of_parseItem h

theorem read?_chars_eq_value? {f : Field} {p : Pattern} (h : Canonical f p) :
    Decimal.read? p.chars = p.value?.map UInt8.toNat := by
  rcases h.isItem_or_list with hItem | ⟨items, rfl, hLength, -⟩
  · exact read?_eq_value?_of_parseItem (parseItem_chars hItem)
  · match items, hLength with
    | p :: q :: rest, _ =>
        show Decimal.read? (p.chars ++ ',' :: joined (q :: rest)) = none
        exact Item.read?_eq_none_of_mem (List.mem_append_right _ List.mem_cons_self) rfl

end Pattern

/-! ## The two checks -/

namespace MonthDay

/-- A text with a comma passes the check of texts, whatever the other text is. -/
theorem comma_not_mem_of_checkTexts {day month : String} {e : Error}
    (h : checkTexts day month = .error e) : ',' ∉ day.toList ∧ ',' ∉ month.toList := by
  constructor
  · intro hMem
    rw [checkTexts, Item.read?_eq_none_of_mem hMem rfl] at h
    cases h
  · intro hMem
    rw [checkTexts, Item.read?_eq_none_of_mem hMem rfl] at h
    cases hDay : Decimal.read? day.toList <;> rw [hDay] at h <;> cases h

end MonthDay

namespace Schedule

/-- The checks agree where the texts are the numbers that are stored. -/
theorem validate_eq_checkTexts {s : Schedule} {day month : String}
    (hDay : Decimal.read? day.toList = s.dayOfMonth.value?.map UInt8.toNat)
    (hMonth : Decimal.read? month.toList = s.month.value?.map UInt8.toNat) :
    s.validate = MonthDay.checkTexts day month := by
  rw [validate, MonthDay.checkTexts, hDay, hMonth]
  cases s.dayOfMonth.value? <;> cases s.month.value? <;> rfl

theorem validate_eq_checkTexts_of_comma_not_mem {s : Schedule} {day month : String}
    (hDay : Pattern.parse .dayOfMonth day = .ok s.dayOfMonth)
    (hMonth : Pattern.parse .month month = .ok s.month)
    (hDayComma : ',' ∉ day.toList) (hMonthComma : ',' ∉ month.toList) :
    s.validate = MonthDay.checkTexts day month :=
  validate_eq_checkTexts (Pattern.read?_eq_value? hDay hDayComma)
    (Pattern.read?_eq_value? hMonth hMonthComma)

/-- A reachable schedule is checked like the canonical texts of its day and its month.
A schedule whose day and month are set to texts fails the check, with the same error,
if the texts do; and if neither text has a comma, the two checks are the same. -/
theorem validate_agrees_with_checkTexts :
    (∀ s : Schedule, s.Reachable →
      s.validate = MonthDay.checkTexts s.dayOfMonth.text s.month.text) ∧
    ∀ (s : Schedule) (day month : String) (p q : Pattern),
      Pattern.parse .dayOfMonth day = .ok p → Pattern.parse .month month = .ok q →
      (∀ e, MonthDay.checkTexts day month = .error e →
        ((s.run (.set .dayOfMonth day)).run (.set .month month)).validate = .error e) ∧
      (',' ∉ day.toList → ',' ∉ month.toList →
        ((s.run (.set .dayOfMonth day)).run (.set .month month)).validate =
          MonthDay.checkTexts day month) := by
  constructor
  · intro s hReachable
    apply validate_eq_checkTexts
    · rw [Pattern.text, String.toList_ofList]
      exact Pattern.read?_chars_eq_value? (hReachable.canonical .dayOfMonth)
    · rw [Pattern.text, String.toList_ofList]
      exact Pattern.read?_chars_eq_value? (hReachable.canonical .month)
  · intro s day month p q hDay hMonth
    have hSet : (s.run (.set .dayOfMonth day)).run (.set .month month) =
        (s.put .dayOfMonth p).put .month q := by
      have hFirst : (Edit.set .dayOfMonth day).pattern = .ok p := hDay
      have hSecond : (Edit.set .month month).pattern = .ok q := hMonth
      rw [run_of_ok hFirst, run_of_ok hSecond]
      rfl
    have hSame (hDayComma : ',' ∉ day.toList) (hMonthComma : ',' ∉ month.toList) :
        ((s.run (.set .dayOfMonth day)).run (.set .month month)).validate =
          MonthDay.checkTexts day month := by
      rw [hSet]
      exact validate_eq_checkTexts_of_comma_not_mem hDay hMonth hDayComma hMonthComma
    refine ⟨fun e hError => ?_, hSame⟩
    obtain ⟨hDayComma, hMonthComma⟩ := MonthDay.comma_not_mem_of_checkTexts hError
    rw [hSame hDayComma hMonthComma, hError]

/-- With zeros in front the two checks agree; a day that is listed twice only fails the
check of what is stored. -/
theorem thirtieth_of_february :
    (MonthDay.checkTexts "0030" "02" = .error (.noSuchDay 30 2 29) ∧
      ((({} : Schedule).run (.set .dayOfMonth "0030")).run (.set .month "02")).validate =
        .error (.noSuchDay 30 2 29)) ∧
    MonthDay.checkTexts "30,30" "2" = .ok () ∧
      ((({} : Schedule).run (.set .dayOfMonth "30,30")).run (.set .month "2")).validate =
        .error (.noSuchDay 30 2 29) := by
  have hDay : Pattern.parse .dayOfMonth "0030" = .ok (.value 30) := by decide +kernel
  have hMonth : Pattern.parse .month "02" = .ok (.value 2) := by decide +kernel
  have hTexts : MonthDay.checkTexts "0030" "02" = .error (.noSuchDay 30 2 29) := by
    decide +kernel
  have hAgree := validate_agrees_with_checkTexts.2 {} "0030" "02" _ _ hDay hMonth
  exact ⟨⟨hTexts, hAgree.1 _ hTexts⟩, by decide +kernel, by decide +kernel⟩

end Schedule

end Cron
