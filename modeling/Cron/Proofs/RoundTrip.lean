import Cron.Proofs.Canonical

/-!
# Canonical texts read back

The printer and the reader are written apart from each other.  They agree
because each separator occurs only where it separates: digits hold none, so the
first dash, or the first slash where there is no dash, is the one the printer
put between two numbers; an item holds no comma and a field no blank.  Cutting
thus undoes joining, at every level, and arranging the items again changes
nothing, since they are ascending already.

## Main results

* `Pattern.parse_text` — a canonical pattern is read back from its text.
* `Schedule.parse_text` — so is a schedule whose fields are canonical.
* `Schedule.reachable_round_trip` — the texts of reachable schedules, with and
  without the check of the day.
-/

namespace Cron

/-! ## Numbers and items -/

namespace Pattern

open Text

theorem narrow_of_allows {f : Field} {v : UInt8} (h : f.Allows v) :
    narrow f v.toNat = .ok v := by
  have hBounds : f.min ≤ v.toNat ∧ v.toNat ≤ f.max := h
  rw [narrow, if_pos hBounds, UInt8.ofNat_toNat]

/-- Without steps, or with them where they are allowed, the form decides. -/
theorem parseItem_of_read? {f : Field} {cs : List Char} {item : Item}
    (hSteps : f = .dayOfWeek → Item.isStepLike cs = false) (h : Item.read? cs = some item) :
    parseItem f cs = ofItem f item := by
  have hAllowed : ¬ (f = .dayOfWeek ∧ Item.isStepLike cs = true) := by
    intro ⟨hField, hStepLike⟩
    rw [hSteps hField] at hStepLike
    cases hStepLike
  rw [parseItem, if_neg hAllowed, h]

/-- A text with a dash, and one without a slash, is no step. -/
theorem isStepLike_eq_false {cs : List Char} (h : '-' ∈ cs ∨ '/' ∉ cs) :
    Item.isStepLike cs = false := by
  rw [← Bool.not_eq_true, Item.isStepLike_iff]
  intro ⟨hDash, hSlash⟩
  exact h.elim hDash fun hNone => hNone hSlash

theorem ofItem_step {f : Field} {anchor : Option UInt8} {n : UInt8}
    (h : IsItem f (step anchor n)) :
    ofItem f (.step (anchor.map UInt8.toNat) n.toNat) = .ok (step anchor n) := by
  obtain ⟨_, hAnchor, hInterval, hZero⟩ := h
  have hStart : (anchor.map UInt8.toNat).mapM (narrow f) = .ok anchor := by
    cases anchor with
    | none => rfl
    | some a =>
        rw [Option.map_some, Option.mapM_some, narrow_of_allows (hAnchor a rfl)]
        rfl
  have hPos : n.toNat ≠ 0 := fun hEq => hZero (UInt8.toNat_inj.1 hEq)
  rw [ofItem, hStart, narrow_of_allows hInterval]
  show (if n.toNat = 0 then _ else _) = _
  rw [if_neg hPos]
  rfl

/-- An item of a field suits the field. -/
theorem ofItem_of_item? {f : Field} {p : Pattern} {i : Item} (h : IsItem f p)
    (hItem : p.item? = some i) : ofItem f i = .ok p := by
  cases p with
  | all =>
      cases hItem
      rfl
  | value v =>
      cases hItem
      rw [ofItem, narrow_of_allows h]
      rfl
  | range a b =>
      cases hItem
      obtain ⟨hFirst, hLast, hLt⟩ := h
      rw [ofItem, narrow_of_allows hFirst, narrow_of_allows hLast]
      show (if a.toNat < b.toNat then _ else _) = _
      rw [if_pos (UInt8.lt_iff_toNat_lt.1 hLt)]
      rfl
  | step anchor n =>
      cases hItem
      exact ofItem_step h
  | list items => cases hItem

/-- A text that spells another item than a step is no step by its separators. -/
theorem isStepLike_of_spells {cs : List Char} {i : Item} (h : Item.Spells cs i)
    (hNot : ∀ anchor n, i ≠ .step anchor n) : Item.isStepLike cs = false := by
  cases h with
  | all => rfl
  | value hNumeral => exact isStepLike_eq_false (.inr (hNumeral.not_mem rfl))
  | range _ _ => exact isStepLike_eq_false (.inl (List.mem_append_right _ List.mem_cons_self))
  | stepFromZero _ => exact absurd rfl (hNot _ _)
  | stepFrom _ _ => exact absurd rfl (hNot _ _)

/-- The day of the week has no steps. -/
theorem IsItem.not_step {p : Pattern} {i : Item} (h : IsItem .dayOfWeek p)
    (hItem : p.item? = some i) (anchor : Option Nat) (n : Nat) : i ≠ .step anchor n := by
  cases p with
  | step anchor n => exact absurd rfl h.1
  | list items => exact h.elim
  | _ =>
      cases hItem
      exact Item.noConfusion

/-- However the item of a pattern is spelled, it is read as the pattern. -/
theorem parseItem_of_spells {f : Field} {p : Pattern} {i : Item} {cs : List Char}
    (h : IsItem f p) (hItem : p.item? = some i) (hSpells : Item.Spells cs i) :
    parseItem f cs = .ok p := by
  have hSteps : f = .dayOfWeek → Item.isStepLike cs = false := by
    intro hField
    rw [hField] at h
    exact isStepLike_of_spells hSpells (h.not_step hItem)
  have hRead := Item.read?_of_spells hSpells
  rw [(capped_eq_iff_of_item? hItem i).2 rfl] at hRead
  rw [parseItem_of_read? hSteps hRead]
  exact ofItem_of_item? h hItem

/-- An item is read back from its characters. -/
theorem parseItem_chars {f : Field} {p : Pattern} (h : IsItem f p) :
    parseItem f p.chars = .ok p := by
  obtain ⟨i, hItem⟩ := h.exists_item?
  exact parseItem_of_spells h hItem (spells_chars hItem)

/-! ## Fields -/

theorem joined_eq_intercalate (items : List Pattern) :
    joined items = [','].intercalate (items.map chars) := by
  induction items with
  | nil => rfl
  | cons p rest ih =>
      cases rest with
      | nil => rw [joined, List.map_singleton, List.intercalate_singleton]
      | cons q more =>
          show p.chars ++ ',' :: joined (q :: more) =
            [','].intercalate (p.chars :: q.chars :: more.map chars)
          rw [ih, List.intercalate_cons_cons, List.append_assoc, List.singleton_append]
          rfl

/-- The characters that an item is written with. -/
def isItemChar (c : Char) : Bool := c.isDigit || c == '*' || c == '-' || c == '/'

theorem all_isItemChar_of_isNumeral {cs : List Char} {n : Nat} (h : Decimal.IsNumeral cs n) :
    cs.all isItemChar := by
  apply List.all_eq_true.2
  intro c hc
  rw [isItemChar, h.2.1 c hc]
  rfl

theorem all_isItemChar_of_spells {cs : List Char} {i : Item} (h : Item.Spells cs i) :
    cs.all isItemChar := by
  cases h with
  | all => rfl
  | value hNumeral => exact all_isItemChar_of_isNumeral hNumeral
  | range hFirst hLast =>
      rw [List.all_append, List.all_cons, all_isItemChar_of_isNumeral hFirst,
        all_isItemChar_of_isNumeral hLast]
      rfl
  | stepFromZero hInterval =>
      rw [List.all_cons, List.all_cons, all_isItemChar_of_isNumeral hInterval]
      rfl
  | stepFrom hAnchor hInterval =>
      rw [List.all_append, List.all_cons, all_isItemChar_of_isNumeral hAnchor,
        all_isItemChar_of_isNumeral hInterval]
      rfl

/-- The characters of items separate neither items nor fields. -/
theorem not_sep_of_isItemChar {c : Char} (h : isItemChar c) :
    (c == ',') = false ∧ isBlank c = false := by
  simp only [isItemChar, Bool.or_eq_true, beq_iff_eq] at h
  rcases h with ((hDigit | rfl) | rfl) | rfl
  · refine ⟨?_, isBlank_of_isDigit hDigit⟩
    rw [beq_eq_false_iff_ne]
    intro hComma
    rw [hComma] at hDigit
    exact absurd hDigit (by decide)
  · exact ⟨rfl, rfl⟩
  · exact ⟨rfl, rfl⟩
  · exact ⟨rfl, rfl⟩

theorem not_sep_of_spells {cs : List Char} {i : Item} (h : Item.Spells cs i) :
    ∀ c ∈ cs, (c == ',') = false ∧ isBlank c = false := by
  intro c hc
  exact not_sep_of_isItemChar (List.all_eq_true.1 (all_isItemChar_of_spells h) c hc)

theorem ne_nil_of_spells {cs : List Char} {i : Item} (h : Item.Spells cs i) : cs ≠ [] := by
  cases h with
  | all => exact List.cons_ne_nil _ _
  | value hNumeral => exact hNumeral.1
  | range _ _ => exact List.append_ne_nil_of_right_ne_nil _ (List.cons_ne_nil _ _)
  | stepFromZero _ => exact List.cons_ne_nil _ _
  | stepFrom _ _ => exact List.append_ne_nil_of_right_ne_nil _ (List.cons_ne_nil _ _)

theorem IsItem.not_sep {f : Field} {p : Pattern} (h : IsItem f p) :
    ∀ c ∈ p.chars, (c == ',') = false ∧ isBlank c = false := by
  obtain ⟨i, hItem⟩ := h.exists_item?
  exact not_sep_of_spells (spells_chars hItem)

theorem IsItem.chars_ne_nil {f : Field} {p : Pattern} (h : IsItem f p) : p.chars ≠ [] := by
  obtain ⟨i, hItem⟩ := h.exists_item?
  exact ne_nil_of_spells (spells_chars hItem)

private theorem exists_of_two_le_length {items : List Pattern} (h : 2 ≤ items.length) :
    ∃ p q rest, items = p :: q :: rest := by
  cases items with
  | nil => exact absurd h (Nat.not_succ_le_zero 1)
  | cons p rest =>
      cases rest with
      | nil => exact absurd h (Nat.not_succ_le_self 1)
      | cons q more => exact ⟨p, q, more, rfl⟩

/-- The text of a canonical pattern is a word. -/
theorem Canonical.isWord_chars {f : Field} {p : Pattern} (h : Canonical f p) :
    p.chars ≠ [] ∧ ∀ c ∈ p.chars, isBlank c = false := by
  rcases h.isItem_or_list with hItem | ⟨items, rfl, hLength, hItems, _⟩
  · exact ⟨hItem.chars_ne_nil, fun c hc => (hItem.not_sep c hc).2⟩
  · constructor
    · obtain ⟨p, q, rest, rfl⟩ := exists_of_two_le_length hLength
      have hFirst := (hItems p List.mem_cons_self).chars_ne_nil
      exact List.append_ne_nil_of_left_ne_nil hFirst _
    · intro c hc
      rw [chars, joined_eq_intercalate] at hc
      rcases mem_intercalate hc with rfl | ⟨part, hPart, hMem⟩
      · rfl
      · obtain ⟨p, hp, rfl⟩ := List.mem_map.1 hPart
        exact ((hItems p hp).not_sep c hMem).2

theorem ofItems_of_isAscending {items : List Pattern} (hLength : 2 ≤ items.length)
    (h : Ascending.IsAscending listOrder items) : ofItems items = list items := by
  obtain ⟨p, q, rest, rfl⟩ := exists_of_two_le_length hLength
  rw [ofItems, Ascending.ofList_of_isAscending h]

/-- A canonical pattern is read back from its characters. -/
theorem parseChars_chars {f : Field} {p : Pattern} (h : Canonical f p) :
    parseChars f p.chars = .ok p := by
  apply bind_eq_ok_iff.2
  rcases h.isItem_or_list with hItem | ⟨items, rfl, hLength, hItems, hAscending⟩
  · refine ⟨[p], ?_, rfl⟩
    rw [pieces_of_not_isSep fun c hc => (hItem.not_sep c hc).1]
    exact mapM_eq_ok_iff.2 (.cons (parseItem_chars hItem) .nil)
  · refine ⟨items, ?_, congrArg Except.ok (ofItems_of_isAscending hLength hAscending)⟩
    have hPieces : pieces (· == ',') (list items).chars = items.map chars := by
      rw [chars, joined_eq_intercalate]
      apply pieces_intercalate rfl
      · intro hNil
        rw [List.map_eq_nil_iff.1 hNil] at hLength
        exact absurd hLength (by decide)
      · intro part hPart
        obtain ⟨q, hq, rfl⟩ := List.mem_map.1 hPart
        intro c hc
        exact ((hItems q hq).not_sep c hc).1
    rw [hPieces, mapM_eq_ok_iff, List.forall₂_map_left_iff, List.forall₂_same]
    intro q hq
    exact parseItem_chars (hItems q hq)

theorem parse_text {f : Field} {p : Pattern} (h : Canonical f p) :
    parse f p.text = .ok p := by
  rw [parse, text, String.toList_ofList]
  exact parseChars_chars h

end Pattern

/-! ## Schedules -/

namespace Schedule

open Text

theorem chars_eq_intercalate (s : Schedule) :
    s.chars = [' '].intercalate (Field.all.map fun f => (s.field f).chars) := by
  simp only [Field.all, List.map_cons, List.map_nil, List.intercalate_cons_cons,
    List.intercalate_singleton, List.append_assoc, List.nil_append, List.cons_append, chars,
    field]

/-- The words of the text of a schedule are the texts of its fields. -/
theorem fieldTexts_text {s : Schedule} (h : ∀ f, (s.field f).Canonical f) :
    fieldTexts s.text = Field.all.map fun f => (s.field f).text := by
  have hNe : (Field.all.map fun f => (s.field f).chars) ≠ [] := List.cons_ne_nil _ _
  have hWords : words s.chars = Field.all.map fun f => (s.field f).chars := by
    rw [chars_eq_intercalate]
    apply words_intercalate rfl hNe
    intro part hPart
    obtain ⟨f, _, rfl⟩ := List.mem_map.1 hPart
    exact (h f).isWord_chars
  rw [fieldTexts, text, String.toList_ofList, hWords, List.map_map]
  rfl

theorem parse_text {s : Schedule} (h : ∀ f, (s.field f).Canonical f) :
    parse s.text = .ok s := by
  rw [parse, fieldTexts_text h]
  exact ofFields_eq_ok_iff.2 ⟨Pattern.parse_text (h .minute), Pattern.parse_text (h .hour),
    Pattern.parse_text (h .dayOfMonth), Pattern.parse_text (h .month),
    Pattern.parse_text (h .dayOfWeek)⟩

theorem read_text {s : Schedule} (h : ∀ f, (s.field f).Canonical f) :
    Interchange.read (.string s.text) = .ok s := by
  rw [Interchange.read, parse_text h]
  rfl

/-! ### With the check of the day -/

theorem toExpression_eq (s : Schedule) :
    s.toExpression = s.validate.map fun _ => s.text := by
  rw [toExpression]
  cases s.validate <;> rfl

theorem write_eq (s : Schedule) :
    Interchange.write s = s.validate.map fun _ => .string s.text := by
  rw [Interchange.write, toExpression_eq]
  cases s.validate <;> rfl

/-! ## Reachable schedules -/

/-- The text of a reachable schedule has a word for each field, each field is
read back from its own word and the schedule from the whole text.  With the check
of the day, the text is written exactly if the check passes, and what is read
from it is written as the same text again. -/
theorem reachable_round_trip {s : Schedule} (h : s.Reachable) :
    (fieldTexts s.text).length = 5 ∧
    fieldTexts s.text = Field.all.map (fun f => (s.field f).text) ∧
    parse s.text = .ok s ∧
    (∀ f, Pattern.parse f (s.field f).text = .ok (s.field f)) ∧
    (s.validate = .ok () →
      s.toExpression = .ok s.text ∧
      Interchange.write s = .ok (.string s.text) ∧
      Interchange.read (.string s.text) = .ok s ∧
      ∀ t, parse s.text = .ok t ∨ Interchange.read (.string s.text) = .ok t →
        t = s ∧ t.toExpression = .ok s.text ∧
        Interchange.write t = .ok (.string s.text)) ∧
    (∀ e, s.validate = .error e →
      s.toExpression = .error e ∧ Interchange.write s = .error e) := by
  have hTexts := fieldTexts_text h.canonical
  have hParse := parse_text h.canonical
  have hRead := read_text h.canonical
  refine ⟨?_, hTexts, hParse, fun f => Pattern.parse_text (h.canonical f), ?_, ?_⟩
  · rw [hTexts, List.length_map]
    rfl
  · intro hValid
    have hExpression : s.toExpression = .ok s.text := by
      rw [toExpression_eq, hValid]
      rfl
    have hWrite : Interchange.write s = .ok (.string s.text) := by
      rw [write_eq, hValid]
      rfl
    refine ⟨hExpression, hWrite, hRead, ?_⟩
    intro t ht
    have hSame : t = s := by
      rcases ht with ht | ht
      · exact Except.ok.inj (ht.symm.trans hParse)
      · exact Except.ok.inj (ht.symm.trans hRead)
    rw [hSame]
    exact ⟨rfl, hExpression, hWrite⟩
  · intro e hInvalid
    rw [toExpression_eq, write_eq, hInvalid]
    exact ⟨rfl, rfl⟩

/-- Read out of order and twice, written in order and once; the second edit fails. -/
theorem round_trip_of_edits :
    (({} : Schedule).run (.set .hour "22,05-09,0,5-9")).run (.everyNth .minute 0) =
      { hour := .list [.value 0, .range 5 9, .value 22] } ∧
    Interchange.read (.string "* 0,5-9,22 * * *") =
      .ok ((({} : Schedule).run (.set .hour "22,05-09,0,5-9")).run (.everyNth .minute 0)) := by
  have hRun : (({} : Schedule).run (.set .hour "22,05-09,0,5-9")).run (.everyNth .minute 0) =
      { hour := .list [.value 0, .range 5 9, .value 22] } := by
    decide +kernel
  refine ⟨hRun, ?_⟩
  have hText : ((({} : Schedule).run (.set .hour "22,05-09,0,5-9")).run
      (.everyNth .minute 0)).text = "* 0,5-9,22 * * *" := by
    rw [hRun]
    decide +kernel
  have hRound := reachable_round_trip (.run (.everyNth .minute 0)
    (.run (.set .hour "22,05-09,0,5-9") .default))
  rw [← hText]
  exact (hRound.2.2.2.2.1 (by rw [hRun]; rfl)).2.2.1

end Schedule

end Cron
