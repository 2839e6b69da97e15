import Cron.Proofs.RoundTrip

/-!
# The texts that a field accepts

The reader cuts a text apart, reads numbers up to a ceiling, looks at the
bounds of the field and narrows what passes to bytes.  What it accepts can be
said without any of these steps, by a grammar (`Field.Derives`): a text of a
field is an item, or an item, a comma and another such text.  The items are
those of `Item.Spells`, with numbers of any length and any number of leading
zeros, and their numbers have to suit the field.

The ceiling lies above the bounds of every field.  So a number that is cut off
suits no field, neither as it is written nor as it is read, and the reader and
the grammar refuse it alike.

## Main results

* `suits_of_isItem`, `exists_isItem_of_suits` — the items that suit a field are
  those of its patterns.
* `exists_parseItem_iff` — a single item is read exactly if it suits the field.
* `parseChars_eq_ok_iff_of_spells` — and the text of one item as its pattern.
* `parse_accepts_exactly` — the texts that are read are those of the grammar.
-/

namespace Cron

open Text

/-! ## The grammar -/

/-- The numbers within the bounds of a field. -/
def Field.Covers (f : Field) (n : Nat) : Prop := f.min ≤ n ∧ n ≤ f.max

instance (f : Field) (n : Nat) : Decidable (f.Covers n) := inferInstanceAs (Decidable (_ ∧ _))

/-- The numbers of an item, as they are written, are allowed in a field. -/
def Item.Suits (f : Field) : Item → Prop
  | .all => True
  | .value n => f.Covers n
  | .range a b => f.Covers a ∧ f.Covers b ∧ a < b
  | .step anchor n => f ≠ .dayOfWeek ∧ (∀ a ∈ anchor, f.Covers a) ∧ f.Covers n ∧ 1 ≤ n

/-- The texts of a field: one item or more, with a single comma between each
and the next. -/
inductive Field.Derives (f : Field) : List Char → Prop where
  | item {cs : List Char} {i : Item} (hSpells : Item.Spells cs i) (hSuits : i.Suits f) :
      Derives f cs
  | list {cs rest : List Char} {i : Item} (hSpells : Item.Spells cs i) (hSuits : i.Suits f)
      (hRest : Derives f rest) : Derives f (cs ++ ',' :: rest)

namespace Pattern

/-! ## Items -/

/-- The numbers of a field are bytes. -/
theorem exists_toNat_of_covers {f : Field} {n : Nat} (h : f.Covers n) :
    ∃ v : UInt8, v.toNat = n := by
  have hMax := f.max_lt
  have hUpTo := h.2
  refine ⟨UInt8.ofNat n, ?_⟩
  rw [UInt8.toNat_ofNat']
  exact Nat.mod_eq_of_lt (by omega)

theorem suits_of_isItem {f : Field} {p : Pattern} {i : Item} (h : IsItem f p)
    (hItem : p.item? = some i) : i.Suits f := by
  cases p with
  | all =>
      cases hItem
      exact trivial
  | value v =>
      cases hItem
      exact h
  | range first last =>
      cases hItem
      exact ⟨h.1, h.2.1, UInt8.lt_iff_toNat_lt.1 h.2.2⟩
  | step anchor interval =>
      cases hItem
      have hAnchor : ∀ a ∈ anchor.map UInt8.toNat, f.Covers a := by
        intro a ha
        obtain ⟨v, hv, hEq⟩ := Option.map_eq_some_iff.1 ha
        rw [← hEq]
        exact h.2.1 v hv
      have hPositive : interval.toNat ≠ 0 := fun hZero => h.2.2.2 (UInt8.toNat_inj.1 hZero)
      exact ⟨h.1, hAnchor, h.2.2.1, Nat.one_le_iff_ne_zero.2 hPositive⟩
  | list items => exact h.elim

theorem exists_isItem_of_suits {f : Field} {i : Item} (h : i.Suits f) :
    ∃ p, IsItem f p ∧ p.item? = some i := by
  cases i with
  | all => exact ⟨all, trivial, rfl⟩
  | value n =>
      obtain ⟨v, rfl⟩ := exists_toNat_of_covers h
      exact ⟨value v, h, rfl⟩
  | range a b =>
      obtain ⟨first, rfl⟩ := exists_toNat_of_covers h.1
      obtain ⟨last, rfl⟩ := exists_toNat_of_covers h.2.1
      exact ⟨range first last, ⟨h.1, h.2.1, UInt8.lt_iff_toNat_lt.2 h.2.2⟩, rfl⟩
  | step anchor n =>
      obtain ⟨interval, rfl⟩ := exists_toNat_of_covers h.2.2.1
      have hPositive : interval ≠ 0 := by
        intro hZero
        rw [hZero] at h
        exact absurd h.2.2.2 (by decide)
      cases anchor with
      | none =>
          have hNone : ∀ a ∈ (none : Option UInt8), f.Allows a :=
            fun a ha => absurd ha (Option.not_mem_none a)
          exact ⟨step none interval, ⟨h.1, hNone, h.2.2.1, hPositive⟩, rfl⟩
      | some a =>
          obtain ⟨start, rfl⟩ := exists_toNat_of_covers (h.2.1 a rfl)
          have hStart : ∀ v ∈ some start, f.Allows v := by
            intro v hv
            rw [← Option.some.inj hv]
            exact h.2.1 _ rfl
          exact ⟨step (some start) interval, ⟨h.1, hStart, h.2.2.1, hPositive⟩, rfl⟩

/-- An item of a text is read exactly if it spells an item that suits the field. -/
theorem exists_parseItem_iff (f : Field) (cs : List Char) :
    (∃ p, parseItem f cs = .ok p) ↔ ∃ i, Item.Spells cs i ∧ i.Suits f := by
  constructor
  · intro ⟨p, hRead⟩
    obtain ⟨i, hItem, hIsItem, hSpells⟩ := spells_iff_of_parseItem hRead
    exact ⟨i, (hSpells i).2 rfl, suits_of_isItem hIsItem hItem⟩
  · intro ⟨i, hSpells, hSuits⟩
    obtain ⟨p, hIsItem, hItem⟩ := exists_isItem_of_suits hSuits
    exact ⟨p, parseItem_of_spells hIsItem hItem hSpells⟩

/-! ## A text of one item -/

theorem comma_not_mem_of_spells {cs : List Char} {i : Item} (h : Item.Spells cs i) :
    ',' ∉ cs := by
  intro hMem
  exact absurd (not_sep_of_spells h ',' hMem).1 (by decide)

/-- Without a comma there is nothing to arrange. -/
theorem parseChars_of_comma_not_mem {f : Field} {cs : List Char} (h : ',' ∉ cs) :
    parseChars f cs = parseItem f cs := by
  have hPieces : pieces (· == ',') cs = [cs] := by
    apply pieces_of_not_isSep
    intro c hc
    rw [beq_eq_false_iff_ne]
    exact fun hComma => h (hComma ▸ hc)
  rw [parseChars, hPieces, List.mapM_cons, List.mapM_nil]
  cases parseItem f cs <;> rfl

/-- The text of an item is read as the pattern that stands for it. -/
theorem parseChars_eq_ok_iff_of_spells {f : Field} {cs : List Char} {i : Item} {p : Pattern}
    (h : Item.Spells cs i) : parseChars f cs = .ok p ↔ IsItem f p ∧ p.item? = some i := by
  rw [parseChars_of_comma_not_mem (comma_not_mem_of_spells h)]
  constructor
  · intro hRead
    obtain ⟨j, hItem, hIsItem, hOnly⟩ := spells_iff_of_parseItem hRead
    rw [(hOnly i).1 h]
    exact ⟨hIsItem, hItem⟩
  · intro ⟨hIsItem, hItem⟩
    exact parseItem_of_spells hIsItem hItem h

theorem exists_parseChars_iff_of_spells {f : Field} {cs : List Char} {i : Item}
    (h : Item.Spells cs i) : (∃ p, parseChars f cs = .ok p) ↔ i.Suits f := by
  simp only [parseChars_eq_ok_iff_of_spells h]
  constructor
  · intro ⟨p, hIsItem, hItem⟩
    exact suits_of_isItem hIsItem hItem
  · exact exists_isItem_of_suits

/-! ## Lists -/

/-- A list can be read exactly if each of its members can. -/
theorem exists_mapM_iff {ε α β : Type} {g : α → Except ε β} {as : List α} :
    (∃ bs, as.mapM g = .ok bs) ↔ ∀ a ∈ as, ∃ b, g a = .ok b := by
  simp only [mapM_eq_ok_iff]
  induction as with
  | nil => simp
  | cons a rest ih =>
      simp only [List.forall₂_cons_left_iff, List.forall_mem_cons, ← ih]
      constructor
      · intro ⟨_, b, bs, hHead, hRest, _⟩
        exact ⟨⟨b, hHead⟩, bs, hRest⟩
      · intro ⟨⟨b, hHead⟩, bs, hRest⟩
        exact ⟨b :: bs, b, bs, hHead, hRest, rfl⟩

theorem exists_parseChars_iff (f : Field) (cs : List Char) :
    (∃ p, parseChars f cs = .ok p) ↔
      ∀ piece ∈ pieces (· == ',') cs, ∃ i, Item.Spells piece i ∧ i.Suits f := by
  simp only [← exists_parseItem_iff, ← exists_mapM_iff]
  constructor
  · intro ⟨p, hRead⟩
    obtain ⟨items, hItems, -⟩ := bind_eq_ok_iff.1 hRead
    exact ⟨items, hItems⟩
  · intro ⟨items, hItems⟩
    exact ⟨ofItems items, bind_eq_ok_iff.2 ⟨items, hItems, rfl⟩⟩

/-- An item holds no comma, so the commas of a text are those between its items. -/
theorem suits_of_mem_pieces {f : Field} {cs : List Char} (h : f.Derives cs) :
    ∀ piece ∈ pieces (· == ',') cs, ∃ i, Item.Spells piece i ∧ i.Suits f := by
  induction h with
  | item hSpells hSuits =>
      rw [pieces_of_not_isSep fun c hc => (not_sep_of_spells hSpells c hc).1]
      intro piece hPiece
      rw [List.mem_singleton.1 hPiece]
      exact ⟨_, hSpells, hSuits⟩
  | list hSpells hSuits _ ih =>
      rw [pieces_append_cons rfl fun c hc => (not_sep_of_spells hSpells c hc).1]
      exact List.forall_mem_cons.2 ⟨⟨_, hSpells, hSuits⟩, ih⟩

theorem derives_intercalate {f : Field} {parts : List (List Char)} (hNe : parts ≠ [])
    (h : ∀ part ∈ parts, ∃ i, Item.Spells part i ∧ i.Suits f) :
    f.Derives ([','].intercalate parts) := by
  induction parts with
  | nil => exact absurd rfl hNe
  | cons part rest ih =>
      have hMembers := List.forall_mem_cons.1 h
      obtain ⟨i, hSpells, hSuits⟩ := hMembers.1
      cases rest with
      | nil =>
          rw [List.intercalate_singleton]
          exact .item hSpells hSuits
      | cons next more =>
          rw [List.intercalate_cons_cons, List.append_assoc, List.singleton_append]
          exact .list hSpells hSuits (ih (List.cons_ne_nil next more) hMembers.2)

theorem derives_iff (f : Field) (cs : List Char) :
    f.Derives cs ↔ ∃ p, parseChars f cs = .ok p := by
  rw [exists_parseChars_iff]
  constructor
  · exact suits_of_mem_pieces
  · intro h
    have hJoined := derives_intercalate (pieces_ne_nil _ cs) h
    rw [intercalate_pieces] at hJoined
    exact hJoined

/-! ## Texts -/

theorem validate_eq_ok_iff (f : Field) (text : String) :
    validate f text = .ok () ↔ ∃ p, parse f text = .ok p := by
  rw [validate]
  cases parse f text <;> simp [Except.map]

theorem validate_eq_error_iff (f : Field) (text : String) (e : Error) :
    validate f text = .error e ↔ parse f text = .error e := by
  rw [validate]
  cases parse f text <;> simp [Except.map]

/-- A field reads the texts of its grammar, and checking a text succeeds for
these as well.  Any other text is refused by both, with the same error. -/
theorem parse_accepts_exactly (f : Field) (text : String) :
    ((∃ p, parse f text = .ok p) ↔ f.Derives text.toList) ∧
    (validate f text = .ok () ↔ f.Derives text.toList) ∧
    (¬ f.Derives text.toList ↔
      ∃ e, parse f text = .error e ∧ validate f text = .error e) := by
  have hParse : (∃ p, parse f text = .ok p) ↔ f.Derives text.toList :=
    (derives_iff f text.toList).symm
  refine ⟨hParse, ?_, ?_⟩
  · rw [validate_eq_ok_iff, hParse]
  · rw [← hParse]
    simp only [validate_eq_error_iff, and_self]
    cases parse f text <;> simp

example : validate .dayOfMonth "00031,*/2,1-005,*" = .ok () := by decide +kernel

example : validate .dayOfMonth "1-5/2" = .error (.malformed .dayOfMonth "1-5/2") := by
  decide +kernel

end Pattern

end Cron
