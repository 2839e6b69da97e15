import Cron.Proofs.Refusal

/-!
# Expressions and their fields

An expression is read word by word, each word by the field in its place.  So
reading it is nothing but reading its words as fields, once there are five of
them.  Conversely five texts that the fields read can be put into an expression
with any blanks between them and around: no such text is empty or holds a blank,
so that the words found are the texts again.

Both directions rest on what words are, said without cutting (`Text.HasWords`).

## Main results

* `Pattern.isWord_of_parse` — a text that a field reads is a word.
* `Schedule.ofFields_eq_error_iff` — the error of five texts is that of the first
  that its field refuses.
* `Schedule.parse_agrees_with_fields` — an expression is its words, read as fields.
-/

namespace Cron

open Text

namespace Pattern

theorem isWord_of_derives {f : Field} {cs : List Char} (h : f.Derives cs) : IsWord cs := by
  induction h with
  | item hSpells _ =>
      exact ⟨ne_nil_of_spells hSpells, fun c hc => (not_sep_of_spells hSpells c hc).2⟩
  | list hSpells _ _ ih =>
      refine ⟨List.append_ne_nil_of_left_ne_nil (ne_nil_of_spells hSpells) _, fun c hc => ?_⟩
      rw [List.mem_append, List.mem_cons] at hc
      rcases hc with hItem | rfl | hRest
      · exact (not_sep_of_spells hSpells c hItem).2
      · rfl
      · exact ih.2 c hRest

theorem isWord_of_parse {f : Field} {text : String} {p : Pattern} (h : parse f text = .ok p) :
    IsWord text.toList :=
  isWord_of_derives ((derives_iff f text.toList).2 ⟨p, h⟩)

end Pattern

namespace Schedule

variable {expression : String} {texts : Field → String}

/-! ## Fields -/

/-- Five texts are read as the patterns of their fields. -/
theorem ofFields_eq_ok_iff_forall {s : Schedule} :
    ofFields (texts .minute) (texts .hour) (texts .dayOfMonth) (texts .month)
        (texts .dayOfWeek) = .ok s ↔
      ∀ f, Pattern.parse f (texts f) = .ok (s.field f) := by
  rw [ofFields_eq_ok_iff]
  constructor
  · intro ⟨hMinute, hHour, hDay, hMonth, hWeekday⟩ f
    cases f <;> assumption
  · intro h
    exact ⟨h .minute, h .hour, h .dayOfMonth, h .month, h .dayOfWeek⟩

/-- The fields are read in the order of an expression, up to the first that fails. -/
theorem ofFields_eq_error_iff {e : Error} :
    ofFields (texts .minute) (texts .hour) (texts .dayOfMonth) (texts .month)
        (texts .dayOfWeek) = .error e ↔
      ∃ before f after, Field.all = before ++ f :: after ∧
        (∀ g ∈ before, ∃ p, Pattern.parse g (texts g) = .ok p) ∧
        Pattern.parse f (texts f) = .error e := by
  have hLast {α β : Type} {k : α → β} {x : Except Error α} :
      k <$> x = .error e ↔ x = .error e := by
    cases x <;> simp [Functor.map, Except.map]
  rw [← mapM_eq_error_iff (g := fun f => Pattern.parse f (texts f))]
  simp [ofFields, Field.all, List.mapM_cons, bind_eq_error_iff, hLast]

/-! ## Words -/

/-- The words of an expression as texts. -/
theorem fieldTexts_eq_iff {words : List String} :
    fieldTexts expression = words ↔
      HasWords expression.toList (words.map String.toList) := by
  rw [hasWords_iff, fieldTexts]
  constructor
  · rintro rfl
    simp [List.map_map, Function.comp_def]
  · intro h
    simp [h, List.map_map, Function.comp_def]

/-- Five words are read by the fields. -/
theorem parse_of_hasWords
    (h : HasWords expression.toList (Field.all.map fun f => (texts f).toList)) :
    parse expression = ofFields (texts .minute) (texts .hour) (texts .dayOfMonth)
      (texts .month) (texts .dayOfWeek) := by
  have hTexts : fieldTexts expression = Field.all.map texts := by
    rw [fieldTexts_eq_iff, List.map_map]
    exact h
  rw [parse, hTexts]
  rfl

/-- Any other number of words is the error, whatever the words are. -/
theorem parse_of_length_ne {words : List (List Char)} (h : HasWords expression.toList words)
    (hLength : words.length ≠ 5) : parse expression = .error (.fieldCount words.length) := by
  have hTexts : (fieldTexts expression).length = words.length := by
    rw [fieldTexts, hasWords_iff.1 h, List.length_map]
  rw [← hTexts] at hLength ⊢
  rw [parse]
  split
  · rename_i hFive
    rw [hFive] at hLength
    exact absurd rfl hLength
  · rfl

/-- Texts that the fields read are the words of any expression they are put into. -/
theorem hasWords_of_ofFields {s : Schedule}
    (h : ofFields (texts .minute) (texts .hour) (texts .dayOfMonth) (texts .month)
      (texts .dayOfWeek) = .ok s)
    (hSpaced : Spaced expression.toList (Field.all.map fun f => (texts f).toList)) :
    HasWords expression.toList (Field.all.map fun f => (texts f).toList) := by
  refine ⟨?_, hSpaced⟩
  intro word hWord
  obtain ⟨f, -, rfl⟩ := List.mem_map.1 hWord
  exact Pattern.isWord_of_parse (ofFields_eq_ok_iff_forall.1 h f)

/-- An expression has words, in one way only.  If they are not five, their number is
the error.  If they are, the expression is read as the fields read its words: each
field in its place, the first that refuses its word with the error of the expression.
And texts that the fields read, put into an expression with blanks between each and
the next and maybe around them, are read from it as before. -/
theorem parse_agrees_with_fields (expression : String) :
    (∃! words, HasWords expression.toList words) ∧
    (∀ words, HasWords expression.toList words → words.length ≠ 5 →
      parse expression = .error (.fieldCount words.length)) ∧
    (∀ texts : Field → String,
      HasWords expression.toList (Field.all.map fun f => (texts f).toList) →
      parse expression = ofFields (texts .minute) (texts .hour) (texts .dayOfMonth)
        (texts .month) (texts .dayOfWeek) ∧
      (∀ s, parse expression = .ok s ↔ ∀ f, Pattern.parse f (texts f) = .ok (s.field f)) ∧
      (∀ e, parse expression = .error e ↔
        ∃ before f after, Field.all = before ++ f :: after ∧
          (∀ g ∈ before, ∃ p, Pattern.parse g (texts g) = .ok p) ∧
          Pattern.parse f (texts f) = .error e)) ∧
    (∀ (texts : Field → String) (s : Schedule),
      ofFields (texts .minute) (texts .hour) (texts .dayOfMonth) (texts .month)
        (texts .dayOfWeek) = .ok s →
      Spaced expression.toList (Field.all.map fun f => (texts f).toList) →
      parse expression = .ok s) := by
  refine ⟨?_, fun words h hLength => parse_of_length_ne h hLength, ?_, ?_⟩
  · simp only [hasWords_iff]
    exact ⟨_, rfl, fun _ h => h.symm⟩
  · intro texts hWords
    rw [parse_of_hasWords hWords]
    exact ⟨rfl, fun s => ofFields_eq_ok_iff_forall, fun e => ofFields_eq_error_iff⟩
  · intro texts s hFields hSpaced
    rw [parse_of_hasWords (hasWords_of_ofFields hFields hSpaced), hFields]

example : parse "\t00 22,5\u2003* */3\n1-5 " =
    .ok { minute := .value 0, hour := .list [.value 5, .value 22], month := .step none 3,
          dayOfWeek := .range 1 5 } := by
  decide +kernel

example : parse "60 * * *" = .error (.fieldCount 4) := by decide +kernel

end Schedule

end Cron
