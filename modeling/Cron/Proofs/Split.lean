import Cron.Text.Split
import Mathlib.Data.List.Basic

/-!
# Cutting undoes joining

Parts that hold no separator come apart again where they were joined: at the
first separator, at all of them, and at blanks if no part is empty.

## Main results

* `cut?_append` — the first separator is the one that was put in.
* `pieces_intercalate`, `words_intercalate` — joined parts are cut apart again.
* `isSplit_iff` — the pieces are the one way to cut a text apart.
* `hasWords_iff` — the words of a text are its maximal runs of characters that are
  not blank.
-/

namespace Cron.Text

/-! ## At the first separator -/

theorem cut?_append {sep : Char} {before : List Char} (h : sep ∉ before)
    (after : List Char) : cut? sep (before ++ sep :: after) = some (before, after) := by
  induction before with
  | nil => rw [List.nil_append, cut?, if_pos rfl]
  | cons c rest ih =>
      have hHead : c ≠ sep := fun hEq => h (hEq ▸ List.mem_cons_self)
      have hTail : sep ∉ rest := fun hMem => h (List.mem_cons_of_mem c hMem)
      rw [List.cons_append, cut?, if_neg hHead, ih hTail]
      rfl

/-! ## At every separator -/

variable {isSep : Char → Bool}

/-- Characters that are no separators go to the first piece of what follows. -/
theorem pieces_append {cs rest piece : List Char} {more : List (List Char)}
    (h : ∀ c ∈ cs, isSep c = false) (hRest : pieces isSep rest = piece :: more) :
    pieces isSep (cs ++ rest) = (cs ++ piece) :: more := by
  induction cs with
  | nil => exact hRest
  | cons c cs ih =>
      have hHead : ¬ isSep c = true := by
        rw [h c List.mem_cons_self]
        exact Bool.false_ne_true
      have hTail : ∀ d ∈ cs, isSep d = false :=
        fun d hd => h d (List.mem_cons_of_mem c hd)
      rw [List.cons_append, pieces, if_neg hHead, ih hTail]
      rfl

theorem pieces_of_not_isSep {cs : List Char} (h : ∀ c ∈ cs, isSep c = false) :
    pieces isSep cs = [cs] := by
  have hPieces := pieces_append h (show pieces isSep [] = [[]] from rfl)
  rw [List.append_nil] at hPieces
  exact hPieces

theorem pieces_append_cons {sep : Char} {cs : List Char} (hSep : isSep sep = true)
    (h : ∀ c ∈ cs, isSep c = false) (rest : List Char) :
    pieces isSep (cs ++ sep :: rest) = cs :: pieces isSep rest := by
  have hRest : pieces isSep (sep :: rest) = [] :: pieces isSep rest := by
    rw [pieces, if_pos hSep]
  have hPieces := pieces_append h hRest
  rw [List.append_nil] at hPieces
  exact hPieces

/-- Cutting undoes joining, as long as there is something to join. -/
theorem pieces_intercalate {sep : Char} {parts : List (List Char)} (hSep : isSep sep = true)
    (hNe : parts ≠ []) (h : ∀ part ∈ parts, ∀ c ∈ part, isSep c = false) :
    pieces isSep ([sep].intercalate parts) = parts := by
  induction parts with
  | nil => exact absurd rfl hNe
  | cons part rest ih =>
      have hPart := h part List.mem_cons_self
      cases rest with
      | nil => rw [List.intercalate_singleton, pieces_of_not_isSep hPart]
      | cons next more =>
          rw [List.intercalate_cons_cons, List.append_assoc, List.singleton_append,
            pieces_append_cons hSep hPart,
            ih (List.cons_ne_nil next more) fun p hp => h p (List.mem_cons_of_mem part hp)]

theorem mem_intercalate {sep c : Char} {parts : List (List Char)}
    (h : c ∈ [sep].intercalate parts) : c = sep ∨ ∃ part ∈ parts, c ∈ part := by
  induction parts with
  | nil => cases h
  | cons part rest ih =>
      cases rest with
      | nil =>
          rw [List.intercalate_singleton] at h
          exact .inr ⟨part, List.mem_cons_self, h⟩
      | cons next more =>
          rw [List.intercalate_cons_cons, List.append_assoc, List.mem_append,
            List.singleton_append, List.mem_cons] at h
          rcases h with hPart | hSep | hRest
          · exact .inr ⟨part, List.mem_cons_self, hPart⟩
          · exact .inl hSep
          · rcases ih hRest with hSep | ⟨other, hMem, hc⟩
            · exact .inl hSep
            · exact .inr ⟨other, List.mem_cons_of_mem part hMem, hc⟩

/-- Joining undoes cutting. -/
theorem intercalate_pieces (sep : Char) (cs : List Char) :
    [sep].intercalate (pieces (· == sep) cs) = cs := by
  induction cs with
  | nil => rfl
  | cons c rest ih =>
      obtain ⟨piece, more, hRest⟩ := List.exists_cons_of_ne_nil (pieces_ne_nil (· == sep) rest)
      rw [hRest] at ih
      by_cases hSep : c = sep
      · rw [pieces, if_pos (beq_iff_eq.2 hSep), hRest, List.intercalate_cons_cons, ih, hSep]
        rfl
      · have hNot : ¬ (c == sep) = true := by
          rw [beq_iff_eq]
          exact hSep
        rw [pieces, if_neg hNot, hRest]
        cases more with
        | nil =>
            rw [List.intercalate_singleton] at ih ⊢
            rw [ih]
        | cons next more =>
            rw [List.intercalate_cons_cons] at ih ⊢
            rw [← ih]
            rfl

/-- A text falls into parts: joined with a separator between them they make it
up, and none of them holds a separator itself. -/
def IsSplit (sep : Char) (cs : List Char) (parts : List (List Char)) : Prop :=
  parts ≠ [] ∧ (∀ part ∈ parts, sep ∉ part) ∧ [sep].intercalate parts = cs

theorem isSplit_iff {sep : Char} {cs : List Char} {parts : List (List Char)} :
    IsSplit sep cs parts ↔ pieces (· == sep) cs = parts := by
  constructor
  · rintro ⟨hNe, hParts, rfl⟩
    refine pieces_intercalate (beq_self_eq_true sep) hNe ?_
    intro part hPart c hc
    rw [beq_eq_false_iff_ne]
    rintro rfl
    exact hParts part hPart hc
  · rintro rfl
    refine ⟨pieces_ne_nil _ cs, ?_, intercalate_pieces sep cs⟩
    intro part hPart hMem
    have hNot := not_isSep_of_mem_pieces hPart sep hMem
    rw [beq_self_eq_true] at hNot
    cases hNot

/-! ## At blanks -/

/-- Joined words are cut apart again. -/
theorem words_intercalate {sep : Char} {parts : List (List Char)} (hSep : isBlank sep = true)
    (hNe : parts ≠ []) (h : ∀ part ∈ parts, part ≠ [] ∧ ∀ c ∈ part, isBlank c = false) :
    words ([sep].intercalate parts) = parts := by
  rw [words, pieces_intercalate hSep hNe fun part hPart => (h part hPart).2]
  apply List.filter_eq_self.2
  intro part hPart
  have hFull := (h part hPart).1
  rw [Bool.not_eq_true', List.isEmpty_eq_false_iff]
  exact hFull

/-- A run of blanks, maybe of none. -/
def IsGap (cs : List Char) : Prop := ∀ c ∈ cs, isBlank c = true

/-- A run of characters that are not blank, of one at least. -/
def IsWord (cs : List Char) : Prop := cs ≠ [] ∧ ∀ c ∈ cs, isBlank c = false

/-- Parts with blanks between each and the next. -/
inductive Joined : List (List Char) → List Char → Prop where
  | nil : Joined [] []
  | single (part : List Char) : Joined [part] part
  | cons {part gap next rest : List Char} {more : List (List Char)} (hNe : gap ≠ [])
      (hGap : IsGap gap) (hRest : Joined (next :: more) rest) :
      Joined (part :: next :: more) (part ++ gap ++ rest)

/-- Parts with blanks between them, and maybe around them. -/
def Spaced (cs : List Char) (parts : List (List Char)) : Prop :=
  ∃ lead body trail, IsGap lead ∧ IsGap trail ∧ Joined parts body ∧ cs = lead ++ body ++ trail

/-- A text has words, each of them as long as can be, since it ends where the text
does or where a blank comes. -/
def HasWords (cs : List Char) (parts : List (List Char)) : Prop :=
  (∀ part ∈ parts, IsWord part) ∧ Spaced cs parts

theorem words_gap_append {gap : List Char} (h : IsGap gap) (cs : List Char) :
    words (gap ++ cs) = words cs := by
  induction gap with
  | nil => rfl
  | cons c rest ih =>
      obtain ⟨hBlank, hRest⟩ := List.forall_mem_cons.1 h
      rw [List.cons_append, words, pieces, if_pos hBlank,
        List.filter_cons_of_neg (by simp)]
      exact ih hRest

theorem words_word_append {word gap : List Char} (h : IsWord word) (hNe : gap ≠ [])
    (hGap : IsGap gap) (rest : List Char) :
    words (word ++ gap ++ rest) = word :: words rest := by
  obtain ⟨c, more, rfl⟩ := List.exists_cons_of_ne_nil hNe
  obtain ⟨hBlank, hMore⟩ := List.forall_mem_cons.1 hGap
  rw [List.append_assoc, List.cons_append, words, pieces_append_cons hBlank h.2,
    List.filter_cons_of_pos (by simp [h.1])]
  exact congrArg (word :: ·) (words_gap_append hMore rest)

theorem words_word {word : List Char} (h : IsWord word) : words word = [word] := by
  rw [words, pieces_of_not_isSep h.2]
  simp [h.1]

theorem words_joined_append {parts : List (List Char)} {body trail : List Char}
    (h : Joined parts body) (hWords : ∀ part ∈ parts, IsWord part) (hTrail : IsGap trail) :
    words (body ++ trail) = parts := by
  have hEnd : words trail = [] := by
    have hNil := words_gap_append hTrail []
    rw [List.append_nil] at hNil
    exact hNil
  induction h with
  | nil => exact hEnd
  | single part =>
      have hWord := hWords part List.mem_cons_self
      by_cases hNe : trail = []
      · rw [hNe, List.append_nil, words_word hWord]
      · have hPart := words_word_append hWord hNe hTrail []
        rw [List.append_nil] at hPart
        exact hPart
  | cons hNe hGap _ ih =>
      obtain ⟨hWord, hRest⟩ := List.forall_mem_cons.1 hWords
      rw [List.append_assoc, words_word_append hWord hNe hGap, ih hRest]

/-- A character put before a text that begins with a part goes to this part. -/
theorem Joined.push {first body : List Char} {more : List (List Char)}
    (h : Joined (first :: more) body) (c : Char) : Joined ((c :: first) :: more) (c :: body) := by
  cases h with
  | single => exact .single (c :: first)
  | cons hNe hGap hRest => exact .cons hNe hGap hRest

/-- Every text has words.  A blank goes to what comes before them; any other character
goes to the first word if there is no blank between, and is a word of its own
otherwise. -/
theorem exists_hasWords (cs : List Char) : ∃ parts, HasWords cs parts := by
  induction cs with
  | nil => exact ⟨[], by simp, [], [], [], by simp [IsGap], by simp [IsGap], .nil, rfl⟩
  | cons c rest ih =>
      obtain ⟨parts, hWords, lead, body, trail, hLead, hTrail, hJoined, rfl⟩ := ih
      by_cases hBlank : isBlank c = true
      · exact ⟨parts, hWords, c :: lead, body, trail, List.forall_mem_cons.2 ⟨hBlank, hLead⟩,
          hTrail, hJoined, rfl⟩
      · rw [Bool.not_eq_true] at hBlank
        have hWord : IsWord [c] := by simpa [IsWord] using hBlank
        have hNil : IsGap [] := by simp [IsGap]
        cases parts with
        | nil =>
            cases hJoined
            have hAround : IsGap (lead ++ [] ++ trail) := by
              simpa [IsGap, or_imp, forall_and] using ⟨hLead, hTrail⟩
            exact ⟨[[c]], by simpa using hWord, [], [c], _, hNil, hAround, .single [c], rfl⟩
        | cons first more =>
            by_cases hNe : lead = []
            · obtain ⟨hFirst, hMore⟩ := List.forall_mem_cons.1 hWords
              have hLonger : IsWord (c :: first) :=
                ⟨List.cons_ne_nil c first, List.forall_mem_cons.2 ⟨hBlank, hFirst.2⟩⟩
              exact ⟨(c :: first) :: more, List.forall_mem_cons.2 ⟨hLonger, hMore⟩, [],
                c :: body, trail, hNil, hTrail, hJoined.push c, by rw [hNe]; rfl⟩
            · exact ⟨[c] :: first :: more, List.forall_mem_cons.2 ⟨hWord, hWords⟩, [],
                [c] ++ lead ++ body, trail, hNil, hTrail, .cons hNe hLead hJoined, rfl⟩

theorem hasWords_iff {cs : List Char} {parts : List (List Char)} :
    HasWords cs parts ↔ words cs = parts := by
  have hUnique {found : List (List Char)} (h : HasWords cs found) : words cs = found := by
    obtain ⟨hWords, lead, body, trail, hLead, hTrail, hJoined, rfl⟩ := h
    rw [List.append_assoc, words_gap_append hLead, words_joined_append hJoined hWords hTrail]
  constructor
  · exact hUnique
  · rintro rfl
    obtain ⟨found, hFound⟩ := exists_hasWords cs
    rw [hUnique hFound]
    exact hFound

end Cron.Text
