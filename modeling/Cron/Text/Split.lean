import Cron.Text.Blank

/-!
# Cutting text into parts

Three ways to cut: into all pieces between separators (`pieces`), at the first
separator only (`cut?`), and into the words between blanks (`words`).

## Main results

* `pieces_ne_nil` — there is always a piece, the empty text being one.
* `cut?_eq_some` — a cut loses the separator alone, and the part before it
  holds none.
-/

namespace Cron.Text

/-! ## All pieces -/

/-- The pieces of a text between its separators, empty ones included. -/
def pieces (isSep : Char → Bool) : List Char → List (List Char)
  | [] => [[]]
  | c :: rest =>
      if isSep c then [] :: pieces isSep rest
      else
        match pieces isSep rest with
        | [] => [[c]]
        | piece :: more => (c :: piece) :: more

theorem pieces_ne_nil (isSep : Char → Bool) (cs : List Char) : pieces isSep cs ≠ [] := by
  cases cs with
  | nil => simp [pieces]
  | cons c rest =>
      rw [pieces]
      split
      · simp
      · split <;> simp

/-- No piece holds a separator. -/
theorem not_isSep_of_mem_pieces {isSep : Char → Bool} {cs piece : List Char}
    (h : piece ∈ pieces isSep cs) : ∀ c ∈ piece, isSep c = false := by
  induction cs generalizing piece with
  | nil => simp_all [pieces]
  | cons c rest ih =>
      rw [pieces] at h
      split at h
      · rcases List.mem_cons.1 h with rfl | h
        · simp
        · exact ih h
      · split at h
        · simp_all
        · rename_i first more hPieces
          rcases List.mem_cons.1 h with rfl | h
          · intro d hd
            rcases List.mem_cons.1 hd with rfl | hd
            · simp_all
            · exact ih (by simp [hPieces]) d hd
          · exact ih (by simp [hPieces, h])

/-! ## The first separator -/

/-- The text before and after the first `sep`, or `none` if there is no `sep`. -/
def cut? (sep : Char) : List Char → Option (List Char × List Char)
  | [] => none
  | c :: rest =>
      if c = sep then some ([], rest)
      else (cut? sep rest).map fun (before, after) => (c :: before, after)

theorem cut?_eq_none_iff (sep : Char) (cs : List Char) : cut? sep cs = none ↔ sep ∉ cs := by
  induction cs with
  | nil => simp [cut?]
  | cons c rest ih =>
      by_cases h : c = sep
      · simp [cut?, h]
      · simp [cut?, h, ih, Ne.symm h]

theorem cut?_eq_some {sep : Char} {cs before after : List Char}
    (h : cut? sep cs = some (before, after)) :
    cs = before ++ sep :: after ∧ sep ∉ before := by
  induction cs generalizing before with
  | nil => simp [cut?] at h
  | cons c rest ih =>
      by_cases hc : c = sep
      · simp only [cut?, hc, if_true, Option.some.injEq, Prod.mk.injEq] at h
        obtain ⟨rfl, rfl⟩ := h
        simp [hc]
      · simp only [cut?, hc, if_false, Option.map_eq_some_iff, Prod.exists, Prod.mk.injEq] at h
        obtain ⟨b, a, hCut, rfl, rfl⟩ := h
        obtain ⟨rfl, hNotMem⟩ := ih hCut
        simp [hNotMem, Ne.symm hc]

/-! ## Words -/

/-- The maximal runs of characters that are not blank. -/
def words (cs : List Char) : List (List Char) :=
  (pieces isBlank cs).filter fun piece => !piece.isEmpty

end Cron.Text
