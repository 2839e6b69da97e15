/-!
# Ascending lists

A list of values kept in strictly ascending order of a comparison, so that
each value occurs once.  A pattern stores its items this way, which is what
makes two texts that list the same items equal once they are read.

The comparison is an argument and not an instance: the items of a pattern are
ordered by their first value, which is not the order of patterns themselves.

## Main results

* `mem_insert`, `mem_ofList` — nothing is lost and nothing is added, as long
  as the comparison answers `.eq` for equal values only.
-/

namespace Cron.Ascending

/-! ## Building -/

/-- Puts `a` before the first larger value.  A value that is already there is
not put in again. -/
def insert {α : Type} (cmp : α → α → Ordering) (a : α) : List α → List α
  | [] => [a]
  | b :: rest =>
      match cmp a b with
      | .lt => a :: b :: rest
      | .eq => b :: rest
      | .gt => b :: insert cmp a rest

/-- The values of a list, each once, in ascending order. -/
def ofList {α : Type} (cmp : α → α → Ordering) (as : List α) : List α :=
  as.foldr (insert cmp) []

/-! ## Membership -/

theorem mem_insert {α : Type} {cmp : α → α → Ordering}
    (hCmp : ∀ a b, cmp a b = .eq → a = b) (x a : α) (l : List α) :
    x ∈ insert cmp a l ↔ x = a ∨ x ∈ l := by
  induction l with
  | nil => simp [insert]
  | cons b rest ih =>
      rw [insert]
      cases h : cmp a b with
      | lt => simp
      | eq => obtain rfl := hCmp a b h; simp
      | gt => simp only [List.mem_cons, ih]; exact or_left_comm

theorem mem_ofList {α : Type} {cmp : α → α → Ordering}
    (hCmp : ∀ a b, cmp a b = .eq → a = b) (x : α) (as : List α) :
    x ∈ ofList cmp as ↔ x ∈ as := by
  induction as with
  | nil => simp [ofList]
  | cons a rest ih =>
      have hStep : ofList cmp (a :: rest) = insert cmp a (ofList cmp rest) := rfl
      rw [hStep, mem_insert hCmp, ih, List.mem_cons]

end Cron.Ascending
