/-!
# Decimal numbers

Numbers are written with ASCII digits, without a sign.  Reading accepts any
length and leading zeros; a value above `ceiling` reads as `ceiling`, which
lies outside the bounds of every field.  So a number of any length can be
reported, and none is ever mistaken for a small one.

## Main results

* `read?_eq_none_iff` — what is rejected: the empty text, and any text that
  has a character other than `0`–`9`.
-/

namespace Cron.Text.Decimal

/-! ## Reading -/

/-- The largest number that is told apart from the ones above it, `2 ^ 32 - 1`. -/
def ceiling : Nat := 4294967295

/-- The number `n` with the digit `c` appended, cut off at `ceiling`. -/
def push (n : Nat) (c : Char) : Nat := min (10 * n + (c.toNat - '0'.toNat)) ceiling

/-- Reads a number.  Anything but a nonempty run of ASCII digits is refused. -/
def read? (cs : List Char) : Option Nat :=
  if cs ≠ [] ∧ cs.all Char.isDigit then some (cs.foldl push 0) else none

theorem read?_eq_none_iff (cs : List Char) :
    read? cs = none ↔ cs = [] ∨ ∃ c ∈ cs, c.isDigit = false := by
  rw [read?]
  split
  · rename_i hDigits
    refine iff_of_false (by simp) ?_
    rintro (rfl | ⟨c, hMem, hOther⟩)
    · exact hDigits.1 rfl
    · simp [List.all_eq_true.1 hDigits.2 c hMem] at hOther
  · rename_i hOther
    refine iff_of_true rfl ?_
    by_cases hEmpty : cs = []
    · exact .inl hEmpty
    · exact .inr (by simpa [hEmpty] using hOther)

/-! ## Writing -/

/-- The digits of a number, without leading zeros; zero is `0`. -/
def write (n : Nat) : List Char := Nat.toDigits 10 n

/-- The digits of a number as a string. -/
def text (n : Nat) : String := String.ofList (write n)

/-- The digits of a number, filled up with zeros on the left to a width. -/
def writePadded (width n : Nat) : List Char :=
  let digits := write n
  List.replicate (width - digits.length) '0' ++ digits

end Cron.Text.Decimal
