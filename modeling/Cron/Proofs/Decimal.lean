import Cron.Text.Decimal

/-!
# Numbers read back

Reading folds the digits into a number that is cut off at a ceiling after
every digit.  Cutting off only at the end gives the same: once the number is
past the ceiling, further digits keep it there.  So a run of digits reads as
its value, as far as the ceiling, and the digits written for a number are a
run of that value.

## Main results

* `read?_of_isDigit` — a nonempty run of digits reads as its value, cut off at
  the ceiling.
* `read?_eq_some_iff` — and nothing else is read.
* `isNumeral_write` — the digits of a number stand for it.
-/

namespace Cron.Text.Decimal

/-! ## Reading digits -/

/-- A digit put behind a number that was cut off early. -/
private theorem push_min (n : Nat) (c : Char) :
    push (min n ceiling) c = min (10 * n + (c.toNat - '0'.toNat)) ceiling := by
  rw [push]
  have hCeiling : 0 < ceiling := by decide
  omega

theorem foldl_push_min (cs : List Char) (n : Nat) :
    cs.foldl push (min n ceiling) = min (Nat.ofDigitChars 10 cs n) ceiling := by
  induction cs generalizing n with
  | nil => rw [Nat.ofDigitChars_nil, List.foldl_nil]
  | cons c rest ih => rw [List.foldl_cons, push_min, ih, Nat.ofDigitChars_cons]

theorem read?_of_isDigit {cs : List Char} (hNe : cs ≠ []) (hDigits : ∀ c ∈ cs, c.isDigit) :
    read? cs = some (min (Nat.ofDigitChars 10 cs 0) ceiling) := by
  have hRun : cs ≠ [] ∧ cs.all Char.isDigit := ⟨hNe, List.all_eq_true.2 hDigits⟩
  rw [read?, if_pos hRun]
  exact congrArg some (foldl_push_min cs 0)

/-- A text that stands for a number: a nonempty run of digits, of any length
and with any number of leading zeros. -/
def IsNumeral (cs : List Char) (n : Nat) : Prop :=
  cs ≠ [] ∧ (∀ c ∈ cs, c.isDigit) ∧ Nat.ofDigitChars 10 cs 0 = n

theorem IsNumeral.not_mem {cs : List Char} {n : Nat} (h : IsNumeral cs n) {c : Char}
    (hNot : c.isDigit = false) : c ∉ cs := by
  intro hMem
  rw [h.2.1 c hMem] at hNot
  cases hNot

/-- What is read are the numerals, and numbers above the ceiling as the ceiling. -/
theorem read?_eq_some_iff {cs : List Char} {n : Nat} :
    read? cs = some n ↔ ∃ k, IsNumeral cs k ∧ n = min k ceiling := by
  constructor
  · intro h
    have hRun : cs ≠ [] ∧ ∀ c ∈ cs, c.isDigit := by
      rw [read?] at h
      split at h
      · rename_i hRun
        exact ⟨hRun.1, List.all_eq_true.1 hRun.2⟩
      · cases h
    rw [read?_of_isDigit hRun.1 hRun.2] at h
    exact ⟨_, ⟨hRun.1, hRun.2, rfl⟩, (Option.some.inj h).symm⟩
  · rintro ⟨k, ⟨hNe, hDigits, rfl⟩, rfl⟩
    exact read?_of_isDigit hNe hDigits

/-! ## Digits written -/

theorem write_ne_nil (n : Nat) : write n ≠ [] := Nat.toDigits_ne_nil

theorem isDigit_of_mem_write {n : Nat} {c : Char} (h : c ∈ write n) : c.isDigit :=
  Nat.isDigit_of_mem_toDigits (by decide) (by decide) h

theorem isNumeral_write (n : Nat) : IsNumeral (write n) n :=
  ⟨write_ne_nil n, fun _ => isDigit_of_mem_write, Nat.ofDigitChars_ten_toDigits⟩

end Cron.Text.Decimal
