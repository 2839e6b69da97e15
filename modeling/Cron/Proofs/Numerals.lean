import Cron.Pattern.Parse
import Cron.Proofs.Decimal
import Mathlib.Algebra.Group.Nat.Defs

/-!
# Numbers of any length

A number is read from the left, one digit after the other, and cut off at a
ceiling each time.  What a run of digits means is said here from its other end:
a digit counts as many times ten as there are digits behind it (`placeValue`).
Both give the same number up to the ceiling, however long the run is and
however many zeros it starts with.

Digits are a question of characters here.  A program that looks at the bytes of
a text gets the same answer, since every byte of a character outside ASCII is
above all digits.

The numbers of a field fit a byte.  One that a field accepts lies far below the
ceiling, so it was not cut off when it was read, and it is not cut off when it
is narrowed to a byte.

## Main results

* `ofDigitChars_eq_placeValue` — reading from the left against the value of the
  places.
* `forall_mem_toUTF8_iff` — digits by their bytes and by their characters.
* `narrow_eq_ok_iff` — what narrowing accepts, and the byte it gives.
* `read?_iff_digits` — which texts are read, the number that each of them gives,
  and what is left of it in a field.
-/

namespace Cron

namespace Text.Decimal

/-! ## The value of the places -/

/-- The number that a run of digits stands for. -/
def placeValue : List Char → Nat
  | [] => 0
  | c :: rest => (c.toNat - '0'.toNat) * 10 ^ rest.length + placeValue rest

theorem ofDigitChars_eq_placeValue (cs : List Char) :
    Nat.ofDigitChars 10 cs 0 = placeValue cs := by
  induction cs with
  | nil => rfl
  | cons c rest ih =>
      rw [Nat.ofDigitChars_cons, Nat.ofDigitChars_eq_ofDigitChars_zero, ih, placeValue,
        Nat.mul_zero, Nat.zero_add, Nat.mul_comm]

theorem read?_eq_some_iff_placeValue {cs : List Char} {n : Nat} :
    read? cs = some n ↔
      cs ≠ [] ∧ (∀ c ∈ cs, c.isDigit) ∧ n = min (placeValue cs) ceiling := by
  rw [read?_eq_some_iff]
  constructor
  · rintro ⟨k, ⟨hNe, hDigits, rfl⟩, rfl⟩
    rw [ofDigitChars_eq_placeValue]
    exact ⟨hNe, hDigits, rfl⟩
  · intro ⟨hNe, hDigits, hEq⟩
    exact ⟨_, ⟨hNe, hDigits, ofDigitChars_eq_placeValue cs⟩, hEq⟩

/-- Zeros in front of a numeral leave its number as it is. -/
theorem IsNumeral.replicate_zero_append {cs : List Char} {n : Nat} (h : IsNumeral cs n)
    (k : Nat) : IsNumeral (List.replicate k '0' ++ cs) n := by
  obtain ⟨hNe, hDigits, hValue⟩ := h
  refine ⟨List.append_ne_nil_of_right_ne_nil _ hNe, ?_, ?_⟩
  · intro c hc
    rcases List.mem_append.1 hc with hZero | hDigit
    · rw [List.eq_of_mem_replicate hZero]
      rfl
    · exact hDigits c hDigit
  · rw [Nat.ofDigitChars_append, Nat.ofDigitChars_replicate_zero, Nat.mul_zero, hValue]

theorem read?_replicate_zero_append_write {n : Nat} (h : n ≤ ceiling) (k : Nat) :
    read? (List.replicate k '0' ++ write n) = some n :=
  read?_eq_some_iff.2
    ⟨n, (isNumeral_write n).replicate_zero_append k, (Nat.min_eq_left h).symm⟩

/-! ## Digits by their bytes -/

/-- The byte of an ASCII digit. -/
def IsDigitByte (b : UInt8) : Prop := 48 ≤ b.toNat ∧ b.toNat ≤ 57

theorem isDigit_iff (c : Char) : c.isDigit ↔ 48 ≤ c.val.toNat ∧ c.val.toNat ≤ 57 := by
  simp only [Char.isDigit, Bool.and_eq_true, decide_eq_true_eq, ge_iff_le,
    UInt32.le_iff_toNat_le]
  rfl

/-- A character beyond ASCII starts with a byte that is no digit. -/
theorem forall_mem_utf8EncodeChar_iff (c : Char) :
    (∀ b ∈ String.utf8EncodeChar c, IsDigitByte b) ↔ c.isDigit := by
  rw [isDigit_iff]
  unfold String.utf8EncodeChar IsDigitByte
  dsimp only
  split
  · simp only [List.mem_singleton, forall_eq, UInt8.toNat_ofNat']
    omega
  · split
    · simp only [List.forall_mem_cons, UInt8.toNat_ofNat']
      omega
    · split
      · simp only [List.forall_mem_cons, UInt8.toNat_ofNat']
        omega
      · simp only [List.forall_mem_cons, UInt8.toNat_ofNat']
        omega

theorem forall_mem_toUTF8_iff (s : String) :
    (∀ b ∈ s.toUTF8.data, IsDigitByte b) ↔ ∀ c ∈ s.toList, c.isDigit := by
  have hBytes : s.toUTF8.data.toList = s.toList.flatMap String.utf8EncodeChar := by
    rw [String.toUTF8_eq_toByteArray, ← String.utf8Encode_toList]
    exact List.toList_data_toByteArray
  simp only [← Array.mem_toList_iff, hBytes, List.mem_flatMap, ← forall_mem_utf8EncodeChar_iff]
  constructor
  · intro h c hc b hb
    exact h b ⟨c, hc, hb⟩
  · intro h b ⟨c, hc, hb⟩
    exact h c hc b hb

end Text.Decimal

/-! ## Narrowing to a byte -/

namespace Pattern

theorem narrow_eq_ok_iff {f : Field} {n : Nat} {v : UInt8} :
    narrow f n = .ok v ↔ (f.min ≤ n ∧ n ≤ f.max) ∧ v.toNat = n := by
  constructor
  · intro h
    obtain ⟨hValue, hBounds⟩ := toNat_of_narrow h
    exact ⟨hBounds, hValue⟩
  · intro ⟨hBounds, hValue⟩
    rw [narrow, if_pos hBounds, ← hValue, UInt8.ofNat_toNat]

end Pattern

namespace Text.Decimal

/-- A number that a field accepts was not cut off. -/
theorem eq_placeValue_of_narrow {f : Field} {cs : List Char} {n : Nat} {v : UInt8}
    (hRead : read? cs = some n) (hNarrow : Pattern.narrow f n = .ok v) :
    v.toNat = n ∧ n = placeValue cs := by
  obtain ⟨⟨-, hMax⟩, hValue⟩ := Pattern.narrow_eq_ok_iff.1 hNarrow
  obtain ⟨-, -, hCut⟩ := read?_eq_some_iff_placeValue.1 hRead
  have hByte := f.max_lt
  have hCeiling : 256 ≤ ceiling := by decide
  exact ⟨hValue, by omega⟩

/-- A text is read exactly if it is not empty and holds nothing but ASCII digits, by
its characters as well as by its bytes; the number is the decimal value of the
text, cut off at the largest number of 32 bits.  So every such number is read
back from its digits with any zeros in front.  A field accepts the numbers
within its bounds, and the byte that it makes of one that was read is the
decimal value of the text. -/
theorem read?_iff_digits :
    (∀ s : String,
      ((∃ n, read? s.toList = some n) ↔ s ≠ "" ∧ ∀ c ∈ s.toList, c.isDigit) ∧
      ((∃ n, read? s.toList = some n) ↔ s ≠ "" ∧ ∀ b ∈ s.toUTF8.data, IsDigitByte b) ∧
      ∀ n, read? s.toList = some n → n = min (placeValue s.toList) (2 ^ 32 - 1)) ∧
    (∀ (n : UInt32) (k : Nat),
      read? (List.replicate k '0' ++ write n.toNat) = some n.toNat) ∧
    (∀ (f : Field) (n : Nat) (v : UInt8),
      Pattern.narrow f n = .ok v ↔ (f.min ≤ n ∧ n ≤ f.max) ∧ v.toNat = n) ∧
    ∀ (f : Field) (s : String) (n : Nat) (v : UInt8), read? s.toList = some n →
      Pattern.narrow f n = .ok v → v.toNat = n ∧ n = placeValue s.toList := by
  have hReads (s : String) :
      (∃ n, read? s.toList = some n) ↔ s ≠ "" ∧ ∀ c ∈ s.toList, c.isDigit := by
    simp only [read?_eq_some_iff_placeValue, exists_and_left, exists_eq, and_true, ne_eq,
      String.toList_eq_nil_iff]
  refine ⟨fun s => ⟨hReads s, ?_, fun n hRead => ?_⟩, fun n k => ?_,
    fun f n v => Pattern.narrow_eq_ok_iff,
    fun f s n v hRead hNarrow => eq_placeValue_of_narrow hRead hNarrow⟩
  · rw [forall_mem_toUTF8_iff]
    exact hReads s
  · exact (read?_eq_some_iff_placeValue.1 hRead).2.2
  · exact read?_replicate_zero_append_write (Nat.le_of_lt_succ n.toNat_lt) k

/-- Past the ceiling, zeros in front do not matter either. -/
example : read? "0004294967296".toList = some 4294967295 := by decide +kernel

end Text.Decimal

end Cron
