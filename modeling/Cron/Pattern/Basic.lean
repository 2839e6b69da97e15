import Cron.Text.Decimal

/-!
# Patterns

A pattern says which values of a field match: all of them, one, a range, a
step or those of a list of patterns.  The type allows more than a text can
express — lists inside lists, ranges that end before they start, steps of
zero — and every definition covers these too.

A step of zero has no remainder to look at, so testing a value against it is
a fault.  A list is tested from left to right and stops at the first item that
matches, which keeps a fault behind it from showing.

## Main results

* `test_list_append` — testing a list in two parts.
-/

namespace Cron

/-- Which values of a field match. -/
inductive Pattern where
  | all
  | value (v : UInt8)
  /-- The values from `first` to `last`, both included. -/
  | range (first last : UInt8)
  /-- The values at whole multiples of `interval` from the anchor, before it as
  well as after; without an anchor, from zero. -/
  | step (anchor : Option UInt8) (interval : UInt8)
  | list (items : List Pattern)

namespace Pattern

instance : Inhabited Pattern := ⟨all⟩

/-- The value of a pattern that is a single explicit one. -/
def value? : Pattern → Option UInt8
  | value v => some v
  | _ => none

/-! ## Testing a value -/

/-- Why a value cannot be tested. -/
inductive Fault where
  /-- The interval of a step is zero. -/
  | zeroDivisor
deriving DecidableEq, Repr

/-- The message of a fault. -/
def Fault.message : Fault → String
  | zeroDivisor => "attempt to calculate the remainder with a divisor of zero"

/-- How far a value lies beyond the anchor of a step. -/
def offset (anchor : Option UInt8) (v : Nat) : Int :=
  v - (match anchor with | some a => a.toNat | none => 0 : Nat)

mutual

/-- Whether a value matches. -/
def test : Pattern → Nat → Except Fault Bool
  | all, _ => .ok true
  | value x, v => .ok (v == x.toNat)
  | range first last, v => .ok (first.toNat ≤ v && v ≤ last.toNat)
  | step anchor interval, v =>
      if interval = 0 then .error .zeroDivisor
      else .ok (offset anchor v % interval.toNat == 0)
  | list items, v => testItems items v

/-- Whether a value matches an item of a list, tried from the left. -/
def testItems : List Pattern → Nat → Except Fault Bool
  | [], _ => .ok false
  | p :: rest, v =>
      match test p v with
      | .ok true => .ok true
      | .ok false => testItems rest v
      | .error fault => .error fault

end

/-- A value matches, and finding out meets no fault. -/
def accepts (p : Pattern) (v : Nat) : Bool :=
  match p.test v with
  | .ok b => b
  | .error _ => false

theorem test_list_append (ps qs : List Pattern) (v : Nat) :
    (list (ps ++ qs)).test v =
      match (list ps).test v with
      | .ok false => (list qs).test v
      | outcome => outcome := by
  simp only [test]
  induction ps with
  | nil => rfl
  | cons p rest ih =>
      simp only [List.cons_append, testItems]
      cases p.test v with
      | error fault => rfl
      | ok b => cases b with
        | false => exact ih
        | true => rfl

/-! ## Text -/

mutual

/-- The characters of a pattern. -/
def chars : Pattern → List Char
  | all => ['*']
  | value v => Text.Decimal.write v.toNat
  | range first last => Text.Decimal.write first.toNat ++ '-' :: Text.Decimal.write last.toNat
  | step none interval => '*' :: '/' :: Text.Decimal.write interval.toNat
  | step (some anchor) interval =>
      Text.Decimal.write anchor.toNat ++ '/' :: Text.Decimal.write interval.toNat
  | list items => joined items

/-- The characters of the items of a list, with commas between them. -/
def joined : List Pattern → List Char
  | [] => []
  | [p] => chars p
  | p :: q :: rest => chars p ++ ',' :: joined (q :: rest)

end

/-- The text of a pattern. -/
def text (p : Pattern) : String := String.ofList p.chars

end Pattern

end Cron
