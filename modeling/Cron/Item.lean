import Cron.Text.Decimal
import Cron.Text.Split

/-!
# Items

The text of a field is a list of items between commas.  An item is `*`, a
number, a range `a-b`, or a step `*/n` or `a/n`.  Reading one looks at its form
only: the numbers may be any, and whether a field allows them is decided later
(`Pattern.ofItem`).

A dash decides before a slash does, so `1-5/2` is a range whose second part is
not a number, and no item at all.

## Main results

* `read?_star` — a lone `*` is the item of all values.
-/

namespace Cron

/-- An item of a field, as it is written. -/
inductive Item where
  | all
  | value (n : Nat)
  | range (first last : Nat)
  /-- Every `interval` values, counted from the anchor, or from zero if it is `*`. -/
  | step (anchor : Option Nat) (interval : Nat)
deriving DecidableEq, Repr

namespace Item

open Text

/-- The text of the item that matches every value. -/
def star : List Char := ['*']

/-- Reads the anchor of a step: `*` or a number. -/
def readAnchor? (cs : List Char) : Option (Option Nat) :=
  if cs = star then some none else (Decimal.read? cs).map some

/-- Reads an item; `none` if the text has not the form of one. -/
def read? (cs : List Char) : Option Item :=
  if cs = star then some .all
  else
    match cut? '-' cs with
    | some (first, last) => do
        let first ← Decimal.read? first
        let last ← Decimal.read? last
        return .range first last
    | none =>
        match cut? '/' cs with
        | some (anchor, interval) => do
            let anchor ← readAnchor? anchor
            let interval ← Decimal.read? interval
            return .step anchor interval
        | none => (Decimal.read? cs).map .value

/-- Whether a text is a step by its separators, well formed or not. -/
def isStepLike (cs : List Char) : Bool := (cut? '-' cs).isNone && (cut? '/' cs).isSome

theorem read?_star : read? star = some .all := if_pos rfl

end Item

end Cron
