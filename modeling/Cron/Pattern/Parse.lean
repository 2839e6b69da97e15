import Cron.Ascending
import Cron.Error
import Cron.Item
import Cron.Pattern.Order

/-!
# Reading the text of a field

The items between the commas are read from left to right; the first that the
field refuses decides the error.  The items read are then arranged in ascending
order without repetition, and a single one is no list.

An item is refused, in this order, because the field has no steps, because of
its form, because of a number out of bounds, and because its numbers make an
empty range or a step of zero.

## Main results

* `toNat_of_narrow` — narrowing a number of the field keeps its value.
-/

namespace Cron.Pattern

/-! ## Numbers -/

/-- A number within the field's bounds, as a value. -/
def narrow (f : Field) (n : Nat) : Except Error UInt8 :=
  if f.min ≤ n ∧ n ≤ f.max then .ok (UInt8.ofNat n) else .error (.outOfRange f n f.min f.max)

theorem toNat_of_narrow {f : Field} {n : Nat} {v : UInt8} (h : narrow f n = .ok v) :
    v.toNat = n ∧ f.min ≤ n ∧ n ≤ f.max := by
  rw [narrow] at h
  split at h
  · rename_i hBounds
    cases h
    have hByte := f.max_lt
    exact ⟨by simp only [UInt8.toNat_ofNat']; omega, hBounds⟩
  · cases h

/-! ## Items -/

/-- The pattern of an item whose numbers suit the field. -/
def ofItem (f : Field) : Item → Except Error Pattern
  | .all => .ok all
  | .value n => do return value (← narrow f n)
  | .range a b => do
      let first ← narrow f a
      let last ← narrow f b
      if a < b then return range first last else throw (.emptyRange f a b)
  | .step anchor n => do
      let anchor ← anchor.mapM (narrow f)
      let interval ← narrow f n
      if n = 0 then throw (.zeroInterval f n) else return step anchor interval

/-- Reads one item.  The day of the week has no steps, whatever is around the
slash. -/
def parseItem (f : Field) (cs : List Char) : Except Error Pattern :=
  if f = .dayOfWeek ∧ Item.isStepLike cs then .error (.stepUnsupported f)
  else
    match Item.read? cs with
    | some item => ofItem f item
    | none => .error (.malformed f (String.ofList cs))

/-! ## Lists -/

/-- The pattern of the items read: a single item stands for itself. -/
def ofItems (items : List Pattern) : Pattern :=
  match Ascending.ofList listOrder items with
  | [p] => p
  | ps => list ps

/-- Reads the characters of a field. -/
def parseChars (f : Field) (cs : List Char) : Except Error Pattern := do
  return ofItems (← (Text.pieces (· == ',') cs).mapM (parseItem f))

/-- Reads the text of a field. -/
def parse (f : Field) (text : String) : Except Error Pattern := parseChars f text.toList

/-- Checks that the text of a field can be read. -/
def validate (f : Field) (text : String) : Except Error Unit := (parse f text).map fun _ => ()

end Cron.Pattern
