import Cron.Interchange.Double
import Cron.Schedule.Basic

/-!
# Schedules in interchange formats

In a data format a schedule is a string, its canonical expression.  Only a
valid schedule is written, while any expression is read; a value of another
type is refused with a description of what was found.
-/

namespace Cron.Interchange

/-- A value of a data format, as far as a refusal describes it. -/
inductive Datum where
  | null
  | boolean (b : Bool)
  | integer (n : Int)
  /-- A number with a point or an exponent. -/
  | real (negative : Bool) (magnitude : Numeral)
  | string (s : String)
  | sequence
  | map
deriving DecidableEq

namespace Datum

/-- A number that is written without a point and an exponent.  Outside 64 bits it is kept in
double precision, and so is a zero with a sign. -/
def ofInteger (negative : Bool) (digits : Nat) : Datum :=
  if negative then
    if 0 < digits ∧ digits ≤ 9223372036854775808 then integer (-digits)
    else real true ⟨digits, 0⟩
  else if digits < 18446744073709551616 then integer digits
  else real false ⟨digits, 0⟩

/-- What a value is, and which one if it is a truth value or a number. -/
def describe : Datum → String
  | null => "null"
  | boolean b => "boolean `" ++ (if b then "true" else "false") ++ "`"
  | integer n =>
      "integer `" ++ (if n < 0 then "-" else "") ++ Text.Decimal.text n.natAbs ++ "`"
  | real negative magnitude =>
      "floating point `" ++ (if negative then "-" else "") ++
        String.ofList (Double.ofNumeral magnitude).text ++ "`"
  | string s => "string " ++ String.ofList (Text.Quoted.quote s.toList)
  | sequence => "sequence"
  | map => "map"

end Datum

/-- Why a value is no schedule. -/
inductive ReadError where
  | wrongType (found : Datum)
  | invalid (error : Error)
deriving DecidableEq

/-- The message of a refusal. -/
def ReadError.message : ReadError → String
  | wrongType found => "invalid type: " ++ found.describe ++ ", expected a string"
  | invalid error => error.message

/-- Reads a schedule. -/
def read : Datum → Except ReadError Schedule
  | .string s => (Schedule.parse s).mapError .invalid
  | found => .error (.wrongType found)

/-- Writes a valid schedule. -/
def write (s : Schedule) : Except Error Datum := s.toExpression.map .string

end Cron.Interchange
