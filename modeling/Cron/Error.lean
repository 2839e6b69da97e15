import Cron.Calendar.DateTime
import Cron.Field
import Cron.Text.Quoted

/-!
# Errors

What can be wrong with an expression, a field or a search, by cause.  Each
cause carries what its message mentions, and belongs to one of four kinds,
which tell malformed text from well-formed text that means nothing.
-/

namespace Cron

open Calendar

/-- Why a text, a schedule or a search was refused. -/
inductive Error where
  /-- An expression that has another number of fields than five. -/
  | fieldCount (found : Nat)
  /-- An item that is no item by its form. -/
  | malformed (field : Field) (item : String)
  /-- A number outside the field's bounds. -/
  | outOfRange (field : Field) (value min max : Nat)
  /-- A range that does not end after its start. -/
  | emptyRange (field : Field) (first last : Nat)
  /-- A step of zero. -/
  | zeroInterval (field : Field) (interval : Nat)
  /-- A day that its month never has. -/
  | noSuchDay (day month max : Nat)
  /-- A step in a field that has none. -/
  | stepUnsupported (field : Field)
  /-- A search that found nothing within its horizon. -/
  | noUpcoming (start : DateTime) (horizon : Duration)
deriving DecidableEq

namespace Error

/-- The four kinds of errors. -/
inductive Kind where
  /-- The text is malformed. -/
  | format
  /-- The text is well formed, but its numbers are not possible. -/
  | range
  /-- The text is well formed, but the field does not allow it. -/
  | unsupported
  /-- The schedule does not run within the time searched. -/
  | unsatisfiable
deriving DecidableEq, Repr

/-- The kind of an error. -/
def kind : Error → Kind
  | fieldCount _ | malformed .. => .format
  | outOfRange .. | emptyRange .. | zeroInterval .. | noSuchDay .. => .range
  | stepUnsupported _ => .unsupported
  | noUpcoming .. => .unsatisfiable

/-- The message of an error. -/
def message : Error → String
  | fieldCount found =>
      "invalid cron expression: found " ++ number found ++ " parts instead of 5"
  | malformed field item =>
      "invalid " ++ field.name ++ " format: " ++ String.ofList (Text.Quoted.quote item.toList)
  | outOfRange field value min max =>
      "value " ++ number value ++ " for " ++ field.name ++ " must be between " ++ number min ++
        " and " ++ number max
  | emptyRange field first last =>
      "start value " ++ number first ++ " for " ++ field.name ++ " must be less than end value " ++
        number last
  | zeroInterval field interval =>
      "interval value " ++ number interval ++ " for " ++ field.name ++ " must be greater than 0"
  | noSuchDay day month max =>
      "day of month " ++ number day ++ " for month " ++ number month ++
        " is invalid, it must be between 1 and " ++ number max
  | stepUnsupported field => "interval values are not supported for " ++ field.name
  | noUpcoming start horizon =>
      "no upcoming execution after " ++ String.ofList (start.text ' ') ++ " within " ++
        (if horizon.wholeDays < 0 then "-" else "") ++ number horizon.wholeDays.natAbs ++ " days"
where
  number (n : Nat) : String := Text.Decimal.text n

end Error

end Cron
