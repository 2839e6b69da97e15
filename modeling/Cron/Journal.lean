import Cron.Schedule.Edit

/-!
# Journal records

Reading, editing and searching leave records of what they met.  A record holds
what happened; its message is composed from that.

A field text that is refused leaves a record where it is about to be stored in
a schedule, and only there.
-/

namespace Cron

open Calendar

/-- One entry of the journal. -/
inductive Record where
  /-- A field refused a text. -/
  | rejected (field : Field) (text : List Char) (error : Error)
  /-- A search left out the minutes from one on because of a field. -/
  | skipping (minute : Int) (field : Field)
  /-- A search passed over a minute that the wall clock does not show after the
  start. -/
  | unmapped (minute : Int) (start : DateTime)
  /-- A search ended with a minute. -/
  | found (schedule : Schedule) (start : DateTime) (minute : Int)
  /-- A search ended with nothing. -/
  | exhausted (schedule : Schedule) (start : DateTime) (horizon : Duration)

/-- A result, and the records left on the way to it, in order. -/
structure Journaled (α : Type) where
  value : α
  journal : Array Record

namespace Record

/-- How closely one has to look to see a record. -/
inductive Level where
  | debug
  | trace
deriving DecidableEq, Repr

/-- The level of a record: steps inside a search are for tracing. -/
def level : Record → Level
  | skipping .. => .trace
  | _ => .debug

/-- The name under which a search leaves out the values of a field. -/
def skippedName : Field → String
  | .dayOfMonth => "day"
  | f => f.name

/-- The message of a record. -/
def message : Record → String
  | rejected field text error =>
      "rejected " ++ field.name ++ " value " ++ String.ofList (Text.Quoted.quote text) ++ ": " ++
        error.message
  | skipping m field => minute m ++ ": skipping " ++ skippedName field
  | unmapped m start =>
      "skipping local time " ++ minute m ++ ", it doesn't map to an instant after " ++ time start
  | found schedule start m =>
      "next execution of '" ++ schedule.text ++ "' after " ++ time start ++ " is " ++ minute m
  | exhausted schedule start horizon =>
      "no upcoming execution of '" ++ schedule.text ++ "' after " ++ time start ++ " within " ++
        String.ofList horizon.text
where
  minute (m : Int) : String := String.ofList (Minute.text ' ' m)
  time (t : DateTime) : String := String.ofList (t.text ' ')

/-! ## Records of reading and editing -/

/-- The record of a text that a field refuses. -/
def ofText? (f : Field) (text : List Char) : Option Record :=
  match Pattern.parseChars f text with
  | .ok _ => none
  | .error e => some (rejected f text e)

/-- The record of reading the texts of the five fields: the first refusal. -/
def ofFields? (texts : List String) : Option Record :=
  (Field.all.zip texts).findSome? fun (f, text) => ofText? f text.toList

/-- The record of reading an expression.  One with another number of fields than
five leaves none. -/
def ofExpression? (expression : String) : Option Record :=
  let texts := Schedule.fieldTexts expression
  if texts.length = Field.all.length then ofFields? texts else none

/-- The record of an edit: its refusal. -/
def ofEdit? (e : Edit) : Option Record := e.text?.bind (ofText? e.field)

end Record

end Cron
