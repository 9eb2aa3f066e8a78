import NavQuery.Text

/-!
The reasons why a text spells no value of a domain, or why a value has no text there.
-/

namespace NavQuery

inductive Fault
  | noLiteral (kind : Text)
  | boolean (text : Text)
  | integer (text : Text)
  | float (text : Text)
  | decimal (text : Text)
  | enum (text : Text)
  | month
  | day
  | clock
  | date (text : Text)
  | dateTail
  | time (text : Text)
  | timeTail
  | dateTime (text : Text)
  | dateTimeClock (text : Text)
  | dateTimeTail
  | opening (bracket : Byte)
  | separator (bracket : Byte)
  | item
  | tooManyItems
  | unterminatedItem
  | tail
  | fieldCount
  | locator
  | nullText
  | noText (kind : Text)
  | recordShape
  | identityShape
deriving DecidableEq

namespace Fault

def wording : Fault → Text
  | noLiteral kind => "a " ++ kind ++ " value cannot be written as a literal"
  | boolean t => "invalid Boolean literal: expected 'true' or 'false'; got '" ++ t ++ "'"
  | integer t =>
    "invalid integer literal: expected an integer in a decimal format; got '" ++ t ++ "'"
  | float t => "invalid float literal: '" ++ t ++ "'"
  | decimal t => "invalid decimal literal: " ++ t
  | enum t => "invalid enum literal: got '" ++ t ++ "'"
  | month => "invalid date literal: month must be in 1..12"
  | day => "invalid date literal: day is out of range for month"
  | clock => "invalid time literal: component out of range"
  | date t =>
    "invalid date literal: expected a valid date in a 'YYYY-MM-DD' format; got '" ++ t ++ "'"
  | dateTail => "invalid date literal: unexpected trailing input"
  | time t =>
    "invalid time literal: expected a valid time in a 'HH:MM:SS.SSSSSS' format; got '" ++ t ++ "'"
  | timeTail => "invalid time literal: unexpected trailing input"
  | dateTime t => "invalid datetime literal: expected 'YYYY-MM-DD HH:MM:SS'; got '" ++ t ++ "'"
  | dateTimeClock t => "invalid datetime literal: malformed time part in '" ++ t ++ "'"
  | dateTimeTail => "invalid datetime literal: unexpected trailing input"
  | opening b => "expected '" ++ [b] ++ "'"
  | separator b => "expected ',' or '" ++ [b] ++ "'"
  | item => "expected a quoted item or null"
  | tooManyItems => "too many items"
  | unterminatedItem => "unterminated quoted item"
  | tail => "unexpected trailing input"
  | fieldCount => "wrong number of record fields"
  | locator => "ill-formed locator"
  | nullText => "NULL has no text form"
  | noText kind => "a " ++ kind ++ " value has no text form"
  | recordShape => "record value does not match its domain"
  | identityShape => "identity value does not match its domain"

def message (f : Fault) : Text := f.wording.untilZero

end Fault

end NavQuery
