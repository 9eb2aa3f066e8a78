import NavQuery.Text

/-!
The lexical units of a query with their places in its text.
-/

namespace NavQuery

namespace Token

inductive Kind
  | name
  | string
  | integer
  | decimal
  | float
  | reference
  | slash
  | dot
  | comma
  | leftParen
  | rightParen
  | leftBrace
  | rightBrace
  | semicolon
  | question
  | caret
  | star
  | plus
  | minus
  | pipe
  | ampersand
  | bang
  | equal
  | notEqual
  | totallyEqual
  | totallyNotEqual
  | contains
  | notContains
  | less
  | lessEqual
  | greater
  | greaterEqual
  | arrow
  | invalid
deriving DecidableEq

end Token

/-- A token from byte `start` up to byte `stop`. Its text is what it stands for: the content of a
string, the name behind the dollar sign of a reference, and the spelling itself of the others. -/
structure Token where
  kind : Token.Kind
  text : Text
  start : Nat
  stop : Nat
deriving DecidableEq

end NavQuery
