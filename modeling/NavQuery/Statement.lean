import NavQuery.Domain

/-!
SQL text with the parameters that its placeholders stand for, in the order of the text.
-/

namespace NavQuery

inductive Dialect
  | ansi
  | pgsql
  | sqlite
deriving DecidableEq

namespace Dialect

def name : Dialect → Text
  | ansi => "ansi"
  | pgsql => "pgsql"
  | sqlite => "sqlite"

def ofName? (t : Text) : Option Dialect := [ansi, pgsql, sqlite].find? fun d => d.name == t

end Dialect

structure Placeholder where
  index : Nat
  name : Text
  domain : Domain

structure Statement where
  sql : Text
  placeholders : List Placeholder

end NavQuery
