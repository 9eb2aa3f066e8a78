import NavQuery.Text

/-!
The tree of a query. Every node knows the bytes of the query text that it was read from.
-/

namespace NavQuery

structure Span where
  start : Nat
  stop : Nat
deriving DecidableEq

/-- A direction of sorting. Only whether it is negative matters to the sorting, but directions of
different numbers are different directions. -/
structure Direction where
  number : Int
deriving DecidableEq

namespace Direction

def ascending : Direction := ⟨1⟩

def descending : Direction := ⟨-1⟩

def isDescending (d : Direction) : Bool := d.number < 0

def symbol (d : Direction) : Text := if d.isDescending then "-" else "+"

end Direction

inductive NumberKind
  | integer
  | decimal
  | float
deriving DecidableEq

inductive BinaryOp
  | or
  | and
  | equal
  | notEqual
  | totallyEqual
  | totallyNotEqual
  | contains
  | notContains
  | less
  | lessEqual
  | greater
  | greaterEqual
  | add
  | subtract
  | multiply
  | divide
deriving DecidableEq

def BinaryOp.symbol : BinaryOp → Text
  | or => "|"
  | and => "&"
  | equal => "="
  | notEqual => "!="
  | totallyEqual => "=="
  | totallyNotEqual => "!=="
  | contains => "~"
  | notContains => "!~"
  | less => "<"
  | lessEqual => "<="
  | greater => ">"
  | greaterEqual => ">="
  | add => "+"
  | subtract => "-"
  | multiply => "*"
  | divide => "/"

inductive UnaryOp
  | not
  | plus
  | minus
deriving DecidableEq

def UnaryOp.symbol : UnaryOp → Text
  | not => "!"
  | plus => "+"
  | minus => "-"

inductive Expr
  | name (span : Span) (text : Text)
  | string (span : Span) (content : Text)
  | number (span : Span) (kind : NumberKind) (text : Text)
  | reference (span : Span) (name : Text)
  | wildcard (span : Span)
  | complement (span : Span)
  | call (span : Span) (function : Text) (arguments : List Expr)
  | record (span : Span) (items : List Expr)
  | group (span : Span) (inner : Expr)
  | compose (span : Span) (base field : Expr)
  | link (span : Span) (origin target : Expr)
  | sieve (span : Span) (base condition : Expr)
  | project (span : Span) (base kernel : Expr)
  | select (span : Span) (base : Expr) (braces : Span) (items : List Expr)
  | direct (span : Span) (operand : Expr) (direction : Direction)
  | unary (span : Span) (op : UnaryOp) (operand : Expr)
  | binary (span : Span) (op : BinaryOp) (left right : Expr)

namespace Expr

def span : Expr → Span
  | name s _ | string s _ | number s _ _ | reference s _ | wildcard s | complement s | call s _ _
  | record s _ | group s _ | compose s _ _ | link s _ _ | sieve s _ _ | project s _ _
  | select s _ _ _ | direct s _ _ | unary s _ _ | binary s _ _ _ => s

def spanning (a b : Expr) : Span := ⟨a.span.start, b.span.stop⟩

end Expr

structure Query where
  flow : Option Expr
  span : Span

end NavQuery
