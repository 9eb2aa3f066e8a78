import NavQuery.Text

/-!
The operators of formulas. Some have a polarity, which is negative for the negated form, and a
comparison carries its symbol.
-/

namespace NavQuery

namespace Operator

inductive Kind
  | isEqual
  | isTotallyEqual
  | isIn
  | isNull
  | compare
  | and
  | or
  | not
  | nullIf
  | ifNull
  | add
  | subtract
  | multiply
  | divide
  | negate
  | like
  | concat
  | replace
  | count
  | sum
  | min
  | max
  | avg
  | exists
  | toPredicate
  | fromPredicate
deriving DecidableEq

end Operator

structure Operator where
  kind : Operator.Kind
  polarity : Int
  symbol : Text
deriving DecidableEq

namespace Operator

def plain (kind : Kind) : Operator := ⟨kind, 0, []⟩

def polar (kind : Kind) (polarity : Int) : Operator := ⟨kind, polarity, []⟩

def comparison (symbol : Text) : Operator := ⟨.compare, 0, symbol⟩

def isAggregate (f : Operator) : Bool :=
  match f.kind with
  | .count | .sum | .min | .max | .avg => true
  | _ => false

def isNullRegular (f : Operator) : Bool :=
  match f.kind with
  | .isEqual | .compare | .add | .subtract | .multiply | .divide | .negate | .like | .concat => true
  | _ => false

def isNegative (f : Operator) : Bool := f.polarity < 0

def signed (f : Operator) (positive negative : Text) : Text :=
  if f.isNegative then negative else positive

def render (f : Operator) : Text :=
  match f.kind with
  | .isEqual => f.signed "=" "!="
  | .isTotallyEqual => f.signed "==" "!=="
  | .isIn => f.signed "in" "not_in"
  | .isNull => f.signed "is_null" "is_not_null"
  | .compare => f.symbol
  | .and => "&"
  | .or => "|"
  | .not => "!"
  | .nullIf => "null_if"
  | .ifNull => "if_null"
  | .add => "+"
  | .subtract => "-"
  | .multiply => "*"
  | .divide => "/"
  | .negate => "negate"
  | .like => f.signed "~" "!~"
  | .concat => "concat"
  | .replace => "replace"
  | .count => "count"
  | .sum => "sum"
  | .min => "min"
  | .max => "max"
  | .avg => "avg"
  | .exists => "exists"
  | .toPredicate => "to_predicate"
  | .fromPredicate => "from_predicate"

end Operator

end NavQuery
