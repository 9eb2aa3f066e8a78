import NavQuery.Binding.Scope

/-!
The functions that a query can call, by their folded names, with the counts of arguments they take.
-/

namespace NavQuery

inductive Function
  | filter
  | sort
  | limit
  | select
  | count
  | aggregate (kind : Operator.Kind)
  | exists
  | every
  | isNull
  | ifNull
  | nullIf
  | null
  | truth (value : Bool)
  | fork
  | moniker
  | cast (domain : Domain)
deriving DecidableEq

namespace Function

def table : List (Text × Function) :=
  [("filter", .filter), ("sort", .sort), ("limit", .limit), ("select", .select), ("count", .count),
    ("sum", .aggregate .sum), ("avg", .aggregate .avg), ("min", .aggregate .min),
    ("max", .aggregate .max), ("exists", .exists), ("every", .every), ("is_null", .isNull),
    ("if_null", .ifNull), ("null_if", .nullIf), ("null", .null), ("true", .truth true),
    ("false", .truth false), ("fork", .fork), ("moniker", .moniker), ("boolean", .cast .boolean),
    ("integer", .cast .integer), ("decimal", .cast .decimal), ("float", .cast .float),
    ("text", .cast .text), ("string", .cast .text), ("date", .cast .date), ("time", .cast .time),
    ("datetime", .cast .dateTime)]

def ofName? (name : Text) : Option Function := table.lookup (foldName name)

def arity : Function → Nat × Option Nat
  | select | fork => (0, none)
  | sort => (1, none)
  | ifNull | nullIf => (2, none)
  | limit => (1, some 2)
  | null | truth _ => (0, some 0)
  | _ => (1, some 1)

def takes (f : Function) (count : Nat) : Bool :=
  f.arity.1 ≤ count && (f.arity.2.all fun most => count ≤ most)

end Function

end NavQuery
