import NavQuery.Domain
import NavQuery.Error.Fault

/-!
What can be wrong with a query, each with its message and its hint. A hint is empty where there is
nothing to add.
-/

namespace NavQuery

inductive Problem
  | malformed (message : Text)
  | noCommonType
  | arity (function : Text) (least : Nat) (most : Option Nat) (given : Nat)
  | scalarExpected
  | nestedSegment
  | flowExpected
  | misplacedWildcard
  | unknownAttribute (name : Text)
  | unknownParameter (name : Text)
  | unknownFunction (name : Text)
  | badLiteral (domain : Domain) (fault : Fault)
  | scalarKernel
  | noCommonImage
  | notComparable (domain : Domain)
  | operands (symbol : Text) (left right : Domain)
  | numericOperand (symbol : Text) (domain : Domain)
  | numericArgument (domain : Domain)
  | countExpected
  | countTooLarge
  | tableScope
  | quotientScope
  | tableOrQuotientScope
  | ambiguousName (name : Text) (candidates : List Text)
  | noConversion (source target : Domain)
  | badConversion (text : Text) (target : Domain) (fault : Fault)
  | pluralExpected
  | descendantExpected
  | pluralOperandRequired
  | ambiguousOperand
  | descendantOperandExpected
  | ambiguousSegment
  | descendantSegment
  | singularElement
  | singularExpected
  | constantKernel
  | missingKey (table : Text)
  | integerRange
  | floatRange
  | noSqlValue (domain : Domain)
  | noSqlType (domain : Domain)

namespace Problem

def expectedCount (least : Nat) : Option Nat → Text
  | none => "at least " ++ Text.ofNat least
  | some most =>
    if least = most then Text.ofNat least else Text.ofNat least ++ " to " ++ Text.ofNat most

def plural (least : Nat) (most : Option Nat) : Text :=
  if least = 1 ∧ most = some 1 then [] else "s"

def message : Problem → Text
  | malformed text => text
  | noCommonType => "cannot coerce values to a common type"
  | arity function least most given =>
    "function '" ++ function ++ "' expects " ++ expectedCount least most ++ " argument" ++
      plural least most ++ ", got " ++ Text.ofNat given
  | scalarExpected | nestedSegment => "expected a scalar expression"
  | flowExpected => "expected a flow expression"
  | misplacedWildcard => "a wildcard is only allowed in a selection"
  | unknownAttribute name => "unable to find attribute '" ++ name ++ "'"
  | unknownParameter name => "unable to find parameter '$" ++ name ++ "'"
  | unknownFunction name => "unable to find function '" ++ name ++ "'"
  | badLiteral domain _ => "invalid " ++ domain.render ++ " literal"
  | scalarKernel => "quotient column must be scalar"
  | noCommonImage => "cannot coerce origin and target columns to a common type"
  | notComparable domain => "values of type " ++ domain.render ++ " are not comparable"
  | operands symbol left right =>
    "cannot apply operator '" ++ symbol ++ "' to values of type " ++ left.render ++ " and " ++
      right.render
  | numericOperand symbol _ => "expected a numeric operand for '" ++ symbol ++ "'"
  | numericArgument _ => "expected a numeric argument"
  | countExpected | countTooLarge => "expected a non-negative integer"
  | tableScope => "expected a table scope"
  | quotientScope => "expected a quotient scope"
  | tableOrQuotientScope => "expected a table or a quotient scope"
  | ambiguousName name _ => "ambiguous name '" ++ name ++ "'"
  | noConversion source target =>
    "cannot convert a value of type " ++ source.render ++ " to " ++ target.render
  | badConversion text target _ => "cannot convert '" ++ text ++ "' to " ++ target.render
  | pluralExpected => "expected a plural expression"
  | descendantExpected => "expected a descendant expression"
  | pluralOperandRequired => "a plural operand is required"
  | ambiguousOperand => "invalid plural operand"
  | descendantOperandExpected => "expected a descendant operand"
  | ambiguousSegment => "cannot deduce an unambiguous segment flow"
  | descendantSegment => "expected a descendant segment flow"
  | singularElement => "a singular expression is expected"
  | singularExpected => "expected a singular expression"
  | constantKernel => "an empty or constant kernel is not allowed"
  | missingKey _ => "unable to connect a table lacking a primary key"
  | integerRange => "invalid integer value"
  | floatRange => "invalid float value"
  | noSqlValue domain => "unable to serialize a value of type " ++ domain.render
  | noSqlType domain => "unable to cast to type " ++ domain.render

def enumerate : List Text → Text
  | [] => []
  | [t] => t
  | [t, u] => t ++ " and " ++ u
  | t :: u :: v :: ts => t ++ ", " ++ enumerate (u :: v :: ts)

def hint : Problem → Text
  | nestedSegment => "nested segments are not supported"
  | badLiteral _ fault | badConversion _ _ fault => fault.message
  | numericOperand _ domain | numericArgument domain => "got a value of type " ++ domain.render
  | countTooLarge => "the value is too large"
  | ambiguousName _ candidates => "candidates are " ++ enumerate candidates
  | ambiguousOperand => "cannot deduce an unambiguous aggregate flow"
  | missingKey table => table
  | _ => []

end Problem

end NavQuery
