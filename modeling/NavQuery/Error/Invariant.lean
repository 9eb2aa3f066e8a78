import NavQuery.Text

/-!
The rules that the stages keep for each other. A value built by hand may break one; the message names
the rule.
-/

namespace NavQuery

inductive Invariant
  | routedUnit
  | tableTerm
  | booleanFilter
  | kernelOfSpace
  | segmentTerm
  | suppliedClaims
  | scalarExports
  | tableExports
  | columnOwner
  | segmentClaims
  | correlationClaim
  | compoundClaim
  | forwardedClaim
  | routedDescendant
  | claimedDescendant
  | demandedClaim
  | singleSupply
  | evaluatedCorrelation
  | suppliedUnit
  | rootBase
  | scalarBase
  | tableBase
  | fiberParts
  | fiberOrigin
  | quotientParts
  | quotientSeed
  | complementBase
  | monikerSeed
  | forkSeed
  | linkParts
  | linkSeed
  | filterParts
  | orderingBase
  | castOperand
  | columnUnit
  | unitParts
  | aggregateParts
  | respacedUnit
  | inflatedBaseline
  | compiledAbove
  | exportedKernel
  | exportedCovering
  | singularShoot
  | referenceIndex
  | segmentFrame
  | embeddedFrame
  | existsOperand
  | boundPlaceholder
  | untypedLiteral
  | kernelIndex
deriving DecidableEq

namespace Invariant

def statement : Invariant → Text
  | routedUnit => "a unit is routed before it is used"
  | tableTerm => "a table term runs over a table space"
  | booleanFilter => "a term filter is boolean"
  | kernelOfSpace => "a kernel unit refers to a kernel of its space"
  | segmentTerm => "assembling starts from a segment term"
  | suppliedClaims => "every claim is supplied"
  | scalarExports => "a scalar term exports nothing"
  | tableExports => "a table term exports its own columns"
  | columnOwner => "a column belongs to the table of its term"
  | segmentClaims => "a segment term is never claimed"
  | correlationClaim => "a correlation term exports exactly one value"
  | compoundClaim => "a term computes compound units only"
  | forwardedClaim => "a forwarded claim is supplied by the kid"
  | routedDescendant => "a routed term is a descendant"
  | claimedDescendant => "a claimed term is a descendant"
  | demandedClaim => "a supplied claim was demanded"
  | singleSupply => "a claim is supplied once"
  | evaluatedCorrelation => "a correlation is evaluated by its embedding"
  | suppliedUnit => "a unit is supplied before it is evaluated"
  | rootBase => "the root space has no base"
  | scalarBase => "a scalar space needs a base"
  | tableBase => "a table is attached to a scalar space"
  | fiberParts => "a fiber space needs a base and a join"
  | fiberOrigin => "a fiber join starts from the base table"
  | quotientParts => "a quotient needs a base and a seed"
  | quotientSeed => "a quotient seed is plural relative to its base"
  | complementBase => "a complement is attached to a quotient"
  | monikerSeed => "a moniker seed spans its base"
  | forkSeed => "a fork seed conforms to its base"
  | linkParts => "a link needs a base and a seed"
  | linkSeed => "a link seed is plural relative to its base"
  | filterParts => "a filter needs a base and a condition"
  | orderingBase => "an ordering needs a base"
  | castOperand => "a cast needs an operand"
  | columnUnit => "a column unit needs a column and a space"
  | unitParts => "a unit needs an operand and a space"
  | aggregateParts => "an aggregate unit needs an operand and two spaces"
  | respacedUnit => "only units are re-spaced"
  | inflatedBaseline => "a baseline is an inflated space"
  | compiledAbove => "a space is compiled above its baseline"
  | exportedKernel => "a kernel unit is exported by its space"
  | exportedCovering => "a covering unit is exported by its space"
  | singularShoot => "a shoot is singular against its trunk"
  | referenceIndex => "a reference points into the select"
  | segmentFrame => "serialization starts from a segment frame"
  | embeddedFrame => "an embedding phrase refers to an embedded frame"
  | existsOperand => "EXISTS takes a subquery"
  | boundPlaceholder => "every placeholder names a bound parameter"
  | untypedLiteral => "an untyped code must be a literal"
  | kernelIndex => "kernel index out of range"

def message (i : Invariant) : Text := "internal invariant violated: " ++ i.statement

end Invariant

end NavQuery
