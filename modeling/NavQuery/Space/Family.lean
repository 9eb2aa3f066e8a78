import NavQuery.Space.Path

/-!
The family of a space is the shape of its rows: unit rows, rows of a table, or groups. A ground is the
step of a seed where the rows behind a row of the base start to be several.
-/

namespace NavQuery

inductive Family
  | scalar
  | table (table : Table)
  | quotient (seed ground : Space) (kernels : List Code) (inner : Family)

namespace Family

def table? : Family → Option Table
  | table t => some t
  | _ => none

def isScalar : Family → Bool
  | scalar => true
  | _ => false

def isQuotient : Family → Bool
  | quotient _ _ _ _ => true
  | _ => false

def seed? : Family → Option Space
  | quotient s _ _ _ => some s
  | _ => none

def ground? : Family → Option Space
  | quotient _ g _ _ => some g
  | _ => none

def kernels : Family → List Code
  | quotient _ _ ks _ => ks
  | _ => []

def inner : Family → Family
  | quotient _ _ _ f => f
  | f => f

end Family

namespace Space

/-- From a step up towards the root, the first step whose base the given base spans. The steps are
listed from the last one to the root. -/
def groundAbove (base : List Step) : List Step → Option Space
  | [] => none
  | [s] => some s.space
  | s :: t :: ss =>
    if spansSteps base (t :: ss).reverse then some s.space else groundAbove base (t :: ss)

def groundOf (base seed : Space) : Space := (groundAbove base.path seed.path.reverse).getD seed

def axesAbove (seed : Space) : List Step := seed.path.reverse.dropWhile (!·.axis)

def lastAxis (s : Space) : Space := ((s.axesAbove.head?).map (·.space)).getD s

def monikerGround (base seed : Space) : Space :=
  if spansSteps base.path seed.axesAbove.reverse then seed.lastAxis
  else (groundAbove base.path seed.axesAbove).getD seed.lastAxis

def family : Space → Family
  | root _ | scalar _ _ => .scalar
  | table _ _ t => .table t
  | fiber _ _ j => .table j.target
  | quotient _ b s ks _ => .quotient s (groundOf b s) ks (family s)
  | complement _ b _ => (family b).inner
  | moniker _ _ s _ | linked _ _ s _ _ => family s
  | forked _ b _ _ _ | filtered _ b _ | ordered _ b _ _ _ => family b

def seed? : Space → Option Space
  | quotient _ _ s _ _ | moniker _ _ s _ | forked _ _ s _ _ | linked _ _ s _ _ => some s
  | complement _ b _ => b.family.seed?
  | _ => none

def ground? : Space → Option Space
  | quotient _ b s _ _ | linked _ b s _ _ => some (groundOf b s)
  | complement _ b _ => b.family.ground?
  | moniker _ b s _ => some (monikerGround b s)
  | forked _ _ s _ _ => some s.lastAxis
  | _ => none

def kernels : Space → List Code
  | quotient _ _ _ ks _ | forked _ _ _ ks _ => ks
  | complement _ b _ => b.family.kernels
  | _ => []

end Space

end NavQuery
