import NavQuery.Space.Family

/-!
`Space.check` tells whether the last step fits the space that it is put on, and a blueprint is a step
whose parts may still be missing.
-/

namespace NavQuery

namespace Space

def check : Space → Result Unit
  | table _ b _ => ensure b.family.isScalar .tableBase
  | fiber _ b j => ensure (decide (b.family.table? = some j.origin)) .fiberOrigin
  | quotient _ b s _ _ => ensure (s.spans b && !b.spans s) .quotientSeed
  | complement _ b _ => ensure b.family.isQuotient .complementBase
  | moniker _ b s _ => ensure (s.spans b) .monikerSeed
  | forked _ b s _ _ => ensure (b.spans s && s.spans b) .forkSeed
  | linked _ b s _ _ => ensure (s.spans b && !b.spans s) .linkSeed
  | root _ | scalar _ _ | filtered _ _ _ | ordered _ _ _ _ _ => pure ()

def checked (s : Space) : Result Space := do
  s.check
  return s

inductive Blueprint
  | root
  | scalar
  | table (table : Table)
  | fiber (join : Join)
  | quotient (seed : Option Space) (kernels companions : List Code)
  | complement (companions : List Code)
  | moniker (seed : Option Space) (companions : List Code)
  | forked (seed : Option Space) (kernels companions : List Code)
  | linked (seed : Option Space) (images : List Image) (companions : List Code)
  | filtered (condition : Option Code)
  | ordered (order : List OrderItem) (limit offset : Option Int)

namespace Blueprint

def rule : Blueprint → Invariant
  | root => .rootBase
  | scalar => .scalarBase
  | table _ => .tableBase
  | fiber _ => .fiberParts
  | quotient _ _ _ => .quotientParts
  | complement _ => .complementBase
  | moniker _ _ => .monikerSeed
  | forked _ _ _ => .forkSeed
  | linked _ _ _ => .linkParts
  | filtered _ => .filterParts
  | ordered _ _ _ => .orderingBase

def put? (mark : Mark) (base : Space) : Blueprint → Option Space
  | root => none
  | scalar => some (.scalar mark base)
  | table t => some (.table mark base t)
  | fiber j => some (.fiber mark base j)
  | quotient seed ks cs => seed.map fun s => .quotient mark base s ks cs
  | complement cs => some (.complement mark base cs)
  | moniker seed cs => seed.map fun s => .moniker mark base s cs
  | forked seed ks cs => seed.map fun s => .forked mark base s ks cs
  | linked seed is cs => seed.map fun s => .linked mark base s is cs
  | filtered condition => condition.map fun f => .filtered mark base f
  | ordered order limit offset => some (.ordered mark base order limit offset)

def build (mark : Mark) (base : Option Space) : Blueprint → Result Space
  | root => if base.isNone then pure (.root mark) else .error (.invariant .rootBase)
  | p => do (← require (base.bind (p.put? mark)) p.rule).checked

end Blueprint

def blueprint : Space → Blueprint
  | root _ => .root
  | scalar _ _ => .scalar
  | table _ _ t => .table t
  | fiber _ _ j => .fiber j
  | quotient _ _ s ks cs => .quotient (some s) ks cs
  | complement _ _ cs => .complement cs
  | moniker _ _ s cs => .moniker (some s) cs
  | forked _ _ s ks cs => .forked (some s) ks cs
  | linked _ _ s is cs => .linked (some s) is cs
  | filtered _ _ f => .filtered (some f)
  | ordered _ _ os l o => .ordered os l o

def rebase (base : Option Space) : Space → Result Space
  | root m => pure (root m)
  | s => s.blueprint.build s.mark base

end Space

namespace Code

inductive Blueprint
  | column (domain : Domain) (column : Column)
  | single (operand : Code) (companions : List Code)
  | aggregate (operand : Code) (plural : Option Space) (companions : List Code)
  | correlated (operand : Code) (plural : Option Space)
  | kernel (operand : Code)
  | covering (operand : Code)

namespace Blueprint

def rule : Blueprint → Invariant
  | column _ _ => .columnUnit
  | single _ _ | kernel _ | covering _ => .unitParts
  | aggregate _ _ _ | correlated _ _ => .aggregateParts

def put? (mark : Mark) (space : Space) : Blueprint → Option Code
  | column d c => some (.column mark d c space)
  | single c cs => some (.single mark c space cs)
  | aggregate c plural cs => plural.map fun p => .aggregate mark c p space cs
  | correlated c plural => plural.map fun p => .correlated mark c p space
  | kernel c => some (.kernel mark c space)
  | covering c => some (.covering mark c space)

def build (mark : Mark) (space : Option Space) (p : Blueprint) : Result Code :=
  require (space.bind (p.put? mark)) p.rule

end Blueprint

def blueprint? : Code → Option Blueprint
  | column _ d c _ => some (.column d c)
  | single _ c _ cs => some (.single c cs)
  | aggregate _ c p _ cs => some (.aggregate c (some p) cs)
  | correlated _ c p _ => some (.correlated c (some p))
  | kernel _ c _ => some (.kernel c)
  | covering _ c _ => some (.covering c)
  | _ => none

def respace (space : Option Space) (c : Code) : Result Code := do
  (← require c.blueprint? .respacedUnit).build c.mark space

def castOf (mark : Mark) (domain : Domain) (operand : Option Code) : Result Code := do
  return .cast mark domain (← require operand .castOperand)

end Code

end NavQuery
