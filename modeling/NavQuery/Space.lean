import NavQuery.Catalog.Join
import NavQuery.Error
import NavQuery.Expr
import NavQuery.Operator
import NavQuery.Value

/-!
A space is a multiset of rows, given by the chain of steps that lead from the root to it. A code is a
value for each row of a space. The indivisible codes are the units: columns, and values that are computed
in one space and used in another. Neither companions nor marks say anything about the rows or values.
-/

namespace NavQuery

mutual

inductive Space
  | root (mark : Mark)
  /-- The unit row again for each row of the base. -/
  | scalar (mark : Mark) (base : Space)
  | table (mark : Mark) (base : Space) (table : Table)
  | fiber (mark : Mark) (base : Space) (join : Join)
  /-- The distinct values of the kernels over the rows of the seed. -/
  | quotient (mark : Mark) (base seed : Space) (kernels companions : List Code)
  | complement (mark : Mark) (base : Space) (companions : List Code)
  /-- The rows of the seed in place of a chain of steps. -/
  | moniker (mark : Mark) (base seed : Space) (companions : List Code)
  /-- The rows of the seed that agree with the base row on the kernels. -/
  | forked (mark : Mark) (base seed : Space) (kernels companions : List Code)
  /-- The rows of the seed whose images equal those of the base row. -/
  | linked (mark : Mark) (base seed : Space) (images : List (Code × Code)) (companions : List Code)
  | filtered (mark : Mark) (base : Space) (filter : Code)
  | ordered (mark : Mark) (base : Space) (order : List (Code × Direction)) (limit offset : Option Int)

inductive Code
  | missing
  | literal (mark : Mark) (domain : Domain) (value : Value)
  | parameter (mark : Mark) (domain : Domain) (name : Text)
  | cast (mark : Mark) (domain : Domain) (operand : Code)
  | formula (mark : Mark) (domain : Domain) (op : Operator) (arguments : List Code)
  | correlation (mark : Mark) (operand : Code)
  | column (mark : Mark) (domain : Domain) (column : Column) (space : Space)
  | single (mark : Mark) (operand : Code) (space : Space) (companions : List Code)
  | aggregate (mark : Mark) (operand : Code) (plural space : Space) (companions : List Code)
  | correlated (mark : Mark) (operand : Code) (plural space : Space)
  | kernel (mark : Mark) (operand : Code) (space : Space)
  | covering (mark : Mark) (operand : Code) (space : Space)

end

abbrev Image := Code × Code

abbrev OrderItem := Code × Direction

namespace Space

def mark : Space → Mark
  | root m | scalar m _ | table m _ _ | fiber m _ _ | quotient m _ _ _ _ | complement m _ _
  | moniker m _ _ _ | forked m _ _ _ _ | linked m _ _ _ _ | filtered m _ _ | ordered m _ _ _ _ => m

def base? : Space → Option Space
  | root _ => none
  | scalar _ b | table _ b _ | fiber _ b _ | quotient _ b _ _ _ | complement _ b _ | moniker _ b _ _
  | forked _ b _ _ _ | linked _ b _ _ _ | filtered _ b _ | ordered _ b _ _ _ => some b

def ancestors : Space → List Space
  | root m => [root m]
  | scalar m b => scalar m b :: ancestors b
  | table m b t => table m b t :: ancestors b
  | fiber m b j => fiber m b j :: ancestors b
  | quotient m b s ks cs => quotient m b s ks cs :: ancestors b
  | complement m b cs => complement m b cs :: ancestors b
  | moniker m b s cs => moniker m b s cs :: ancestors b
  | forked m b s ks cs => forked m b s ks cs :: ancestors b
  | linked m b s is cs => linked m b s is cs :: ancestors b
  | filtered m b f => filtered m b f :: ancestors b
  | ordered m b os l o => ordered m b os l o :: ancestors b

def withBase : Space → Space → Space
  | root m, _ => root m
  | scalar m _, b => scalar m b
  | table m _ t, b => table m b t
  | fiber m _ j, b => fiber m b j
  | quotient m _ s ks cs, b => quotient m b s ks cs
  | complement m _ cs, b => complement m b cs
  | moniker m _ s cs, b => moniker m b s cs
  | forked m _ s ks cs, b => forked m b s ks cs
  | linked m _ s is cs, b => linked m b s is cs
  | filtered m _ f, b => filtered m b f
  | ordered m _ os l o, b => ordered m b os l o

def withCompanions (cs : List Code) : Space → Space
  | quotient m b s ks _ => quotient m b s ks cs
  | complement m b _ => complement m b cs
  | moniker m b s _ => moniker m b s cs
  | forked m b s ks _ => forked m b s ks cs
  | linked m b s is _ => linked m b s is cs
  | s => s

def companions : Space → List Code
  | quotient _ _ _ _ cs | complement _ _ cs | moniker _ _ _ cs | forked _ _ _ _ cs
  | linked _ _ _ _ cs => cs
  | _ => []

/-- Axis steps change what a row is; the others only drop or sort rows. -/
def isAxis : Space → Bool
  | filtered _ _ _ | ordered _ _ _ _ _ => false
  | _ => true

def isRoot : Space → Bool
  | root _ => true
  | _ => false

/-- Whether the last step may change places with filters: a cut to a range may not. -/
def isCommutative : Space → Bool
  | ordered _ _ _ limit offset => limit.isNone && offset.isNone
  | _ => true

end Space

namespace Code

def mark : Code → Mark
  | missing => .nowhere
  | literal m _ _ | parameter m _ _ | cast m _ _ | formula m _ _ _ | correlation m _ | column m _ _ _
  | single m _ _ _ | aggregate m _ _ _ _ | correlated m _ _ _ | kernel m _ _ | covering m _ _ => m

def domain : Code → Domain
  | missing => .unknown
  | literal _ d _ | parameter _ d _ | cast _ d _ | formula _ d _ _ | column _ d _ _ => d
  | correlation _ c | single _ c _ _ | aggregate _ c _ _ _ | correlated _ c _ _ | kernel _ c _
  | covering _ c _ => domain c

def space? : Code → Option Space
  | column _ _ _ s | single _ _ s _ | aggregate _ _ _ s _ | correlated _ _ _ s | kernel _ _ s
  | covering _ _ s => some s
  | _ => none

def isUnit (c : Code) : Bool := c.space?.isSome

def isColumn : Code → Bool
  | column _ _ _ _ => true
  | _ => false

def isCompound (c : Code) : Bool := c.isUnit && !c.isColumn

def operand? : Code → Option Code
  | single _ c _ _ | aggregate _ c _ _ _ | correlated _ c _ _ | kernel _ c _ | covering _ c _ => some c
  | _ => none

def withSpace (s : Space) : Code → Code
  | column m d c _ => column m d c s
  | single m c _ cs => single m c s cs
  | aggregate m c p _ cs => aggregate m c p s cs
  | correlated m c p _ => correlated m c p s
  | kernel m c _ => kernel m c s
  | covering m c _ => covering m c s
  | c => c

def withCompanions (cs : List Code) : Code → Code
  | single m c s _ => single m c s cs
  | aggregate m c p s _ => aggregate m c p s cs
  | c => c

def companions : Code → List Code
  | single _ _ _ cs | aggregate _ _ _ _ cs => cs
  | _ => []

def ofColumn (c : Column) (s : Space) (mark : Mark) : Code := .column mark c.domain c s

def ofKernel (c : Code) (s : Space) : Code := .kernel c.mark c s

def ofCovered (c : Code) (s : Space) : Code := .covering c.mark c s

end Code

end NavQuery
