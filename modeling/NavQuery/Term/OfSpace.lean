import NavQuery.Segment
import NavQuery.Space.Build
import NavQuery.Term
import NavQuery.Term.Glue

/-!
`compile` makes the term that produces the rows of a space; axes before a baseline may be left out.
`inject` grows a term until it routes given units. Both are written over an earlier `Compiler`, and
`compilerTo` ties the knot to a depth.
-/

namespace NavQuery

namespace Term

abbrev Tagged := StateT Nat Result

def freshTag : Tagged Nat := modifyGet fun n => (n, n + 1)

def wrap (kid : Term) (space baseline : Space) (routes : Routes) : Tagged Term := do
  return .wrapper ⟨← freshTag, space, baseline, routes⟩ kid

def rewrap (kid : Term) : Tagged Term := wrap kid kid.space kid.baseline kid.routes

def filterBy (kid : Term) (condition : Code) (space : Space) (routes : Routes) : Tagged Term := do
  ensure condition.domain.isBoolean .booleanFilter
  return .filter ⟨← freshTag, space, kid.baseline, routes⟩ kid condition

def attach (left right : Term) (joints : List Joint) (outer : Bool) (space : Space)
    (routes : Routes) : Tagged Term := do
  return .join ⟨← freshTag, space, left.baseline, routes⟩ left right joints outer

def glueTo (shoot trunk : Term) : Result (List Joint) :=
  trunk.space.glue trunk.baseline shoot.space shoot.baseline

def conjunction (mark : Mark) : List Code → Code
  | [c] => c
  | cs => .formula mark .boolean (.plain .and) cs

def kernelFilter (mark : Mark) (kernels : List Code) : Code :=
  conjunction mark (kernels.map fun k => .formula k.mark .boolean (.polar .isNull (-1)) [k])

def routeExports (r : Routes) (space backbone : Space) : Result Routes := do
  (← space.exports).foldlM (fun r u => do return r.set u (← r.tag (u.withSpace backbone))) r

def routeSeed (r seedRoutes : Routes) (units : List Code) (space : Space) : Result Routes :=
  units.foldlM (fun r u => do return r.set (u.withSpace space) (← seedRoutes.tag u)) r

structure Compiler where
  compile : Space → Space → Tagged Term
  inject : Term → List Code → Tagged Term

variable (c : Compiler)

def compileScalar (space base baseline : Space) : Tagged Term := do
  if space == baseline then return .scalar ⟨← freshTag, space, space, .empty⟩
  else
    let kid ← c.compile base baseline
    wrap kid space kid.baseline kid.routes

def compileTable (space base baseline : Space) : Tagged Term := do
  let backbone := space.inflate
  if space == baseline then
    let tag ← freshTag
    return .table ⟨tag, space, baseline, .setAll .empty (← space.exports) tag⟩
  else
    let kid ← c.compile base baseline
    let exported := (← backbone.exports).all kid.routes.contains
    if space.conforms kid.space && exported then
      wrap kid space kid.baseline (← routeExports kid.routes space backbone)
    else
      let right ← c.compile backbone backbone
      let routes ← routeExports (kid.routes.update right.routes) space backbone
      attach kid right (← space.baseJoints) false space routes

def injectJoints (t : Term) (joints : List Joint) : Tagged Term :=
  c.inject t (joints.map (·.left))

def compileSeed (seed ground : Space) (codes : List Code) : Tagged Term := do
  c.inject (← c.compile seed ground.inflatedAncestor) codes

structure Projection where
  basis : List Code
  units : List Code
  joints : List Joint

/-- Prepares the seed of a quotient for the aggregates that accompany it. They are computed in the
projection if no further rows have to be attached for them. -/
def prepareAggregates (seed complement : Space) (kernels companions : List Code)
    (seedTerm : Term) : Tagged (Term × List Code) := do
  let covered := (seedTerm.routes.units ++ kernels).map (Code.ofCovered · complement)
  let routes ← routeSeed (.setAll .empty covered seedTerm.tag) seedTerm.routes
    (← seed.inflate.exports) complement
  let term ← c.inject (← wrap seedTerm complement complement routes) companions
  if term.baseline == complement then
    let units := companions.flatMap (·.units)
    let inner ← units.foldlM (fun r u => do return r.set u (← term.routes.tag u)) Routes.empty
    let wrapped ← wrap term seedTerm.space seedTerm.baseline (inner.update seedTerm.routes)
    return (wrapped, companions)
  else return (seedTerm, [])

def quotientTrunk (space base baseline backbone : Space) (isRegular : Bool) (seedTerm : Term) :
    Tagged (Option Term × Projection) := do
  if isRegular then
    if space == baseline then return (none, ⟨[], [], []⟩)
    else return (some (← c.compile base baseline), ⟨[], [], ← space.baseJoints⟩)
  else
    let baseline := if baseline == space then baseline.base?.getD baseline else baseline
    let trunk ← c.compile base baseline
    let joints ← seedTerm.glueTo trunk
    let units := joints.map fun j => Code.ofKernel j.right backbone
    return (some trunk, ⟨joints.map (·.right), units,
      (joints.zip units).map fun (j, u) => ⟨j.left, u⟩⟩)

/-- The seed of a quotient whose kernels do not depend on the rows is grouped by a constant. -/
def constantBasis (mark : Mark) (seed : Space) (kernels : List Code) (seedTerm : Term) :
    Tagged (Term × List Code) := do
  if kernels.all (·.units.isEmpty) then
    let unit : Code := .single mark (.literal mark .boolean (.boolean true)) seed []
    let head : Head := ⟨← freshTag, seedTerm.space, seedTerm.baseline,
      seedTerm.routes.set unit seedTerm.tag⟩
    return (.permanent head seedTerm, [unit])
  else return (seedTerm, [])

def groupable (mark : Mark) (kernels : List Code) (seedTerm : Term) : Tagged Term := do
  if kernels.isEmpty then return seedTerm
  else
    let t ← c.inject seedTerm kernels
    filterBy t (kernelFilter mark kernels) t.space t.routes

def seedAggregates (seed complement : Space) (kernels companions : List Code) (isRegular : Bool)
    (seedTerm : Term) : Tagged (Term × List Code) :=
  if !companions.isEmpty && isRegular then
    prepareAggregates c seed complement kernels companions seedTerm
  else return (seedTerm, [])

def joinProjection (space : Space) (trunk : Option Term) (joints : List Joint) (units : List Code)
    (term : Term) : Tagged Term := do
  match trunk with
  | none => return term
  | some trunk =>
    let left ← injectJoints c trunk joints
    let routes := (left.routes.update term.routes).setAll (units.map (·.withSpace space)) term.tag
    attach left term joints false space routes

/-- The groups of a seed: a projection on the kernels, without the rows where a kernel is null. -/
def compileQuotient (space baseline : Space) (mark : Mark) (base seed : Space)
    (kernels companions : List Code) : Tagged Term := do
  let backbone := space.inflate
  let ground := Space.groundOf base seed
  let complement : Space := .complement mark (backbone.withCompanions []) []
  let seedTerm ← c.compile seed ground.inflatedAncestor
  let seedTerm ← groupable c mark kernels seedTerm
  let seedTerm ← rewrap seedTerm
  let isRegular := seedTerm.baseline == ground
  let (seedTerm, aggregates) ←
    seedAggregates c seed complement kernels companions isRegular seedTerm
  let (trunk, p) ← quotientTrunk c space base baseline backbone isRegular seedTerm
  let basis := (← ground.baseJoints).map (·.right) ++ kernels
  let units := p.units ++ basis.map (Code.ofKernel · backbone) ++
    aggregates.map fun a => .aggregate a.mark a complement backbone []
  let (seedTerm, constant) ← constantBasis mark seed kernels seedTerm
  let tag ← freshTag
  let term : Term := .projection ⟨tag, backbone, backbone, .setAll .empty units tag⟩ seedTerm
    (p.basis ++ basis ++ constant)
  joinProjection c space trunk p.joints units term

def isPlainQuotient : Space → Bool
  | .quotient _ _ _ _ cs => cs.isEmpty
  | _ => false

def keptRows (isFiltered : Bool) (mark : Mark) (kernels : List Code) (seedTerm : Term) :
    Tagged Term :=
  if isFiltered then filterBy seedTerm (kernelFilter mark kernels) seedTerm.space seedTerm.routes
  else return seedTerm

def complementTrunk (axis baseline : Space) : Tagged (Option Term) := do
  if axis.concludes baseline then return some (← c.compile axis baseline) else return none

def seedGlue (isRegular : Bool) (seedTerm trunk : Term) : Result (List Joint) :=
  if isRegular then return [] else seedTerm.glueTo trunk

def complementJoints (joined backbone : Space) (isRegular : Bool) (seedTerm : Term) :
    Option Term → Result (List Code × List Joint)
  | none => return ([], [])
  | some trunk => do
    let glued ← seedGlue isRegular seedTerm trunk
    let units := glued.map fun j => Code.ofCovered j.right backbone
    let own ← joined.baseJoints
    return (units, (glued.zip units).map (fun (j, u) => (⟨j.left, u⟩ : Joint)) ++ own)

def quotientUnits (hasQuotient : Bool) (base : Space) : Result (List Code) :=
  if hasQuotient then base.inflate.exports else return []

def joinCovering (space : Space) (trunk : Option Term) (joints : List Joint)
    (units seedUnits : List Code) (seedTerm term : Term) : Tagged Term := do
  match trunk with
  | none => return term
  | some trunk =>
    let left ← injectJoints c trunk joints
    let routes := (left.routes.update term.routes).setAll units seedTerm.tag
    let routes ← routeSeed routes seedTerm.routes seedUnits space
    attach left term joints false space routes

/-- The rows behind the groups of a quotient. The quotient itself is left out where the kernels in the
rows say the same. -/
def compileComplement (space baseline : Space) (mark : Mark) (base seed ground : Space)
    (kernels companions : List Code) : Tagged Term := do
  let backbone := space.inflate
  let codes := kernels ++ companions
  let seedTerm ← compileSeed c seed ground codes
  let isRegular := seedTerm.baseline == ground
  let hasQuotient := (!(baseline == space) || !isRegular) && isPlainQuotient base
  let seedTerm ← keptRows (hasQuotient && !kernels.isEmpty) mark kernels seedTerm
  let seedTerm ← rewrap seedTerm
  let axis := if hasQuotient then base.base?.getD base else base
  let baseline :=
    if isRegular then baseline else (baseline.ancestors.find? (axis.concludes ·)).getD baseline
  let trunk ← complementTrunk c axis baseline
  let joined := if hasQuotient then base else space
  let (gluedUnits, joints) ← complementJoints joined backbone isRegular seedTerm trunk
  let groupUnits ← quotientUnits hasQuotient base
  let covered := seedTerm.routes.units ++ (← ground.baseJoints).map (·.right) ++ codes
  let coveringUnits := gluedUnits ++ covered.map (Code.ofCovered · backbone)
  let seedUnits ← seed.exports
  let routes ← routeSeed (.setAll .empty (groupUnits ++ coveringUnits) seedTerm.tag)
    seedTerm.routes seedUnits backbone
  let term ← wrap seedTerm backbone (if hasQuotient then base.inflate else backbone) routes
  let units := groupUnits.map (·.withSpace base) ++ coveringUnits.map (·.withSpace space)
  joinCovering c space trunk joints units seedUnits seedTerm term

/-- Where the shoot of a covering space is glued to the trunk: a fork stands beside the base of its
ground. -/
def coveringGlue (forkGround : Option Space) (seedTerm trunk : Term) : Result (List Joint) :=
  match forkGround with
  | some ground =>
    trunk.space.glue trunk.baseline (ground.base?.getD ground) seedTerm.baseline
  | none => seedTerm.glueTo trunk

def coveringTrunk (space base baseline : Space) (forkGround : Option Space) (isRegular : Bool)
    (seedTerm : Term) : Tagged (Option Term × List Joint) := do
  if isRegular then
    if baseline == space then return (none, [])
    else return (some (← c.compile base baseline), [])
  else
    let baseline := if baseline == space then baseline.base?.getD baseline else baseline
    let trunk ← c.compile base baseline
    let glued ← coveringGlue forkGround seedTerm trunk
    return (some trunk, glued.map fun j => ⟨j.left, Code.ofCovered j.right space.inflate⟩)

def compileCovering (space baseline base seed ground : Space) (forkGround : Option Space)
    (codes : List Code) : Tagged Term := do
  let backbone := space.inflate
  let seedTerm ← compileSeed c seed ground codes
  let isRegular := seedTerm.baseline == ground
  let seedTerm ← rewrap seedTerm
  let (trunk, glued) ← coveringTrunk c space base baseline forkGround isRegular seedTerm
  let joints := glued ++ (← space.baseJoints)
  let units := seedTerm.routes.units.map (Code.ofCovered · backbone) ++ joints.map (·.right) ++
    codes.map (Code.ofCovered · backbone)
  let seedUnits ← seed.exports
  let routes ← routeSeed (.setAll .empty units seedTerm.tag) seedTerm.routes seedUnits backbone
  let term ← wrap seedTerm backbone backbone routes
  joinCovering c space trunk joints (units.map (·.withSpace space)) seedUnits seedTerm term

def compileFiltered (space base baseline : Space) (condition : Code) : Tagged Term := do
  let kid ← c.inject (← c.compile base baseline) [condition]
  filterBy kid condition space (← routeExports kid.routes space space.inflate)

/-- Sorted rows. A range is cut from all rows, so below it no axis is left out. -/
def compileOrdered (root space base baseline : Space) (limit offset : Option Int) :
    Tagged Term := do
  let backbone := space.inflate
  if limit.isNone && offset.isNone then
    let kid ← c.compile base baseline
    wrap kid space kid.baseline (← routeExports kid.routes space backbone)
  else
    let items := space.arrange true true
    let kid ← c.inject (← c.compile base root) (items.map (·.1))
    let routes ← routeExports kid.routes space backbone
    return .order ⟨← freshTag, space, kid.baseline, routes⟩ kid items limit offset

def compileSpace (root space baseline : Space) : Tagged Term := do
  ensure baseline.isInflated .inflatedBaseline
  ensure (space.concludes baseline) .compiledAbove
  match space with
  | .root _ => compileScalar c space space baseline
  | .scalar _ b => compileScalar c space b baseline
  | .table _ b _ | .fiber _ b _ => compileTable c space b baseline
  | .quotient m b s ks cs => compileQuotient c space baseline m b s ks cs
  | .complement m b cs =>
    match b.family with
    | .quotient s g ks _ => compileComplement c space baseline m b s g ks cs
    | _ => throw (.invariant .complementBase)
  | .moniker _ b s cs => compileCovering c space baseline b s (Space.monikerGround b s) none cs
  | .forked _ b s ks cs =>
    compileCovering c space baseline b s s.lastAxis (some s.lastAxis) (ks ++ cs)
  | .linked _ b s is cs =>
    compileCovering c space baseline b s (Space.groundOf b s) none (is.map (·.2) ++ cs)
  | .filtered _ b f => compileFiltered c space b baseline f
  | .ordered _ b _ l o => compileOrdered c root space b baseline l o

/-- A term for a space that shows only the axes which the trunk does not determine. -/
def compileShoot (space trunk : Space) (codes : List Code) : Tagged Term := do
  c.inject (← c.compile space (space.shootBaseline trunk)) codes

/-- Joins a shoot to a trunk; rows of the trunk without a match are kept. -/
def joinShoot (trunk shoot : Term) (extra : Routes) : Tagged Term := do
  ensure (trunk.space.spans shoot.space) .singularShoot
  let joints ← shoot.glueTo trunk
  let trunk ← injectJoints c trunk joints
  let space := (trunk.space.ancestors.find? (shoot.space.spans ·)).getD trunk.space
  attach trunk shoot joints (!shoot.space.dominates space) trunk.space (trunk.routes.update extra)

/-- Makes a term route the units that a space exports. -/
def injectSpace (t : Term) (space : Space) : Tagged Term := do
  let units ← space.exports
  if units.all t.routes.contains then return t
  else if t.space.concludes space then
    let left ← c.compile (t.baseline.base?.getD t.baseline) space
    let joints ← t.baseline.baseJoints
    let left ← injectJoints c left joints
    attach left t joints false t.space (left.routes.update t.routes)
  else
    let shoot ← compileShoot c space t.space []
    let extra ← units.foldlM (fun r u => do return r.set u (← shoot.routes.tag u)) Routes.empty
    joinShoot c t shoot extra

def opened (shoot : Term) : Tagged Term :=
  if shoot.isNullary then rewrap shoot else return shoot

def injectSingle (t : Term) (unit : Code) (space : Space) : Tagged Term := do
  let companions := unit.companions.map fun k => Code.single k.mark k space []
  let units := unit :: companions.filter (!t.routes.contains ·)
  let codes := units.filterMap (·.operand?)
  if space.dominates t.space then
    let kid ← c.inject t codes
    let tag ← freshTag
    return .wrapper ⟨tag, kid.space, kid.baseline, kid.routes.setAll units tag⟩ kid
  else
    let shoot ← compileShoot c space t.space codes
    let shoot ← opened shoot
    joinShoot c t shoot (.setAll .empty units shoot.tag)

/-- The term for the rows of a unit: the trunk itself, or a shoot of its own. -/
def unitRows (t : Term) (space : Space) (isNative : Bool) : Tagged Term :=
  if isNative then return t else compileShoot c space t.space []

/-- Joins aggregates to the rows of their unit: the plural rows are grouped by what ties them to these
rows. The tag is that of the groups. -/
def joinAggregates (unit : Code) (units : List Code) (plural space : Space) (unitTerm : Term) :
    Tagged (Term × Nat) := do
  let pluralTerm ← compileShoot c plural unitTerm.space (units.filterMap (·.operand?))
  let unitJoints ← pluralTerm.glueTo unitTerm
  let unitTerm ← injectJoints c unitTerm unitJoints
  let projected ← (Space.quotient unit.mark space.inflate plural [] []).checked
  let tag ← freshTag
  let joints := unitJoints.map fun j => (⟨j.left, Code.ofKernel j.right projected⟩ : Joint)
  let projection : Term := .projection
    ⟨tag, projected, projected, .setAll .empty (joints.map (·.right)) tag⟩ pluralTerm
    (unitJoints.map (·.right))
  let joined ← attach unitTerm projection joints (!projected.dominates unitTerm.space)
    unitTerm.space (unitTerm.routes.setAll units tag)
  return (joined, tag)

def injectAggregate (t : Term) (unit : Code) (plural space : Space) : Tagged Term := do
  let companions := unit.companions.map fun k => Code.aggregate k.mark k plural space []
  let units := unit :: companions.filter (!t.routes.contains ·)
  let isNative := t.space.ancestors.any (space.dominates ·)
  let unitTerm ← unitRows c t space isNative
  let (joined, tag) ← joinAggregates c unit units plural space unitTerm
  if isNative then return joined else joinShoot c t joined (.setAll .empty units tag)

def constrained (mark : Mark) (conditions : List Code) (t : Term) : Tagged Term :=
  if conditions.isEmpty then return t
  else filterBy t (conjunction mark conditions) t.space t.routes

/-- Puts a correlated subquery beside the rows of its unit. The tag is that of the subquery. -/
def embedSubquery (unit operand : Code) (plural : Space) (unitTerm : Term) :
    Tagged (Term × Nat) := do
  let pluralTerm ← compileShoot c plural unitTerm.space [operand]
  let joints ← pluralTerm.glueTo unitTerm
  let unitTerm ← injectJoints c unitTerm joints
  let conditions := joints.map fun j =>
    Code.formula unit.mark .boolean (.polar .isEqual 1) [.correlation j.left.mark j.left, j.right]
  let pluralTerm ← constrained unit.mark conditions pluralTerm
  let tag ← freshTag
  let subquery : Term := .correlation ⟨tag, pluralTerm.space, pluralTerm.baseline, pluralTerm.routes⟩
    pluralTerm
  let head : Head := ⟨← freshTag, unitTerm.space, unitTerm.baseline, unitTerm.routes.set unit tag⟩
  return (.embedding head unitTerm subquery (joints.map (·.left)), tag)

def injectCorrelated (t : Term) (unit operand : Code) (plural space : Space) : Tagged Term := do
  let isNative := space.dominates t.space
  let unitTerm ← unitRows c t space isNative
  let (joined, tag) ← embedSubquery c unit operand plural unitTerm
  if isNative then return joined else joinShoot c t joined (Routes.empty.set unit tag)

def injectCovering (t : Term) (unit operand : Code) (space : Space) : Tagged Term := do
  let space := space.withCompanions (space.companions ++ [operand])
  let shoot ← compileShoot c space t.space []
  let t ← joinShoot c t shoot (Routes.empty.set unit (← shoot.routes.tag unit))
  ensure (t.routes.contains unit) .exportedCovering
  return t

def injectUnit (t : Term) (unit : Code) (space : Space) : Tagged Term := do
  if t.routes.contains unit then return t
  else if !t.space.spans space then throw (.query .singularExpected unit.mark)
  else
    match unit with
    | .single _ _ _ _ => injectSingle c t unit space
    | .aggregate _ _ p _ _ => injectAggregate c t unit p space
    | .correlated _ k p _ => injectCorrelated c t unit k p space
    | .kernel _ _ _ =>
      let t ← injectSpace c t space
      ensure (t.routes.contains unit) .exportedKernel
      return t
    | .covering _ k _ => injectCovering c t unit k space
    | _ => injectSpace c t space

def injectCodes (t : Term) (codes : List Code) : Tagged Term :=
  codes.foldlM (fun t code =>
    if t.routes.contains code then pure t
    else
      match code.space? with
      | some s => injectUnit c t code s
      | none => c.inject t code.units) t

def compilerTo (root : Space) : Nat → Compiler
  | 0 => ⟨fun _ _ => throw .endless, fun _ _ => throw .endless⟩
  | n + 1 =>
    ⟨fun space baseline => compileSpace (compilerTo root n) root space baseline,
      fun t codes => injectCodes (compilerTo root n) t codes⟩

/-- How deep calls may nest; the nesting of a query is far less. -/
def greatestDepth : Nat := 10000

def compiler (root : Space) : Compiler := compilerTo root greatestDepth

def segmentOrder (s : Segment) : List OrderItem :=
  Space.distinctItems (s.root.arrange true true ++ s.space.arrange true true)

def sorted (kid : Term) (items : List OrderItem) : Tagged Term := do
  if items.isEmpty then return kid
  else return .order ⟨← freshTag, kid.space, kid.baseline, kid.routes⟩ kid items none none

/-- The result of a compilation that starts with the first tag. -/
def run {α : Type} (x : Tagged α) : Result α := x.run' 1

/-- What is kept from one call to the next: the tag that comes next, the baseline of a call that names
none, and the baselines that are put aside for the one in use. -/
structure Session where
  root : Space
  next : Nat
  baseline : Space
  stack : List Space

namespace Session

/-- A session starts with the first tag, and with its root for the baseline. -/
def start (root : Space) : Session := ⟨root, 1, root, []⟩

def enter (σ : Session) (baseline : Space) : Result Session := do
  ensure baseline.isInflated .inflatedBaseline
  return { σ with baseline := baseline, stack := σ.baseline :: σ.stack }

/-- Takes the baseline again that was put aside last. -/
def leave (σ : Session) : Session :=
  match σ.stack with
  | [] => σ
  | b :: rest => { σ with baseline := b, stack := rest }

end Session

abbrev Compiling := StateT Session Result

def inSession {α : Type} (step : Session → Tagged α) : Compiling α := fun σ => do
  let (a, next) ← step σ σ.next
  return (a, { σ with next := next })

def compileIn (space : Space) (baseline : Option Space) : Compiling Term := do
  match baseline with
  | none => inSession fun σ => (compiler σ.root).compile space σ.baseline
  | some b =>
    set (← (← get).enter b)
    let t ← inSession fun σ => (compiler σ.root).compile space σ.baseline
    modify Session.leave
    return t

def injectIn (t : Term) (codes : List Code) : Compiling Term :=
  inSession fun σ => (compiler σ.root).inject t codes

def compileSegment (s : Segment) : Compiling Term := do
  let trunk ← compileIn s.space (← get).root
  let items := segmentOrder s
  let kid ← injectIn trunk (s.codes ++ items.map (·.1))
  let kid ← inSession fun _ => sorted kid items
  return .segment ⟨← inSession fun _ => freshTag, kid.space, kid.baseline, kid.routes⟩ kid s.codes

def ofSegment (s : Segment) : Result Term := (compileSegment s).run' (.start s.root)

end Term

end NavQuery
