import NavQuery.Frame
import NavQuery.Term

/-!
A claim asks a frame, the broker, for a unit that some term below it, the target, computes. Claims are
demanded on the way down, from the broker nearest to the one that wants the unit, and supplied on the way
up.
-/

namespace NavQuery

structure Claim where
  unit : Code
  broker : Nat
  target : Nat

instance : BEq Claim :=
  ⟨fun a b => a.broker == b.broker && a.target == b.target && a.unit == b.unit⟩

structure Ledger where
  claims : List Claim
  phrases : List (Claim × Phrase)

namespace Ledger

def empty : Ledger := ⟨[], []⟩

def find? (l : Ledger) (c : Claim) : Option Phrase := (l.phrases.find? (·.1 == c)).map (·.2)

def claimsOf (l : Ledger) (broker : Nat) : List Claim := l.claims.filter (·.broker == broker)

end Ledger

/-- Where units are looked for: which kid of a term leads to a tag, and how units are routed. Inside an
outer join everything may be null. -/
structure Gate where
  nullable : Bool
  dispatcher : Term
  routes : Routes
  correlations : List (Code × Phrase)

namespace Gate

def enter (g : Gate) (nullable : Bool) (kid : Term) : Gate :=
  { g with nullable, dispatcher := kid, routes := kid.routes }

def routedBy (g : Gate) (kid : Term) : Gate := { g with routes := kid.routes }

def appoint (g : Gate) (unit : Code) : Result Claim := do
  let target ← g.routes.tag unit
  return ⟨unit, ← require (g.dispatcher.offspring? target) .routedDescendant, target⟩

def forward (g : Gate) (c : Claim) : Result Claim := do
  return { c with broker := ← require (g.dispatcher.offspring? c.target) .claimedDescendant }

def supplied (g : Gate) (l : Ledger) (unit : Code) : Result Phrase := do
  require (l.find? (← g.appoint unit)) .suppliedUnit

def correlated (g : Gate) (code : Code) : Result Phrase :=
  require ((g.correlations.find? (·.1 == code)).map (·.2)) .evaluatedCorrelation

end Gate

def Phrase.ofFormula (domain : Domain) (f : Operator) (arguments : List Phrase) : Phrase :=
  let any := arguments.any (·.nullable)
  match f.kind with
  | .isEqual | .isIn | .compare | .like => fromPredicate (formula domain any f arguments)
  | .isTotallyEqual | .isNull | .exists => fromPredicate (formula domain false f arguments)
  | .nullIf => formula domain true f arguments
  | .ifNull => formula domain (arguments.all (·.nullable)) f arguments
  | .count => formula domain false f arguments
  | .and | .or | .not =>
    fromPredicate (formula domain any f (arguments.map Phrase.toPredicate))
  | _ => formula domain any f arguments

mutual

def Code.evaluate (g : Gate) (l : Ledger) : Code → Result Phrase
  | .missing => .error .missingEntry
  | .literal _ d v => pure (.ofValue d v)
  | .parameter _ d n => pure (.parameter d n)
  | .cast _ d c => do return .castTo d (← c.evaluate g l)
  | .formula _ d f as => do return .ofFormula d f (← Code.evaluateAll g l as)
  | .correlation _ c => g.correlated c
  | .column m d c s => g.supplied l (.column m d c s)
  | .single m c s cs => g.supplied l (.single m c s cs)
  | .aggregate m c p s cs => g.supplied l (.aggregate m c p s cs)
  | .correlated m c p s => g.supplied l (.correlated m c p s)
  | .kernel m c s => g.supplied l (.kernel m c s)
  | .covering m c s => g.supplied l (.covering m c s)

def Code.evaluateAll (g : Gate) (l : Ledger) : List Code → Result (List Phrase)
  | [] => pure []
  | c :: cs => do return (← c.evaluate g l) :: (← Code.evaluateAll g l cs)

end

namespace Frame

abbrev Assembling := StateT Ledger Result

def evaluate (g : Gate) (c : Code) : Assembling Phrase := do c.evaluate g (← get)

def demand (c : Claim) : Assembling Unit :=
  modify fun l => if l.claims.any (· == c) then l else { l with claims := l.claims ++ [c] }

def supply (c : Claim) (p : Phrase) : Assembling Unit := do
  let l ← get
  ensure (l.claims.any (· == c)) .demandedClaim
  ensure (l.find? c).isNone .singleSupply
  set { l with phrases := l.phrases ++ [(c, p)] }

def schedule (g : Gate) (c : Code) : Assembling Unit :=
  c.units.forM fun u => do demand (← g.appoint u)

def scheduleAll (g : Gate) (cs : List Code) : Assembling Unit := cs.forM (schedule g)

def delegateClaim (g : Gate) (tag : Nat) (c : Claim) : Assembling Unit := do
  if c.target ≠ tag then demand (← g.forward c)
  else
    ensure c.unit.isCompound .compoundClaim
    c.unit.operand?.forM (schedule g)

def delegateClauses (g : Gate) : Term → Assembling Unit
  | .filter _ k c => schedule (g.routedBy k) c
  | .order _ k items _ _ => scheduleAll (g.routedBy k) (items.map (·.1))
  | .join _ l r joints _ => joints.forM fun j => do
    schedule (g.routedBy l) j.left
    schedule (g.routedBy r) j.right
  | .embedding _ l _ codes => scheduleAll (g.routedBy l) codes
  | _ => pure ()

def delegate (g : Gate) (t : Term) : Assembling Unit := do
  let claims := (← get).claimsOf t.tag
  match t with
  | .segment _ _ codes =>
    ensure claims.isEmpty .segmentClaims
    scheduleAll g codes
  | .correlation _ _ =>
    match claims with
    | [c] =>
      ensure (c.target == t.tag) .correlationClaim
      c.unit.operand?.forM (schedule g)
    | _ => throw (.invariant .correlationClaim)
  | .projection _ k kernels =>
    claims.forM (delegateClaim (g.routedBy k) t.tag)
    scheduleAll (g.routedBy k) kernels
  | _ =>
    claims.forM (delegateClaim g t.tag)
    delegateClauses g t

def place (select : List Phrase) (p : Phrase) : List Phrase × Nat :=
  match select.findIdx? (· == p) with
  | some i => (select, i)
  | none => (select ++ [p], select.length)

def claimed (g : Gate) (tag : Nat) (c : Claim) : Assembling Phrase := do
  if c.target ≠ tag then require ((← get).find? (← g.forward c)) .forwardedClaim
  else
    match c.unit.operand? with
    | some code => evaluate g code
    | none => throw (.invariant .compoundClaim)

def exportClaims (g : Gate) (tag : Nat) : List Claim → List Phrase → Assembling (List Phrase)
  | [], select => pure select
  | c :: cs, select => do
    let p ← claimed g tag c
    let (select, index) := place select p
    supply c (.reference p.domain (p.nullable || g.nullable) tag index)
    exportClaims g tag cs select

def orTrue (select : List Phrase) : List Phrase :=
  if select.isEmpty then [.ofBool true] else select

def selectOf (g : Gate) (t : Term) : Assembling (List Phrase) := do
  let claims := (← get).claimsOf t.tag
  match t, claims with
  | .correlation _ _, c :: _ =>
    match c.unit.operand? with
    | some code =>
      let p ← evaluate g code
      supply c (.embedding p.domain t.tag)
      return [p]
    | none => throw (.invariant .correlationClaim)
  | .projection _ k _, _ => return orTrue (← exportClaims (g.routedBy k) t.tag claims [])
  | _, _ => return orTrue (← exportClaims g t.tag claims [])

def selectOutputs (g : Gate) : List Code → List Phrase → Assembling (List Phrase × List Nat)
  | [], select => pure (select, [])
  | c :: cs, select => do
    let (select, index) := place select (← evaluate g c)
    let (select, indices) ← selectOutputs g cs select
    return (select, index :: indices)

def plainClauses (role : Role) (tag : Nat) (select : List Phrase) : Clauses :=
  ⟨role, tag, select, none, [], none, [], none, none, []⟩

def isVariable (c : Code) : Bool := !c.units.isEmpty

def clausesOf (g : Gate) (t : Term) : Assembling Clauses := do
  match t with
  | .segment h _ codes =>
    let (select, outputs) ← selectOutputs g codes []
    return { plainClauses .segment h.tag (orTrue select) with outputs }
  | .permanent h _ => return plainClauses .permanent h.tag (← selectOf g t)
  | .filter h k c =>
    let clauses := plainClauses .nested h.tag (← selectOf g t)
    return { clauses with filter := some (← evaluate (g.routedBy k) c).toPredicate }
  | .projection h k kernels =>
    let clauses := plainClauses .nested h.tag (← selectOf g t)
    let group ← (kernels.filter isVariable).mapM (evaluate (g.routedBy k))
    return { clauses with group := orTrue group }
  | .order h k items limit offset =>
    let clauses := plainClauses .nested h.tag (← selectOf g t)
    let order ← (items.filter (isVariable ·.1)).mapM fun i => do
      pure (← evaluate (g.routedBy k) i.1, i.2)
    return { clauses with order, limit, offset }
  | t => return plainClauses .nested t.tag (← selectOf g t)

def joinCondition (g : Gate) (left right : Term) (joints : List Joint) (outer : Bool) :
    Assembling (Option Phrase) := do
  let equalities ← joints.mapM fun j => do
    let l ← evaluate (g.routedBy left) j.left
    let r ← evaluate (g.routedBy right) j.right
    pure (Phrase.formula .boolean (l.nullable || r.nullable) (.polar .isEqual 1) [l, r])
  if !equalities.isEmpty then
    return some (.formula .boolean (equalities.any (·.nullable)) (.plain .and) equalities)
  else if outer then return some (Phrase.ofBool true).toPredicate
  else return none

def branch (g : Gate) (t : Term) (anchors : Assembling (List (Anchor Frame)))
    (embedded : Assembling (List Frame)) : Assembling Frame := do
  delegate g t
  let anchors ← anchors
  let embedded ← embedded
  return .query (← clausesOf g t) anchors embedded

def exportColumn (g : Gate) (tag : Nat) (t : Table) (c : Claim) : Assembling Unit := do
  match c.target == tag, c.unit with
  | true, .column _ _ column _ =>
    ensure (column.owner == t.name) .columnOwner
    supply c (.column (column.nullable || g.nullable) tag column)
  | _, _ => throw (.invariant .tableExports)

def ofTable (g : Gate) (tag : Nat) (table : Option Table) : Assembling Frame := do
  let t ← require table .tableTerm
  ((← get).claimsOf tag).forM (exportColumn g tag t)
  return .table tag t

def single (g : Gate) (kid : Term) (make : Gate → Assembling Frame) :
    Assembling (List (Anchor Frame)) := do
  return [.plain (← make (g.enter false kid))]

def assemble : Term → Gate → Assembling Frame
  | .scalar h, _ => do
    ensure ((← get).claimsOf h.tag).isEmpty .scalarExports
    return .scalar h.tag
  | .table h, g => ofTable g h.tag h.space.family.table?
  | .filter h k c, g => branch g (.filter h k c) (single g k fun g => assemble k g) (pure [])
  | .join h l r joints outer, g =>
    let anchors := do
      let left ← assemble l (g.enter false l)
      let right ← assemble r (g.enter outer r)
      let condition ← joinCondition g l r joints outer
      pure [.plain left, ⟨right, condition, outer, false⟩]
    branch g (.join h l r joints outer) anchors (pure [])
  | .embedding h l r codes, g =>
    let subquery := do
      let correlations ← codes.mapM fun c => do pure (c, ← evaluate (g.routedBy l) c)
      pure [← assemble r { g.enter true r with correlations }]
    branch g (.embedding h l r codes) (single g l fun g => assemble l g) subquery
  | .correlation h k, g => branch g (.correlation h k) (single g k fun g => assemble k g) (pure [])
  | .projection h k ks, g =>
    branch g (.projection h k ks) (single g k fun g => assemble k g) (pure [])
  | .order h k is l o, g =>
    branch g (.order h k is l o) (single g k fun g => assemble k g) (pure [])
  | .wrapper h k, g => branch g (.wrapper h k) (single g k fun g => assemble k g) (pure [])
  | .permanent h k, g => branch g (.permanent h k) (single g k fun g => assemble k g) (pure [])
  | .segment h k cs, g => branch g (.segment h k cs) (single g k fun g => assemble k g) (pure [])

structure Assembled where
  frame : Frame
  claims : Nat

def ofTerm (t : Term) : Result Assembled := do
  match t with
  | .segment _ _ _ =>
    let (frame, l) ← (assemble t ⟨false, t, t.routes, []⟩).run .empty
    ensure (l.claims.length == l.phrases.length) .suppliedClaims
    return ⟨frame, l.claims.length⟩
  | _ => throw (.invariant .segmentTerm)

end Frame

end NavQuery
