import NavQuery.Binding.Function
import NavQuery.Domain.Literal
import NavQuery.Expr.Printer

/-!
Resolves the names of an expression in a scope and checks the domains of its operands. Of a parameter
only the declared domain is known here, never its value.
-/

namespace NavQuery

namespace Domain

def isScalar : Domain → Bool
  | entity _ | record _ | unknown | void | list _ | identity _ => false
  | _ => true

def isComparable : Domain → Bool
  | integer | float | decimal | text | enum _ | date | time | dateTime => true
  | _ => false

def settled (d : Domain) : Domain := if d.isUntyped then text else d

end Domain

structure Context where
  catalog : Catalog
  parameters : List (Text × Domain)
  source : Source

def Context.mark (c : Context) (s : Span) : Mark := .at c.source s.start s.stop

namespace Binding

abbrev Binder := Binding → Result Binding

/-- How an item of a selection is taken: as a value, or as all columns of the scope or of another
flow. -/
inductive Shape
  | value
  | star (span : Span)
  | starOf (span : Span) (flow : Binder)

structure Operand where
  expr : Expr
  bind : Binder
  shape : Shape

def fail {α : Type} (problem : Problem) (mark : Mark) : Result α := .error (.query problem mark)

def rootOf (c : Context) : Binding := .root ⟨.entity "@", "@", .at c.source 0 0⟩

def value (bind : Binder) (scope : Binding) : Result Binding := do (← bind scope).unambiguous

def scalar (bind : Binder) (scope : Binding) : Result Binding := do
  let b ← value bind scope
  if b.domain.isScalar then return b else fail .scalarExpected b.mark

def flow (bind : Binder) (scope : Binding) : Result Binding := do
  let b ← value bind scope
  match b.linked? with
  | some l => return l
  | none => if b.isFlow then return b else fail .flowExpected b.mark

def target (bind : Binder) (scope : Binding) : Result Binding := do
  let b ← value bind scope
  if b.selectionBase?.isSome then return b
  match b.linked? with
  | some l => return l
  | none => if b.isFlow then return b else fail .flowExpected b.mark

/-- Applies a change to a flow, or to the flow under a selection, which keeps its elements. -/
def mapFlow (f : Binding → Result Binding) : Binding → Result Binding
  | selection l base elements => do
    let base ← f base
    return .selection l base elements
  | b => f b

def literalOf (v : Value) (domain : Domain) (mark : Mark) (title : Text) : Binding :=
  .literal ⟨domain, title, mark⟩ v

def formulaOf (op : Operator) (arguments : List Binding) (domain : Domain) (scope : Binding)
    (mark : Mark) (title : Text) : Binding :=
  .formula ⟨domain, title, mark⟩ scope op arguments

def nameOf (c : Context) (mark : Mark) (name : Text) : Binder := fun scope => do
  match ← lookup? c.catalog scope name mark with
  | some b => return b
  | none =>
    let folded := foldName name
    if folded = Text.ofString "true" then return literalOf (.boolean true) .boolean mark folded
    else if folded = Text.ofString "false" then
      return literalOf (.boolean false) .boolean mark folded
    else if folded = Text.ofString "null" then return literalOf .null .untyped mark folded
    else fail (.unknownAttribute name) mark

def NumberKind.domain : NumberKind → Domain
  | .integer => .integer
  | .decimal => .decimal
  | .float => .float

def numberOf (mark : Mark) (kind : NumberKind) (t : Text) : Result Binding :=
  let domain := NumberKind.domain kind
  match domain.read t with
  | .ok v => .ok (literalOf v domain mark t)
  | .error fault => fail (.badLiteral domain fault) mark

def referenceOf (c : Context) (mark : Mark) (name : Text) : Result Binding :=
  match c.parameters.lookup name with
  | none => fail (.unknownParameter name) mark
  | some domain => .ok (.parameter ⟨domain, "$" ++ name, mark⟩ name)

def isComputed : Binding → Bool
  | literal _ _ | parameter _ _ | cast _ _ | formula _ _ _ _ => true
  | _ => false

def composeOf (mark : Mark) (title : Text) (base field : Binder) : Binder := fun scope => do
  let left ← value base scope
  if !left.isFlow && left.linked?.isNone && left.selectionBase?.isNone then
    fail .flowExpected left.mark
  let right ← field left
  if right.isComputed then
    let inner := (left.linked?.or left.selectionBase?).getD left
    return .rescoping ⟨right.domain, title, mark⟩ right inner
  else return right

def sieveOf (mark : Mark) (condition : Binder) (base : Binding) : Result Binding := do
  let filter ← value condition base
  return .sieve ⟨base.domain, base.title, mark⟩ base (filter.inDomain .boolean)

def kernelOf (seed : Binding) (operand : Operand) : Result Binding := do
  let kernel ← value operand.bind seed
  if kernel.domain.isScalar then return kernel.settled.withTitle operand.expr.text
  else fail .scalarKernel kernel.mark

def projectOf (mark : Mark) (title : Text) (seed : Binder) (kernels : List Operand) : Binder :=
  fun scope => do
    let seed ← flow seed scope
    let kernels ← kernels.mapM (kernelOf seed)
    return .quotient ⟨.entity seed.title, title, mark⟩ scope seed kernels

/-- An expression read in the origin and in the target of a link, in a common domain. -/
def imageOf (c : Context) (scope seed : Binding) (operand : Operand) :
    Result (Binding × Binding) := do
  let left ← scalar operand.bind scope
  let right ← scalar operand.bind seed
  let domain := left.domain.coerce right.domain
  if domain.isScalar then return (left.inDomain domain.settled, right.inDomain domain.settled)
  else fail .noCommonImage (c.mark operand.expr.span)

def linkOf (c : Context) (mark : Mark) (images : List Operand) (seed : Binder) : Binder :=
  fun scope => do
    let seed ← flow seed (.home ⟨.entity "@", "@", mark⟩ scope)
    let images ← images.mapM (imageOf c scope seed)
    return .link ⟨seed.domain, seed.title, mark⟩ scope seed images

def commonDomain (operands : List Binding) (mark : Mark) : Result Domain :=
  match operands.map domain with
  | [] => fail .noCommonType mark
  | d :: ds =>
    let common := ds.foldl Domain.coerce d
    if common.isScalar then .ok common.settled else fail .noCommonType mark

def membershipOf (mark : Mark) (title : Text) (polarity : Int) (left : Binder)
    (items : List Operand) : Binder := fun scope => do
  let left ← value left scope
  let items ← items.mapM fun item => value item.bind scope
  let domain ← commonDomain (left :: items) mark
  return formulaOf (.polar .isIn polarity) ((left :: items).map (·.inDomain domain)) .boolean scope
    mark title

def connectiveOf (kind : Operator.Kind) (left right scope : Binding) (mark : Mark) (title : Text) :
    Binding :=
  formulaOf (.plain kind) [left.inDomain .boolean, right.inDomain .boolean] .boolean scope mark title

def equalityOf (kind : Operator.Kind) (polarity : Int) (left right scope : Binding) (mark : Mark)
    (title : Text) : Result Binding := do
  let domain ← commonDomain [left, right] mark
  return formulaOf (.polar kind polarity) [left.inDomain domain, right.inDomain domain] .boolean
    scope mark title

def containmentOf (polarity : Int) (left right scope : Binding) (mark : Mark) (title : Text) :
    Binding :=
  formulaOf (.polar .like polarity) [left.inDomain .text, right.inDomain .text] .boolean scope mark
    title

def orderingOf (symbol : Text) (left right scope : Binding) (mark : Mark) (title : Text) :
    Result Binding := do
  let domain ← commonDomain [left, right] mark
  if domain.isComparable then
    return formulaOf (.comparison symbol) [left.inDomain domain, right.inDomain domain] .boolean
      scope mark title
  else fail (.notComparable domain) mark

/-- An arithmetic operation on numbers. A sum of texts is their concatenation, and a quotient of
integers is a decimal. -/
def arithmeticOf (op : BinaryOp) (kind : Operator.Kind) (left right scope : Binding) (mark : Mark)
    (title : Text) : Result Binding :=
  let refuse : Result Binding := fail (.operands op.symbol left.domain right.domain) mark
  let formula (kind : Operator.Kind) (domain : Domain) : Result Binding :=
    .ok (formulaOf (.plain kind) [left.inDomain domain, right.inDomain domain] domain scope mark
      title)
  let domain := (left.domain.coerce right.domain).settled
  if domain = .text then if op = .add then formula .concat domain else refuse
  else if domain.isNumeric then
    formula kind (if op = .divide ∧ domain = .integer then .decimal else domain)
  else refuse

def binaryOf (mark : Mark) (title : Text) (op : BinaryOp) (left right : Binder) : Binder :=
  fun scope => do
    let l ← value left scope
    let r ← value right scope
    match op with
    | .and => return connectiveOf .and l r scope mark title
    | .or => return connectiveOf .or l r scope mark title
    | .equal => equalityOf .isEqual 1 l r scope mark title
    | .notEqual => equalityOf .isEqual (-1) l r scope mark title
    | .totallyEqual => equalityOf .isTotallyEqual 1 l r scope mark title
    | .totallyNotEqual => equalityOf .isTotallyEqual (-1) l r scope mark title
    | .contains => return containmentOf 1 l r scope mark title
    | .notContains => return containmentOf (-1) l r scope mark title
    | .less | .lessEqual | .greater | .greaterEqual => orderingOf op.symbol l r scope mark title
    | .add => arithmeticOf op .add l r scope mark title
    | .subtract => arithmeticOf op .subtract l r scope mark title
    | .multiply => arithmeticOf op .multiply l r scope mark title
    | .divide => arithmeticOf op .divide l r scope mark title

def membershipPolarity? : BinaryOp → Option Int
  | .equal => some 1
  | .notEqual => some (-1)
  | _ => none

def unaryOf (mark : Mark) (title : Text) (op : UnaryOp) (operand : Binder) : Binder :=
  fun scope => do
    let b ← value operand scope
    match op with
    | .not => return formulaOf (.plain .not) [b.inDomain .boolean] .boolean scope mark title
    | .plus =>
      if b.domain.isNumeric then return b else fail (.numericOperand op.symbol b.domain) mark
    | .minus =>
      if b.domain.isNumeric then
        return formulaOf (.plain .negate) [b] b.domain scope mark title
      else fail (.numericOperand op.symbol b.domain) mark

def directOf (mark : Mark) (d : Direction) (operand : Binder) : Binder := fun scope => do
  let b ← scalar operand scope
  return .direction ⟨b.domain, b.title, mark⟩ b d

def undirected : Expr → Expr
  | .direct _ e _ | e => e

/-- A value in a selection: the element under the title of its expression, and the sort key if it has
a direction. -/
def elementOf (scope : Binding) (operand : Operand) : Result (List Binding × List Binding) := do
  let bound ← value operand.bind scope
  let (element, orders) :=
    match bound with
    | direction _ inner _ => (inner, [bound])
    | b => (b, [])
  if element.isFlow then fail .nestedSegment element.mark
  if !element.domain.isScalar then fail .scalarExpected element.mark
  return ([element.settled.withTitle (undirected operand.expr).text], orders)

def itemOf (c : Context) (scope : Binding) (operand : Operand) :
    Result (List Binding × List Binding) :=
  match operand.shape with
  | .star span => do
    let columns ← expand c.catalog scope (c.mark span)
    return (columns, [])
  | .starOf span owner => do
    let owner ← flow owner scope
    let columns ← expand c.catalog owner (c.mark span)
    return (columns, [])
  | .value => elementOf scope operand

def recordOf (elements : List Binding) : Domain := .record (elements.map fun e => (e.title, e.domain))

def selectionOf (c : Context) (mark : Mark) (items : List Operand) : Binder := fun base => do
  let parts ← items.mapM (itemOf c base)
  let elements := parts.flatMap (·.1)
  let orders := parts.flatMap (·.2)
  let below := base.belowSelection
  let flow :=
    if orders.isEmpty then below
    else .sort ⟨below.domain, below.title, mark⟩ below orders none none
  return .selection ⟨recordOf elements, flow.title, mark⟩ flow elements

def orderOf (scope : Binding) (operand : Operand) : Result Binding := do
  let order ← value operand.bind scope
  let (inner, d) :=
    match order with
    | direction _ inner d => (inner, d)
    | b => (b, .ascending)
  if !inner.settled.domain.isScalar then fail .scalarExpected inner.mark
  if inner.domain.isUntyped then
    return .direction ⟨inner.settled.domain, [], order.mark⟩ inner.settled d
  else return order

def sortOf (mark : Mark) (arguments : List Operand) : Binder := fun scope => do
  let orders ← arguments.mapM (orderOf scope.belowSelection)
  mapFlow (fun base => .ok (.sort ⟨base.domain, base.title, mark⟩ base orders none none)) scope

/-- A count of rows has to be written as an integer and to fit in 63 bits. -/
def countOf (c : Context) (operand : Operand) : Result Int :=
  match operand.expr with
  | .number s .integer t =>
    if Text.toNat t < twoTo 63 then .ok (Text.toNat t) else fail .countTooLarge (c.mark s)
  | e => fail .countExpected (c.mark e.span)

def limitOf (c : Context) (mark : Mark) (arguments : List Operand) : Binder := fun scope => do
  let counts ← arguments.mapM (countOf c)
  mapFlow (fun base =>
    .ok (.sort ⟨base.domain, base.title, mark⟩ base [] counts.head? counts.tail.head?)) scope

def countAggregate (mark : Mark) (title : Text) (operand : Binder) : Binder := fun scope => do
  let b ← value operand scope
  return formulaOf (.plain .count) [b.inDomain .boolean] .integer scope mark title

def aggregateOf (kind : Operator.Kind) (mark : Mark) (title : Text) (operand : Binder) : Binder :=
  fun scope => do
    let b ← value operand scope
    match kind with
    | .sum | .avg =>
      if !b.domain.isNumeric then fail (.numericArgument b.domain) b.mark
      let domain := if kind = .avg ∧ b.domain = .integer then .decimal else b.domain
      return formulaOf (.plain kind) [b.inDomain domain] domain scope mark title
    | _ =>
      let b := b.settled
      if b.domain.isComparable then return formulaOf (.plain kind) [b] b.domain scope mark title
      else fail (.notComparable b.domain) b.mark

def quantifierOf (polarity : Int) (mark : Mark) (title : Text) (operand : Binder) : Binder :=
  fun scope => do
    let b ← value operand scope
    return formulaOf (.polar .exists polarity) [b.inDomain .boolean] .boolean scope mark title

def isNullOf (mark : Mark) (title : Text) (operand : Binder) : Binder := fun scope => do
  let b ← scalar operand scope
  return formulaOf (.polar .isNull 1) [b.settled] .boolean scope mark title

def choiceOf (kind : Operator.Kind) (mark : Mark) (title : Text) (arguments : List Operand) :
    Binder := fun scope => do
  let operands ← arguments.mapM fun a => scalar a.bind scope
  let domain ← commonDomain operands mark
  return formulaOf (.plain kind) (operands.map (·.inDomain domain)) domain scope mark title

def forkOf (mark : Mark) (arguments : List Operand) : Binder := fun scope => do
  if !scope.isFlow || scope.scopeTable.isNone then fail .tableScope mark
  let kernels ← arguments.mapM fun a => do return (← scalar a.bind scope).settled
  return .fork ⟨scope.domain, scope.title, mark⟩ scope kernels

def monikerOf (mark : Mark) (seed : Binder) : Binder := fun scope => do
  let seed ← flow seed scope
  return .cover ⟨seed.domain, seed.title, mark⟩ scope seed

def castOf (domain : Domain) (mark : Mark) (title : Text) (operand : Binder) : Binder :=
  fun scope => do
    let b ← value operand scope
    if !b.domain.isScalar && !domain.isBoolean then fail (.noConversion b.domain domain) mark
    if b.domain = domain then return b else return .cast ⟨domain, title, mark⟩ b

def applyFunction (c : Context) (mark : Mark) (title : Text) (refusal : Result Binding) :
    Function → List Operand → Binder
  | .filter, a :: _ => mapFlow (sieveOf mark a.bind)
  | .sort, as => sortOf mark as
  | .limit, as => limitOf c mark as
  | .select, as => selectionOf c mark as
  | .count, a :: _ => countAggregate mark title a.bind
  | .aggregate kind, a :: _ => aggregateOf kind mark title a.bind
  | .exists, a :: _ => quantifierOf 1 mark title a.bind
  | .every, a :: _ => quantifierOf (-1) mark title a.bind
  | .isNull, a :: _ => isNullOf mark title a.bind
  | .ifNull, as => choiceOf .ifNull mark title as
  | .nullIf, as => choiceOf .nullIf mark title as
  | .null, _ => fun _ => .ok (literalOf .null .untyped mark title)
  | .truth b, _ => fun _ => .ok (literalOf (.boolean b) .boolean mark title)
  | .fork, as => forkOf mark as
  | .moniker, a :: _ => monikerOf mark a.bind
  | .cast domain, a :: _ => castOf domain mark title a.bind
  | _, [] => fun _ => refusal

def callOf (c : Context) (mark : Mark) (title name : Text) (arguments : List Operand) : Binder :=
  fun scope =>
    match Function.ofName? name with
    | none => fail (.unknownFunction name) mark
    | some f =>
      let refusal := fail (.arity name f.arity.1 f.arity.2 arguments.length) mark
      if f.takes arguments.length then applyFunction c mark title refusal f arguments scope
      else refusal

mutual

/-- The binding of an expression in a scope. An ambiguous name gives an ambiguous binding. -/
def ofExpr (c : Context) : Expr → Binding → Result Binding
  | .name s t, scope => nameOf c (c.mark s) t scope
  | .string s content, _ =>
    .ok (literalOf (.text content) .untyped (c.mark s) (Expr.text (.string s content)))
  | .number s kind t, _ => numberOf (c.mark s) kind t
  | .reference s n, _ => referenceOf c (c.mark s) n
  | .wildcard s, _ => fail .misplacedWildcard (c.mark s)
  | .complement s, scope => lookupComplement scope (c.mark s)
  | .call s f arguments, scope =>
    callOf c (c.mark s) (Expr.text (.call s f arguments)) f (operands c arguments) scope
  | .record s items, scope => selectionOf c (c.mark s) (operands c items) scope
  | .group _ e, scope => ofExpr c e scope
  | .compose s base field, scope =>
    composeOf (c.mark s) (Expr.text (.compose s base field)) (fun b => ofExpr c base b)
      (fun b => ofExpr c field b) scope
  | .link s origin seed, scope =>
    linkOf c (c.mark s) ((recordItems c origin).getD [⟨origin, fun b => ofExpr c origin b, .value⟩])
      (fun b => ofExpr c seed b) scope
  | .sieve s base condition, scope => do
    let base ← target (fun b => ofExpr c base b) scope
    mapFlow (sieveOf (c.mark s) (fun b => ofExpr c condition b)) base
  | .project s base key, scope =>
    projectOf (c.mark s) (Expr.text (.project s base key)) (fun b => ofExpr c base b)
      ((recordItems c key).getD [⟨key, fun b => ofExpr c key b, .value⟩]) scope
  | .select s base _ items, scope => do
    let base ← target (fun b => ofExpr c base b) scope
    selectionOf c (c.mark s) (operands c items) base
  | .direct s operand d, scope => directOf (c.mark s) d (fun b => ofExpr c operand b) scope
  | .unary s op operand, scope =>
    unaryOf (c.mark s) (Expr.text (.unary s op operand)) op (fun b => ofExpr c operand b) scope
  | .binary s op left right, scope =>
    let title := Expr.text (.binary s op left right)
    match membershipPolarity? op, recordItems c right with
    | some polarity, some items =>
      membershipOf (c.mark s) title polarity (fun b => ofExpr c left b) items scope
    | _, _ =>
      binaryOf (c.mark s) title op (fun b => ofExpr c left b) (fun b => ofExpr c right b) scope

def operands (c : Context) : List Expr → List Operand
  | [] => []
  | e :: es => ⟨e, fun b => ofExpr c e b, shapeOf c e⟩ :: operands c es

def recordItems (c : Context) : Expr → Option (List Operand)
  | .record _ items => some (operands c items)
  | _ => none

def shapeOf (c : Context) : Expr → Shape
  | .wildcard s => .star s
  | .compose s base (.wildcard _) => .starOf s (fun b => ofExpr c base b)
  | .direct _ e _ => shapeOf c e
  | _ => .value

end

def limited (limit : Option Int) (base : Binding) : Binding :=
  match limit with
  | none => base
  | some n => .sort ⟨base.domain, base.title, base.mark⟩ base [] (some n) none

/-- What a query returns: the elements of a selection, all columns of a flow, or a single value. -/
def seedOf (c : Context) (e : Expr) (limit : Option Int) (b : Binding) : Result Binding :=
  match b with
  | selection l base elements => .ok (.selection l (limited limit base) elements)
  | b =>
    match if b.isFlow && b.linked?.isNone then some b else b.linked? with
    | some flow => do
      let base := limited limit flow
      let elements ← expand c.catalog base (c.mark e.span)
      return .selection ⟨recordOf elements, base.title, c.mark e.span⟩ base elements
    | none => .ok (b.settled.withTitle e.text)

def ofQuery (c : Context) (q : Query) (limit : Option Int) : Result (Option Binding) :=
  match q.flow with
  | none => .ok none
  | some e => do
    let b ← value (ofExpr c e) (rootOf c)
    let seed ← seedOf c e limit b
    return some (.collect ⟨seed.domain, seed.title, c.mark e.span⟩ (rootOf c) seed)

end Binding

end NavQuery
