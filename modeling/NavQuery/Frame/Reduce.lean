import NavQuery.Frame
import NavQuery.Phrase.Reduce

/-!
`collapse` merges nested queries into the queries around them where the rows stay the same, and `reduce`
puts the selected phrases in place of the references to them and simplifies all phrases.
-/

namespace NavQuery

namespace Phrase

mutual

def inline (tag : Tag) (select : List Phrase) : Phrase → Result Phrase
  | reference d n t i => if t = tag then entry select[i]? else pure (reference d n t i)
  | cast d _ p => do return castTo d (← inline tag select p)
  | formula d n f as => do return formula d n f (← inlineAll tag select as)
  | p => pure p

def inlineAll (tag : Tag) (select : List Phrase) : List Phrase → Result (List Phrase)
  | [] => pure []
  | p :: ps => do return (← inline tag select p) :: (← inlineAll tag select ps)

end

def conjoin : Option Phrase → Option Phrase → Option Phrase
  | none, q => q
  | p, none => p
  | some p, some q => some (formula .boolean (p.nullable || q.nullable) (.plain .and) [p, q])

end Phrase

def Clauses.isSliced (c : Clauses) : Bool := c.limit.isSome || c.offset.isSome

namespace Frame

structure Parts where
  clauses : Clauses
  anchors : List (Anchor Frame)
  embedded : List Frame

def Parts.frame (p : Parts) : Frame := .query p.clauses p.anchors p.embedded

mutual

def count : Frame → Nat
  | scalar _ | table _ _ => 1
  | query _ anchors embedded => countAnchors anchors + countAll embedded + 1

def countAnchors : List (Anchor Frame) → Nat
  | [] => 0
  | a :: as => countAnchor a + countAnchors as

def countAnchor : Anchor Frame → Nat
  | ⟨f, _, _, _⟩ => count f

def countAll : List Frame → Nat
  | [] => 0
  | f :: fs => count f + countAll fs

end

def sameOrder (a b : List SortItem) : Bool :=
  a.length == b.length && (a.zip b).all fun (i, j) => i.2 == j.2 && i.1 == j.1

/-- Whether a sliced head may be absorbed: the query around it only selects, in the same order. -/
def absorbsSlice (p : Parts) (head : Clauses) (rest : List (Anchor Frame)) : Result Bool := do
  let c := p.clauses
  if !rest.isEmpty || c.filter.isSome || !c.group.isEmpty || c.having.isSome || c.isSliced then
    return false
  else if c.order.isEmpty then return true
  else
    let items ← c.order.mapM fun i => do pure (← i.1.inline head.tag head.select, i.2)
    return sameOrder items head.order

/-- Whether a grouped head may be absorbed. A filter would become a condition on groups, which groups
by constants alone do not have, and a subquery cannot look at the rows in a group. -/
def absorbsGroups (p : Parts) (head : Clauses) (rest : List (Anchor Frame)) : Bool :=
  let c := p.clauses
  rest.isEmpty && c.group.isEmpty && c.having.isNone && head.having.isNone &&
    !(c.filter.isSome && head.group.all (·.isLiteral)) && p.embedded.isEmpty

def absorbs (p : Parts) (head : Clauses) (anchors rest : List (Anchor Frame)) : Result Bool := do
  if head.role = .permanent || rest.any (·.right) || (anchors.isEmpty && !rest.isEmpty) then
    return false
  else if head.isSliced && !(← absorbsSlice p head rest) then return false
  else return head.group.isEmpty || absorbsGroups p head rest

def mergeClauses (c head : Clauses) : Clauses :=
  let filtered : Clauses :=
    if head.group.isEmpty then { c with filter := Phrase.conjoin head.filter c.filter }
    else { c with having := c.filter, filter := head.filter, group := head.group }
  if head.isSliced then
    { filtered with order := head.order, limit := head.limit, offset := head.offset }
  else if c.order.isEmpty && c.group.isEmpty then { filtered with order := head.order }
  else filtered

inductive Absorption
  | finished (parts : Parts)
  | absorbed (parts : Parts) (substitutes : Substitutes)

def absorbHead (p : Parts) : Result Absorption := do
  match p.anchors with
  | [] => return .finished p
  | first :: rest =>
    match first.frame, rest with
    | .table _ _, _ => return .finished p
    | .scalar _, [] => return .finished { p with anchors := [] }
    | .scalar _, next :: more =>
      if next.isOuter then return .finished p
      else
        let c := p.clauses
        return .absorbed { p with
          clauses := { c with filter := Phrase.conjoin c.filter next.condition }
          anchors := { next with condition := none } :: more } []
    | .query head anchors embedded, rest =>
      if ← absorbs p head anchors rest then
        return .absorbed ⟨mergeClauses p.clauses head, anchors ++ rest, embedded ++ p.embedded⟩
          [(head.tag, head.select)]
      else return .finished p

def unwrapped? : Frame → Option (Frame × Tag × List Phrase)
  | .query c [⟨.table n t, _, _, _⟩] [] =>
    if c.role = .nested && c.filter.isNone && c.group.isEmpty && c.having.isNone && c.order.isEmpty &&
        !c.isSliced then some (.table n t, c.tag, c.select)
    else none
  | _ => none

def unwrapAnchors : List (Anchor Frame) → List (Anchor Frame) × Substitutes
  | [] => ([], [])
  | a :: as =>
    let (bs, s) := unwrapAnchors as
    match unwrapped? a.frame with
    | some (f, entry) => ({ a with frame := f } :: bs, s ++ [entry])
    | none => (a :: bs, s)

abbrev Collapsing := StateT Substitutes Result

def record (s : Substitutes) : Collapsing Unit := modify (s ++ ·)

def absorbAll : Nat → Parts → Collapsing Parts
  | 0, p => pure p
  | n + 1, p => do
    match ← absorbHead p with
    | .finished q => return q
    | .absorbed q s =>
      record s
      absorbAll n q

/-- Merges what can be merged into a query whose frames are collapsed. Each step takes one frame
away. -/
def collapseParts (p : Parts) : Collapsing Frame := do
  let q ← absorbAll (countAnchors p.anchors + 1) p
  match q.anchors with
  | [] => return q.frame
  | first :: rest =>
    let (rest, s) := unwrapAnchors rest
    record s
    return .query q.clauses (first :: rest) q.embedded

mutual

def collapse : Frame → Collapsing Frame
  | scalar t => pure (scalar t)
  | table n t => pure (table n t)
  | query c anchors embedded => do
    let anchors ← collapseAnchors anchors
    let embedded ← collapseAll embedded
    collapseParts ⟨c, anchors, embedded⟩

def collapseAnchors : List (Anchor Frame) → Collapsing (List (Anchor Frame))
  | [] => pure []
  | a :: as => do return (← collapseAnchor a) :: (← collapseAnchors as)

def collapseAnchor : Anchor Frame → Collapsing (Anchor Frame)
  | ⟨f, condition, left, right⟩ => do return ⟨← collapse f, condition, left, right⟩

def collapseAll : List Frame → Collapsing (List Frame)
  | [] => pure []
  | f :: fs => do return (← collapse f) :: (← collapseAll fs)

end

def unlessTrue : Option Phrase → Option Phrase
  | some p => if p.truth? = some true then none else some p
  | none => none

def reduceClauses (s : Substitutes) (c : Clauses) : Result Clauses := do
  let select ← c.select.mapM s.reduce
  let filter ← c.filter.mapM s.reduce
  let group ← c.group.mapM s.reduce
  let having ← c.having.mapM s.reduce
  let order ← c.order.mapM fun i => do pure (← s.reduce i.1, i.2)
  return { c with
    select
    filter := unlessTrue filter
    group := group.filter (!·.isLiteral)
    having := unlessTrue having
    order := order.filter (!·.1.isLiteral) }

mutual

def reduceFrame (s : Substitutes) : Frame → Result Frame
  | scalar t => pure (scalar t)
  | table n t => pure (table n t)
  | query c anchors embedded => do
    let anchors ← reduceAnchors s anchors
    let embedded ← reduceAll s embedded
    return query (← reduceClauses s c) anchors embedded

def reduceAnchors (s : Substitutes) : List (Anchor Frame) → Result (List (Anchor Frame))
  | [] => pure []
  | a :: as => do return (← reduceAnchor s a) :: (← reduceAnchors s as)

def reduceAnchor (s : Substitutes) : Anchor Frame → Result (Anchor Frame)
  | ⟨f, condition, left, right⟩ => do
    let f ← reduceFrame s f
    let condition ← condition.mapM s.reduce
    return ⟨f, if left || right then condition else unlessTrue condition, left, right⟩

def reduceAll (s : Substitutes) : List Frame → Result (List Frame)
  | [] => pure []
  | f :: fs => do return (← reduceFrame s f) :: (← reduceAll s fs)

end

def collapsed (f : Frame) : Result Frame := f.collapse.run' []

def reduced (f : Frame) : Result Frame := do
  let (f, s) ← f.collapse.run []
  reduceFrame s f

end Frame

end NavQuery
