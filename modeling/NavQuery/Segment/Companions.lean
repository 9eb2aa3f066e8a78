import NavQuery.Space.Rebuild

/-!
Values computed in one space are computed together: each of them names the others as companions.
Aggregates over the rows behind a quotient are companions of the quotient itself.
-/

namespace NavQuery

structure Companions where
  units : List (Code × List Code)
  spaces : List (Space × List Code)

namespace Companions

def none : Companions := ⟨[], []⟩

def addToBatch (fits : Code → Code → Bool) (unit : Code) : List (List Code) → List (List Code)
  | [] => [[unit]]
  | batch :: batches =>
    if batch.head?.any (fits unit) then (batch ++ [unit]) :: batches
    else batch :: addToBatch fits unit batches

def batches (fits : Code → Code → Bool) (units : List Code) : List (List Code) :=
  units.foldl (fun bs u => addToBatch fits u bs) []

def isSingle : Code → Bool
  | .single _ _ _ _ => true
  | _ => false

def isAggregate : Code → Bool
  | .aggregate _ _ _ _ _ => true
  | _ => false

def sameSpace (a b : Code) : Bool :=
  match a.space?, b.space? with
  | some s, some t => s == t
  | _, _ => false

def sameSpaces : Code → Code → Bool
  | .aggregate _ _ p s _, .aggregate _ _ q t _ => s == t && p == q
  | _, _ => false

def batchCodes (batch : List Code) : List Code := Code.distinct (batch.filterMap (·.operand?))

def together (c : Companions) (batch : List Code) : Companions :=
  let codes := batchCodes batch
  { c with units := c.units ++ batch.map fun u => (u, codes) }

def shareSingles (c : Companions) (batch : List Code) : Companions :=
  if batch.length < 2 then c else c.together batch

def ownQuotient? : Code → Option Space
  | .aggregate _ _ (.complement _ base _) (.quotient m b s ks cs) _ =>
    if base == .quotient m b s ks cs then some (.quotient m b s ks cs) else Option.none
  | _ => Option.none

def addToSpace (space : Space) (codes : List Code) :
    List (Space × List Code) → List (Space × List Code)
  | [] => [(space, codes)]
  | entry :: entries =>
    if entry.1 == space then (entry.1, Code.distinct (entry.2 ++ codes)) :: entries
    else entry :: addToSpace space codes entries

def shareAggregates (c : Companions) (batch : List Code) : Companions :=
  match batch.head?.bind ownQuotient? with
  | some space =>
    let c := c.together batch
    { c with spaces := addToSpace space (batchCodes batch) c.spaces }
  | Option.none => c.shareSingles batch

def ofUnits (units : List Code) : Companions :=
  let c := (batches sameSpace (units.filter isSingle)).foldl shareSingles none
  (batches sameSpaces (units.filter isAggregate)).foldl shareAggregates c

def ofUnit? (c : Companions) (unit : Code) : Option (List Code) :=
  (c.units.find? (·.1 == unit)).map (·.2)

def ofSpace? (c : Companions) (space : Space) : Option (List Code) :=
  (c.spaces.find? (·.1 == space)).map (·.2)

def size (c : Companions) : Nat := c.units.length + c.spaces.length

end Companions

def Code.attended (c : Companions) (expand : Code → Result Code) (unit joined : Code) :
    Result Code :=
  match c.ofUnit? unit with
  | none => pure joined
  | some codes => do return joined.withCompanions (← codes.mapM expand)

def Space.attended (c : Companions) (expand : Code → Result Code) (space joined : Space) :
    Result Space :=
  match c.ofSpace? space with
  | none => pure joined
  | some codes => do return joined.withCompanions (← codes.mapM expand)

def Finish.accompany (c : Companions) (expand : Code → Result Code) : Finish where
  space s joined :=
    match s with
    | .quotient _ _ _ _ _ => Space.attended c expand s joined
    | _ => pure joined
  code k joined :=
    match k with
    | .single _ _ _ _ | .aggregate _ _ _ _ _ => Code.attended c expand k joined
    | _ => pure joined

namespace Companions

/-- Companions in companions, to a depth. No unit or space occurs inside its own companions unless
the expansion never ends, so a greater depth than the number of entries cannot be needed. -/
def expand (c : Companions) : Nat → Code → Result Code
  | 0, _ => .error .endless
  | n + 1, k => (k.toRebuilt (.accompany c (expand c n))).run.1

theorem expand_succ (c : Companions) (n : Nat) (k : Code) :
    c.expand (n + 1) k = k.rebuild (.accompany c (c.expand n)) :=
  (k.toRebuilt (.accompany c (c.expand n))).run.2

end Companions

end NavQuery
