import NavQuery.Phrase

/-!
Constant conditions are folded, conversions between conditions and values cancel out, operators with a
null operand give null, and references to frames that are gone are replaced by the phrases selected there.
-/

namespace NavQuery

namespace Phrase

def under? (kind : Operator.Kind) : Phrase → Option Phrase
  | formula _ _ f (a :: _) => if f.kind = kind then some a else none
  | _ => none

def regular (d : Domain) (nullable : Bool) (f : Operator) (args : List Phrase) : Phrase :=
  if f.isNullRegular && args.any (·.isNull) then null d
  else formula d (nullable && args.any (·.nullable)) f args

def reduceConversion (opposite : Operator.Kind) (d : Domain) (nullable : Bool) (f : Operator)
    (a : Phrase) (args : List Phrase) : Phrase :=
  match a.under? opposite with
  | some p => p
  | none => if a.isLiteral then a else regular d nullable f args

def reduceNot (d : Domain) (nullable : Bool) (f : Operator) (a : Phrase) (args : List Phrase) :
    Phrase :=
  match a.under? .not with
  | some p => p
  | none =>
    if a.isNull then null d
    else
      match a.truth? with
      | some b => ofBool !b
      | none => regular d nullable f args

def affirms (f : Operator) : Bool := f.polarity > 0

/-- Literals are compared here only if they are boolean: texts and numbers may compare differently in
an engine. -/
def reduceTotalEquality (d : Domain) (nullable : Bool) (f : Operator) (args : List Phrase) :
    Phrase :=
  match args with
  | literal a m v :: literal b n w :: rest =>
    if a.isBoolean && b.isBoolean then ofBool ((v == w) == affirms f)
    else if v.isNull then ofBool (w.isNull == affirms f)
    else if w.isNull then ofBool (v.isNull == affirms f)
    else regular d nullable f (literal a m v :: literal b n w :: rest)
  | a :: b :: rest =>
    if a.isNull then formula d false (.polar .isNull f.polarity) [b]
    else if b.isNull then formula d false (.polar .isNull f.polarity) [a]
    else regular d nullable f (a :: b :: rest)
  | args => regular d nullable f args

def reduceEquality (d : Domain) (nullable : Bool) (f : Operator) (args : List Phrase) : Phrase :=
  match args with
  | a :: b :: rest =>
    match a.truth?, b.truth? with
    | some x, some y => ofBool ((x == y) == affirms f)
    | _, _ => regular d nullable f (a :: b :: rest)
  | args => regular d nullable f args

def filled (d : Domain) (p : Phrase) : Phrase :=
  let blank : Phrase := ofValue d (.text [])
  if p.isNull then blank
  else if p.nullable then formula p.domain false (.plain .ifNull) [p, blank]
  else p

/-- The first value that is not null: operands behind one that is never null do not matter if it is
the first. -/
def reduceIfNull (d : Domain) (f : Operator) (args : List Phrase) : Phrase :=
  match args.filter (!·.isNull) with
  | [] => null d
  | [p] => p
  | p :: ps => if !p.nullable then p else formula d ((p :: ps).all (·.nullable)) f (p :: ps)

mutual

def flatten (kind : Operator.Kind) : Phrase → List Phrase
  | formula d n f as => if f.kind = kind then flattenAll kind as else [formula d n f as]
  | p => [p]

def flattenAll (kind : Operator.Kind) : List Phrase → List Phrase
  | [] => []
  | p :: ps => flatten kind p ++ flattenAll kind ps

end

def distinct (ps : List Phrase) : List Phrase :=
  ps.foldl (fun kept p => if kept.any (· == p) then kept else kept ++ [p]) []

/-- A conjunction or disjunction: flat, without neutral or repeated operands. -/
def reduceConnective (d : Domain) (f : Operator) (args : List Phrase) : Phrase :=
  let neutral := f.kind == .and
  let operands := flattenAll f.kind args
  if operands.any (·.truth? == some !neutral) then ofBool !neutral
  else
    match distinct (operands.filter (·.truth? != some neutral)) with
    | [] => ofBool neutral
    | [p] => p
    | ps => formula d (ps.any (·.nullable)) f ps

def reduceFormula (d : Domain) (nullable : Bool) (f : Operator) (args : List Phrase) : Phrase :=
  match f.kind, args with
  | .toPredicate, a :: _ => reduceConversion .fromPredicate d nullable f a args
  | .fromPredicate, a :: _ => reduceConversion .toPredicate d nullable f a args
  | .and, _ | .or, _ => reduceConnective d f args
  | .not, a :: _ => reduceNot d nullable f a args
  | .isNull, literal _ _ v :: _ => ofBool (v.isNull == affirms f)
  | .isTotallyEqual, _ => reduceTotalEquality d nullable f args
  | .concat, _ => formula d false f (args.map (filled d))
  | .ifNull, _ => reduceIfNull d f args
  | .nullIf, a :: _ => if a.isNull then null d else regular d nullable f args
  | .isEqual, _ => reduceEquality d nullable f args
  | _, _ => regular d nullable f args

mutual

def reduceWith (resolve : Tag → Nat → Result (Option Phrase)) : Phrase → Result Phrase
  | literal d n v => pure (literal d n v)
  | parameter d n => pure (parameter d n)
  | cast d _ p => do
    let p ← reduceWith resolve p
    return if p.isNull then null d else castTo d p
  | formula d n f as => do return reduceFormula d n f (← reduceAllWith resolve as)
  | column n t c => pure (column n t c)
  | reference d n t i => do
    match ← resolve t i with
    | none => return reference d n t i
    | some p => return if n then p.asNullable else p
  | embedding d t => pure (embedding d t)

def reduceAllWith (resolve : Tag → Nat → Result (Option Phrase)) :
    List Phrase → Result (List Phrase)
  | [] => pure []
  | p :: ps => do return (← reduceWith resolve p) :: (← reduceAllWith resolve ps)

end

end Phrase

abbrev Substitutes := List (Tag × List Phrase)

namespace Substitutes

def count (s : Substitutes) : Nat := (s.flatMap (·.2)).length

/-- What a reference stands for. References nest no deeper than there are selected phrases, unless they
run in a circle. -/
def resolve (s : Substitutes) : Nat → Tag → Nat → Result (Option Phrase)
  | depth, tag, index =>
    match List.lookup tag s with
    | none => pure none
    | some select =>
      match select[index]?, depth with
      | none, _ => throw (.invariant .referenceIndex)
      | some _, 0 => throw .endless
      | some p, n + 1 => do return some (← p.reduceWith (resolve s n))

def reduce (s : Substitutes) (p : Phrase) : Result Phrase := p.reduceWith (resolve s s.count)

end Substitutes

end NavQuery
