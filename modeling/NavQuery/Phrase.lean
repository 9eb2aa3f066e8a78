import NavQuery.Space.Printer

/-!
A phrase is a scalar SQL expression over the rows of frames. The exports of a frame are named by its
tag: a column of a table, an item of a select list, or the value of an embedded subquery.
-/

namespace NavQuery

abbrev Tag := Int

inductive Phrase
  | literal (domain : Domain) (nullable : Bool) (value : Value)
  | parameter (domain : Domain) (name : Text)
  | cast (domain : Domain) (nullable : Bool) (operand : Phrase)
  | formula (domain : Domain) (nullable : Bool) (op : Operator) (arguments : List Phrase)
  | column (nullable : Bool) (tag : Tag) (column : Column)
  | reference (domain : Domain) (nullable : Bool) (tag : Tag) (index : Nat)
  | embedding (domain : Domain) (tag : Tag)

namespace Phrase

def domain : Phrase → Domain
  | literal d _ _ | parameter d _ | cast d _ _ | formula d _ _ _ | reference d _ _ _
  | embedding d _ => d
  | column _ _ c => c.domain

def nullable : Phrase → Bool
  | literal _ n _ | cast _ n _ | formula _ n _ _ | column n _ _ | reference _ n _ _ => n
  | parameter _ _ | embedding _ _ => true

def asNullable : Phrase → Phrase
  | literal d _ v => literal d true v
  | cast d _ p => cast d true p
  | formula d _ f as => formula d true f as
  | column _ t c => column true t c
  | reference d _ t i => reference d true t i
  | p => p

def ofValue (domain : Domain) (value : Value) : Phrase := literal domain value.isNull value

def ofBool (b : Bool) : Phrase := ofValue .boolean (.boolean b)

def null (domain : Domain) : Phrase := ofValue domain .null

def castTo (domain : Domain) (p : Phrase) : Phrase := cast domain p.nullable p

def toPredicate (p : Phrase) : Phrase := formula p.domain p.nullable (.plain .toPredicate) [p]

def fromPredicate (p : Phrase) : Phrase := formula p.domain p.nullable (.plain .fromPredicate) [p]

def isLiteral : Phrase → Bool
  | literal _ _ _ => true
  | _ => false

def isNull : Phrase → Bool
  | literal _ _ v => v.isNull
  | _ => false

def truth? : Phrase → Option Bool
  | literal _ _ (.boolean b) => some b
  | _ => none

mutual

/-- Whether two phrases are the same expression, nullability aside. A NaN is the same as itself as
long as it was not made nullable. -/
def same : Phrase → Phrase → Bool
  | literal d n v, literal e m w => d == e && (v == w || !n && !m && v.alike w)
  | parameter d n, parameter e m => d == e && n == m
  | cast d _ p, cast e _ q => d == e && same p q
  | formula d _ f as, formula e _ g bs => d == e && f == g && sameAll as bs
  | column _ t c, column _ u k => t == u && c == k
  | reference d _ t i, reference e _ u j => d == e && t == u && i == j
  | embedding d t, embedding e u => d == e && t == u
  | _, _ => false

def sameAll : List Phrase → List Phrase → Bool
  | [], [] => true
  | p :: ps, q :: qs => same p q && sameAll ps qs
  | _, _ => false

end

instance : BEq Phrase := ⟨same⟩

mutual

def render : Phrase → Result Text
  | literal d _ v => renderLiteral d v
  | parameter _ n => pure ("$" ++ n)
  | cast d _ p => do return d.render ++ "(" ++ (← render p) ++ ")"
  | formula _ _ f as => do return f.render ++ "(" ++ Text.join ", " (← renderAll as) ++ ")"
  | column _ t c => pure ("#" ++ Text.ofInt t ++ "." ++ c.name)
  | reference _ _ t i => pure ("#" ++ Text.ofInt t ++ "[" ++ Text.ofNat i ++ "]")
  | embedding _ t => pure ("#" ++ Text.ofInt t ++ "()")

def renderAll : List Phrase → Result (List Text)
  | [] => pure []
  | p :: ps => do return (← render p) :: (← renderAll ps)

end

end Phrase

end NavQuery
