import NavQuery.Agreement
import NavQuery.Text

/-!
The types of values. Two domains may have a common domain in which their values are compared or combined;
an untyped value takes up the domain that its place asks for, and values of an unknown domain have a
domain in common with no others, not even with each other.
-/

namespace NavQuery

inductive Domain
  | unknown
  | void
  | untyped
  | boolean
  | integer
  | float
  | decimal
  | text
  | enum (labels : List Text)
  | date
  | time
  | dateTime
  | list (item : Domain)
  | record (fields : List (Text × Domain))
  | identity (parts : List Domain)
  | external (name : Text)
  | entity (name : Text)

namespace Domain

@[inline] def near {a b : Domain} (compare : b.ctorIdx = a.ctorIdx → Decidable (a = b)) :
    Decidable (a = b) :=
  if h : b.ctorIdx = a.ctorIdx then compare h else isFalse fun e => h (e ▸ rfl)

mutual

def decideEq : (a b : Domain) → b.ctorIdx = a.ctorIdx → Decidable (a = b)
  | unknown, z, h => unknown.elim z h (isTrue rfl)
  | void, z, h => void.elim z h (isTrue rfl)
  | untyped, z, h => untyped.elim z h (isTrue rfl)
  | boolean, z, h => boolean.elim z h (isTrue rfl)
  | integer, z, h => integer.elim z h (isTrue rfl)
  | float, z, h => float.elim z h (isTrue rfl)
  | decimal, z, h => decimal.elim z h (isTrue rfl)
  | text, z, h => text.elim z h (isTrue rfl)
  | date, z, h => date.elim z h (isTrue rfl)
  | time, z, h => time.elim z h (isTrue rfl)
  | dateTime, z, h => dateTime.elim z h (isTrue rfl)
  | enum a, z, h => enum.elim z h fun b => byParts (enum.injEq ..) (decEq a b)
  | external a, z, h => external.elim z h fun b => byParts (external.injEq ..) (decEq a b)
  | entity a, z, h => entity.elim z h fun b => byParts (entity.injEq ..) (decEq a b)
  | list a, z, h => list.elim z h fun b => byParts (list.injEq ..) (near (decideEq a b))
  | record as, z, h => record.elim z h fun bs => byParts (record.injEq ..) (decideEqFields as bs)
  | identity as, z, h => identity.elim z h fun bs => byParts (identity.injEq ..) (decideEqParts as bs)
termination_by structural d => d

def decideEqParts : (as bs : List Domain) → Decidable (as = bs)
  | [], [] => isTrue rfl
  | [], _ :: _ | _ :: _, [] => isFalse nofun
  | a :: as, b :: bs => byParts (List.cons.injEq ..) (andThen (near (decideEq a b)) (decideEqParts as bs))
termination_by structural ds => ds

def decideEqFields : (as bs : List (Text × Domain)) → Decidable (as = bs)
  | [], [] => isTrue rfl
  | [], _ :: _ | _ :: _, [] => isFalse nofun
  | a :: as, b :: bs => byParts (List.cons.injEq ..) (andThen (decideEqField a b) (decideEqFields as bs))
termination_by structural fs => fs

def decideEqField : (a b : Text × Domain) → Decidable (a = b)
  | (n, a), (m, b) => byParts (Prod.mk.injEq ..) (andThen (decEq n m) (near (decideEq a b)))
termination_by structural f => f

end

instance : DecidableEq Domain := fun a b => near (decideEq a b)

def kindName : Domain → Text
  | unknown => "unknown"
  | void => "void"
  | untyped => "untyped"
  | boolean => "boolean"
  | integer => "integer"
  | float => "float"
  | decimal => "decimal"
  | text => "text"
  | enum _ => "enum"
  | date => "date"
  | time => "time"
  | dateTime => "datetime"
  | list _ => "list"
  | record _ => "record"
  | identity _ => "identity"
  | external _ => "opaque"
  | entity _ => "entity"

def named (kind name : Text) : Text := if name.isEmpty then kind else kind ++ "(" ++ name ++ ")"

mutual

def render : Domain → Text
  | list item => "[" ++ render item ++ "]"
  | record fields => "\x7b" ++ Text.join ", " (renderFields fields) ++ "\x7d"
  | identity parts => "[" ++ Text.join "." (renderParts parts) ++ "]"
  | external name => named "opaque" name
  | entity name => named "entity" name
  | d => kindName d
termination_by structural d => d

def renderParts : List Domain → List Text
  | [] => []
  | d :: ds => render d :: renderParts ds
termination_by structural ds => ds

def renderFields : List (Text × Domain) → List Text
  | [] => []
  | f :: fs => renderField f :: renderFields fs
termination_by structural fs => fs

def renderField : Text × Domain → Text
  | (name, d) => if name.isEmpty then render d else name ++ ": " ++ render d
termination_by structural f => f

end

def ofName? (name : Text) : Option Domain :=
  [boolean, integer, float, decimal, text, date, time, dateTime].find? fun d => d.render == name

def isNumeric : Domain → Bool
  | integer | float | decimal => true
  | _ => false

def isUntyped : Domain → Bool
  | untyped => true
  | _ => false

def isBoolean : Domain → Bool
  | boolean => true
  | _ => false

def isTextual : Domain → Bool
  | text | enum _ => true
  | _ => false

def rank : Domain → Nat
  | integer => 1
  | decimal => 2
  | float => 3
  | _ => 0

/-- The common domain of two domains: themselves if equal, the other one beside an untyped one, the
wider of two numeric ones, text for texts and enumerations. It is unknown if they have none in common
or if one of them is unknown. -/
def coerce (a b : Domain) : Domain :=
  if a = unknown ∨ b = unknown then unknown
  else if a = b then a
  else if a.isUntyped then b
  else if b.isUntyped then a
  else if a.isNumeric && b.isNumeric then if b.rank ≤ a.rank then a else b
  else if a.isTextual && b.isTextual then text
  else unknown

end Domain

end NavQuery
