import NavQuery.Agreement
import NavQuery.Calendar
import NavQuery.Number.Binary64
import NavQuery.Number.Decimal

/-!
Values compare by what they denote: decimals by the number, floating-point numbers by numeric equality,
and null equals null only.
-/

namespace NavQuery

inductive Value
  | null
  | boolean (b : Bool)
  | integer (n : Int)
  | float (x : Binary64)
  | decimal (d : Decimal)
  | text (t : Text)
  | date (d : Date)
  | time (t : Time)
  | dateTime (t : DateTime)
  | list (items : List Value)

namespace Value

mutual

/-- Equality by kind and content, with the given equality of floating-point numbers. -/
def sameBy (float' : Binary64 → Binary64 → Bool) : Value → Value → Bool
  | null, null => true
  | boolean a, boolean b => a == b
  | integer a, integer b => a == b
  | float a, float b => float' a b
  | decimal a, decimal b => a.same b
  | text a, text b => a == b
  | date a, date b => a == b
  | time a, time b => a == b
  | dateTime a, dateTime b => a == b
  | list a, list b => sameAllBy float' a b
  | _, _ => false

def sameAllBy (float' : Binary64 → Binary64 → Bool) : List Value → List Value → Bool
  | [], [] => true
  | a :: as, b :: bs => sameBy float' a b && sameAllBy float' as bs
  | _, _ => false

end

def same : Value → Value → Bool := sameBy Binary64.same

instance : BEq Value := ⟨same⟩

/-- Equality of the values that literals hold, where a NaN is like itself: like a NaN of the same
payload. -/
def alike : Value → Value → Bool := sameBy fun x y => x.same y || x == y

def isNull : Value → Bool
  | null => true
  | _ => false

@[inline] def near {v w : Value} (compare : w.ctorIdx = v.ctorIdx → Decidable (v = w)) :
    Decidable (v = w) :=
  if h : w.ctorIdx = v.ctorIdx then compare h else isFalse fun e => h (e ▸ rfl)

mutual

def decideEq : (v w : Value) → w.ctorIdx = v.ctorIdx → Decidable (v = w)
  | null, z, h => null.elim z h (isTrue rfl)
  | boolean a, z, h => boolean.elim z h fun b => byParts (boolean.injEq ..) (decEq a b)
  | integer a, z, h => integer.elim z h fun b => byParts (integer.injEq ..) (decEq a b)
  | float a, z, h => float.elim z h fun b => byParts (float.injEq ..) (decEq a b)
  | decimal a, z, h => decimal.elim z h fun b => byParts (decimal.injEq ..) (decEq a b)
  | text a, z, h => text.elim z h fun b => byParts (text.injEq ..) (decEq a b)
  | date a, z, h => date.elim z h fun b => byParts (date.injEq ..) (decEq a b)
  | time a, z, h => time.elim z h fun b => byParts (time.injEq ..) (decEq a b)
  | dateTime a, z, h => dateTime.elim z h fun b => byParts (dateTime.injEq ..) (decEq a b)
  | list vs, z, h => list.elim z h fun ws => byParts (list.injEq ..) (decideEqAll vs ws)

def decideEqAll : (vs ws : List Value) → Decidable (vs = ws)
  | [], [] => isTrue rfl
  | [], _ :: _ | _ :: _, [] => isFalse nofun
  | v :: vs, w :: ws => byParts (List.cons.injEq ..) (andThen (near (decideEq v w)) (decideEqAll vs ws))

end

instance : DecidableEq Value := fun v w => near (decideEq v w)

end Value

end NavQuery
