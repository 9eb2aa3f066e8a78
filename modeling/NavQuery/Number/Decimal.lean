import NavQuery.Number.Power
import NavQuery.Text

/-!
A decimal is an integer divided by a power of ten. Two decimals are equal when they denote the same
number, whatever their scales.
-/

namespace NavQuery

/-- The number `unscaled / 10 ^ scale`. Decimals that are read have no negative scale. -/
structure Decimal where
  unscaled : Int
  scale : Int
deriving DecidableEq

namespace Decimal

def strip : Int → Nat → Decimal
  | u, 0 => ⟨u, 0⟩
  | u, s + 1 => if u % 10 = 0 then strip (u / 10) s else ⟨u, (s : Int) + 1⟩

/-- The form of smallest scale that is not negative. A negative scale is kept, unless the number is
zero. -/
def normalize (d : Decimal) : Decimal :=
  if 0 ≤ d.scale ∨ d.unscaled = 0 then strip d.unscaled d.scale.toNat else d

def same (a b : Decimal) : Bool := a.normalize == b.normalize

/-- The digits with the point before the last `scale` of them, and at least one digit before the
point. Without a positive scale there is no point. -/
def write (d : Decimal) : Text :=
  let digits := Text.ofNat d.unscaled.natAbs
  let places := d.scale.toNat
  let padded := List.replicate (places + 1 - digits.length) 48 ++ digits
  let body :=
    if places = 0 then digits
    else
      padded.take (padded.length - places) ++
        Byte.ofChar '.' :: padded.drop (padded.length - places)
  if d.unscaled < 0 then Byte.ofChar '-' :: body else body

def readSign : Text → Bool × Text
  | [] => (false, [])
  | b :: r => if b = '-' then (true, r) else if b = '+' then (false, r) else (false, b :: r)

def readExponent : Text → Option Int
  | [] => some 0
  | b :: r =>
    if b = 'e' ∨ b = 'E' then
      let (negative, digits) := readSign r
      if digits.all Byte.isDigit && 1 ≤ digits.length && digits.length ≤ 6 then
        some (if negative then -(Text.toNat digits : Int) else Text.toNat digits)
      else none
    else none

/-- The decimal with the given digits and decimal exponent; a positive exponent multiplies the
digits, so that the scale is never negative. -/
def ofScientific (negative : Bool) (digits : Nat) (exponent : Int) : Decimal :=
  let magnitude : Int := if exponent < 0 then digits else digits * tenTo exponent.toNat
  ⟨if negative then -magnitude else magnitude, max 0 (-exponent)⟩

def read? (t : Text) : Option Decimal := do
  let (negative, body) := readSign t
  let whole := body.takeWhile Byte.isDigit
  let rest := body.dropWhile Byte.isDigit
  let (fraction, rest) :=
    match rest with
    | b :: r => if b = '.' then (r.takeWhile Byte.isDigit, r.dropWhile Byte.isDigit) else ([], b :: r)
    | [] => ([], [])
  if whole.isEmpty && fraction.isEmpty then none
  let exponent ← readExponent rest
  some (ofScientific negative (Text.toNat (whole ++ fraction)) (exponent - fraction.length))

end Decimal

end NavQuery
