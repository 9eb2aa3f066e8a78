import NavQuery.Number.Decimal

/-!
Blanks, a sign and digits, as they stand in variables and settings.
-/

namespace NavQuery.Text

def readInteger? (t : Text) : Option (Int × Text) :=
  let (negative, body) := Decimal.readSign t.skipSpaces
  let digits := body.takeWhile Byte.isDigit
  if digits.isEmpty then none
  else some (if negative then -(toNat digits : Int) else toNat digits, body.dropWhile Byte.isDigit)

def greatestCount : Nat := twoTo 63 - 1

def toCount? (t : Text) : Option Nat := do
  let (n, rest) ← readInteger? t
  if rest.isEmpty && 0 ≤ n && n ≤ greatestCount then some n.toNat else none

end NavQuery.Text
