import NavQuery.Number.Power
import NavQuery.Text

/-!
Numbers of the 64-bit binary format, kept as their bit patterns. A numeral is rounded once to the nearest
number, ties to even, and a number is written with a chosen count of significant digits.
-/

namespace NavQuery

structure Binary64 where
  bits : Nat
deriving DecidableEq

namespace Binary64

def negative (x : Binary64) : Bool := x.bits / twoTo 63 % 2 == 1

def exponentField (x : Binary64) : Nat := x.bits / twoTo 52 % 2048

def fractionField (x : Binary64) : Nat := x.bits % twoTo 52

def isFinite (x : Binary64) : Bool := x.exponentField != 2047

def isNaN (x : Binary64) : Bool := x.exponentField == 2047 && x.fractionField != 0

def isZero (x : Binary64) : Bool := x.exponentField == 0 && x.fractionField == 0

/-- Numeric equality: zeros of both signs are equal and a NaN differs from everything. -/
def same (x y : Binary64) : Bool := !x.isNaN && !y.isNaN && (x.bits == y.bits || x.isZero && y.isZero)

def mantissa (x : Binary64) : Nat :=
  if x.exponentField = 0 then x.fractionField else twoTo 52 + x.fractionField

def scale (x : Binary64) : Int :=
  if x.exponentField = 0 then -1074 else (x.exponentField : Int) - 1075

def ratio (x : Binary64) : Nat × Nat :=
  if x.scale < 0 then (x.mantissa, twoTo (-x.scale).toNat) else (x.mantissa * twoTo x.scale.toNat, 1)

def signed (negative : Bool) (magnitude : Nat) : Binary64 :=
  ⟨if negative then twoTo 63 + magnitude else magnitude⟩

def zero (negative : Bool) : Binary64 := signed negative 0

def infinity (negative : Bool) : Binary64 := signed negative (2047 * twoTo 52)

def nan (negative : Bool) (payload : Nat) : Binary64 :=
  signed negative (2047 * twoTo 52 + twoTo 51 + payload % twoTo 51)

def roundDiv (num den : Nat) : Nat :=
  let q := num / den
  let r := num % den
  if 2 * r < den then q else if den < 2 * r then q + 1 else q + q % 2

def roundScaled (num den : Nat) (exponent : Int) : Nat :=
  if exponent < 0 then roundDiv (num * twoTo (-exponent).toNat) den
  else roundDiv num (den * twoTo exponent.toNat)

def placeOf (num den : Nat) : Int :=
  let estimate : Int := (num.log2 : Int) - den.log2
  let atLeast :=
    if estimate < 0 then den ≤ num * twoTo (-estimate).toNat else den * twoTo estimate.toNat ≤ num
  max ((if atLeast then estimate else estimate - 1) - 52) (-1074)

/-- The number nearest to a fraction; the carry of a rounding into the next binade is the carry of
the bit pattern. -/
def ofRatio (negative : Bool) (num den : Nat) : Binary64 :=
  if num = 0 then zero negative
  else
    let place := placeOf num den
    let pattern := roundScaled num den place + (place + 1074).toNat * twoTo 52
    if 2047 * twoTo 52 ≤ pattern then infinity negative else signed negative pattern

/-- The number nearest to `digits * 10 ^ exponent`; far exponents are settled by the count of digits
alone. -/
def ofDecimal (negative : Bool) (digits : Nat) (exponent : Int) : Binary64 :=
  let magnitude := (Text.ofNat digits).length + exponent
  if digits = 0 then zero negative
  else if 400 < magnitude then infinity negative
  else if magnitude < -400 then zero negative
  else if exponent < 0 then ofRatio negative digits (tenTo (-exponent).toNat)
  else ofRatio negative (digits * tenTo exponent.toNat) 1

def ofBinary (negative : Bool) (digits : Nat) (exponent : Int) : Binary64 :=
  let magnitude := (digits.log2 : Int) + exponent
  if digits = 0 then zero negative
  else if 1100 < magnitude then infinity negative
  else if magnitude < -1200 then zero negative
  else if exponent < 0 then ofRatio negative digits (twoTo (-exponent).toNat)
  else ofRatio negative (digits * twoTo exponent.toNat) 1

def isHexDigit (b : Byte) : Bool :=
  Byte.isDigit b || (97 ≤ Byte.toLower b && Byte.toLower b ≤ 102)

def hexValue (b : Byte) : Nat :=
  if Byte.isDigit b then Byte.digitValue b else (Byte.toLower b).toNat - 87

def hexToNat (t : Text) : Nat := t.foldl (fun n b => 16 * n + hexValue b) 0

def readSign : Text → Bool × Text
  | [] => (false, [])
  | b :: r => if b = '-' then (true, r) else if b = '+' then (false, r) else (false, b :: r)

def afterWord (word : Text) (t : Text) : Option Text :=
  if Text.toLower (t.take word.length) = word then some (t.drop word.length) else none

def readExponent (mark : Byte) (t : Text) : Int × Text :=
  match t with
  | [] => (0, [])
  | b :: r =>
    if Byte.toLower b = mark then
      let (negative, body) := readSign r
      let digits := body.takeWhile Byte.isDigit
      if digits.isEmpty then (0, b :: r)
      else
        let value : Int := Text.toNat digits
        (if negative then -value else value, body.dropWhile Byte.isDigit)
    else (0, b :: r)

def readDigits (isDigit : Byte → Bool) (t : Text) : Text × Text × Text :=
  let whole := t.takeWhile isDigit
  match t.dropWhile isDigit with
  | [] => (whole, [], [])
  | b :: r =>
    if b = '.' then
      let fraction := r.takeWhile isDigit
      if whole.isEmpty && fraction.isEmpty then (whole, [], b :: r)
      else (whole, fraction, r.dropWhile isDigit)
    else (whole, [], b :: r)

def readDecimal? (negative : Bool) (t : Text) : Option (Binary64 × Text) :=
  let (whole, fraction, rest) := readDigits Byte.isDigit t
  if whole.isEmpty && fraction.isEmpty then none
  else
    let (exponent, rest) := readExponent 'e' rest
    some (ofDecimal negative (Text.toNat (whole ++ fraction)) (exponent - fraction.length), rest)

def readHex? (negative : Bool) (t : Text) : Option (Binary64 × Text) := do
  let body ← afterWord "0x" t
  let (whole, fraction, rest) := readDigits isHexDigit body
  if whole.isEmpty && fraction.isEmpty then none
  let (exponent, rest) := readExponent 'p' rest
  some (ofBinary negative (hexToNat (whole ++ fraction)) (exponent - 4 * fraction.length), rest)

def readInfinity? (negative : Bool) (t : Text) : Option (Binary64 × Text) :=
  ((afterWord "infinity" t).or (afterWord "inf" t)).map fun rest => (infinity negative, rest)

/-- The word for no number, with an optional payload in parentheses. Other words than decimal numbers
count as the payload zero. -/
def readNaN? (negative : Bool) (t : Text) : Option (Binary64 × Text) := do
  let rest ← afterWord "nan" t
  match rest with
  | [] => some (nan negative 0, [])
  | b :: r =>
    let word := r.takeWhile fun c => Byte.isAlphanum c || c == '_'
    match r.drop word.length with
    | [] => some (nan negative 0, rest)
    | c :: s =>
      if b = '(' ∧ c = ')' then
        some (nan negative (if word.all Byte.isDigit then Text.toNat word else 0), s)
      else some (nan negative 0, rest)

/-- Reads the longest numeral after leading blanks and a sign: infinity, NaN, a hexadecimal numeral
or a decimal one. Gives the number and the rest. -/
def read? (t : Text) : Option (Binary64 × Text) :=
  let (negative, body) := readSign (Text.skipSpaces t)
  (readInfinity? negative body).or <|
    (readNaN? negative body).or <|
      (readHex? negative body).or (readDecimal? negative body)

def decimalExponent (num den : Nat) : Int :=
  let estimate : Int := (Text.ofNat num).length - (Text.ofNat den).length
  let atLeast :=
    if estimate < 0 then den ≤ num * tenTo (-estimate).toNat else den * tenTo estimate.toNat ≤ num
  if atLeast then estimate else estimate - 1

/-- The fraction rounded to a count of significant digits: the digits as a number and the exponent of
the first of them. -/
def significant (digits : Nat) (num den : Nat) : Nat × Int :=
  let exponent := decimalExponent num den
  let shift := exponent - (digits - 1 : Nat)
  let rounded :=
    if shift < 0 then roundDiv (num * tenTo (-shift).toNat) den
    else roundDiv num (den * tenTo shift.toNat)
  if rounded = tenTo digits then (tenTo (digits - 1), exponent + 1) else (rounded, exponent)

def dropTrailingZeros (t : Text) : Text := (t.reverse.dropWhile (· == 48)).reverse

def withFraction (whole fraction : Text) : Text :=
  if fraction.isEmpty then whole else whole ++ Byte.ofChar '.' :: fraction

/-- The magnitude of a fraction with at most the given count of significant digits, without trailing
zeros: positional while the exponent lies from -4 up to that count, else with an exponent of at least
two digits. -/
def writeRatio (digits : Nat) (num den : Nat) : Text :=
  let (value, exponent) := significant digits num den
  let numeral := Text.ofNat value
  if exponent < -4 ∨ (digits : Int) ≤ exponent then
    withFraction (numeral.take 1) (dropTrailingZeros (numeral.drop 1)) ++
      Byte.ofChar 'e' :: (if exponent < 0 then Byte.ofChar '-' else Byte.ofChar '+') ::
        Text.padInt 2 exponent.natAbs
  else if exponent < 0 then
    withFraction [48]
      (dropTrailingZeros (List.replicate (-exponent - 1).toNat 48 ++ numeral))
  else
    withFraction (numeral.take (exponent.toNat + 1))
      (dropTrailingZeros (numeral.drop (exponent.toNat + 1)))

def write (digits : Nat) (x : Binary64) : Text :=
  let body : Text :=
    if x.isNaN then "nan"
    else if !x.isFinite then "inf"
    else if x.isZero then [48]
    else writeRatio digits x.ratio.1 x.ratio.2
  if x.negative then Byte.ofChar '-' :: body else body

def readsBack (x : Binary64) (t : Text) : Bool :=
  match read? t with
  | some (y, _) => y.same x
  | none => false

/-- The text with the fewest significant digits, from a count on and up to 17, that reads back as the
number. -/
def writeFewest (x : Binary64) : Nat → Nat → Text
  | digits, 0 => x.write digits
  | digits, more + 1 =>
    if x.readsBack (x.write digits) then x.write digits else writeFewest x (digits + 1) more

def looksFractional (t : Text) : Bool := t.any fun b => b == '.' || b == 'e' || b == 'E'

/-- The shortest text that reads back; one without point and exponent gets `.0`. -/
def writeShortest (x : Binary64) : Text :=
  let t := x.writeFewest 1 16
  if looksFractional t then t else t ++ ".0"

end Binary64

end NavQuery
