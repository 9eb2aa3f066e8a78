/-!
A text is a list of bytes, so that positions and widths count bytes and every piece of a text is a
text again. String literals stand for their UTF-8 bytes.
-/

namespace NavQuery

abbrev Byte := UInt8

abbrev Text := List UInt8

namespace Byte

def ofChar (c : Char) : Byte := c.toNat.toUInt8

instance : Coe Char UInt8 := ⟨ofChar⟩

def isDigit (b : Byte) : Bool := 48 ≤ b && b ≤ 57

def isUpper (b : Byte) : Bool := 65 ≤ b && b ≤ 90

def isLower (b : Byte) : Bool := 97 ≤ b && b ≤ 122

def isAlpha (b : Byte) : Bool := isUpper b || isLower b

def isAlphanum (b : Byte) : Bool := isAlpha b || isDigit b

/-- Blank, tab, line feed, vertical tab, form feed and carriage return. -/
def isSpace (b : Byte) : Bool := b == 32 || (9 ≤ b && b ≤ 13)

/-- Bytes from 128 on belong to characters outside ASCII. -/
def isWide (b : Byte) : Bool := 128 ≤ b

def toLower (b : Byte) : Byte := if isUpper b then b + 32 else b

def digitValue (b : Byte) : Nat := b.toNat - 48

def digit (n : Nat) : Byte := (48 + n % 10).toUInt8

end Byte

namespace Text

def ofString (s : String) : Text := s.toUTF8.data.toList

instance : Coe String (List UInt8) := ⟨ofString⟩

def join (separator : Text) : List Text → Text
  | [] => []
  | [t] => t
  | t :: u :: ts => t ++ (separator ++ join separator (u :: ts))

def concat (ts : List Text) : Text := ts.foldr (· ++ ·) []

def blanks (n : Nat) : Text := List.replicate n 32

def toLower (t : Text) : Text := t.map Byte.toLower

def skipSpaces (t : Text) : Text := t.dropWhile Byte.isSpace

def trim (t : Text) : Text := ((skipSpaces t).reverse.dropWhile Byte.isSpace).reverse

def untilZero (t : Text) : Text := t.takeWhile (· != 0)

def ofNat (n : Nat) : Text := (Nat.toDigits 10 n).map Byte.ofChar

def ofInt : Int → Text
  | .ofNat n => ofNat n
  | .negSucc n => Byte.ofChar '-' :: ofNat (n + 1)

/-- The number that a digit string spells in base ten. -/
def toNat (digits : Text) : Nat := digits.foldl (fun n b => 10 * n + Byte.digitValue b) 0

/-- The numeral padded with zeros to a width that counts the sign. -/
def padInt (width : Nat) (n : Int) : Text :=
  match n with
  | .ofNat k =>
    let digits := ofNat k
    List.replicate (width - digits.length) 48 ++ digits
  | .negSucc k =>
    let digits := ofNat (k + 1)
    Byte.ofChar '-' :: (List.replicate (width - 1 - digits.length) 48 ++ digits)

def splitAtByte (b : Byte) (t : Text) : Text × Text := t.span (· != b)

/-- The lines of a text without their line feeds. What stands behind the last line feed is a line unless
it is empty. -/
def lines : Text → List Text
  | [] => []
  | b :: r =>
    if b = '\n' then [] :: lines r
    else
      match lines r with
      | [] => [[b]]
      | t :: ts => (b :: t) :: ts

theorem length_skipSpaces_le (t : Text) : (skipSpaces t).length ≤ t.length :=
  (List.dropWhile_suffix _).length_le

end Text

end NavQuery
