import NavQuery.Text
import NavQuery.Text.Width.Table

/-!
A text falls into glyphs: its characters, and the bytes that are part of none. Its width is the number of
columns that its glyphs take on a screen.
-/

namespace NavQuery.Text

namespace Width

def covers (ranges : List Range) (code : Nat) : Bool := ranges.any fun r => r.1 ≤ code && code ≤ r.2

/-- The columns of a character. Control characters take one. -/
def ofCode (code : Nat) : Nat :=
  if code < 0x300 then 1
  else if covers noColumn code then 0
  else if covers twoColumns code then 2
  else 1

end Width

/-- The code point behind its high bits, from that many bytes. -/
def lowBits? : Nat → Nat → Text → Option Nat
  | 0, high, _ => some high
  | n + 1, high, b :: r => if 128 ≤ b && b < 192 then lowBits? n (64 * high + (b.toNat - 128)) r else none
  | _ + 1, _, [] => none

/-- The code point of the character that starts with a byte, and the number of its further bytes. A code
point has to be spelled with as few bytes as possible. -/
def codePoint? (first : Byte) (rest : Text) : Option (Nat × Nat) :=
  let n := first.toNat
  if n < 0x80 then some (n, 0)
  else if n < 0xc2 then none
  else if n < 0xe0 then spelled 1 (n - 0xc0) 0x80
  else if n < 0xf0 then spelled 2 (n - 0xe0) 0x800
  else if n < 0xf5 then spelled 3 (n - 0xf0) 0x10000
  else none
where
  spelled (further high least : Nat) : Option (Nat × Nat) := do
    let code ← lowBits? further high rest
    if least ≤ code && code ≤ 0x10ffff && !(0xd800 ≤ code && code ≤ 0xdfff) then some (code, further)
    else none

structure Glyph where
  bytes : Text
  width : Nat
deriving DecidableEq

def firstGlyph (first : Byte) (rest : Text) : Glyph × Text :=
  match codePoint? first rest with
  | none => (⟨[first], 1⟩, rest)
  | some (code, further) => (⟨first :: rest.take further, Width.ofCode code⟩, rest.drop further)

theorem length_firstGlyph_le (b : Byte) (r : Text) : (firstGlyph b r).2.length ≤ r.length := by
  unfold firstGlyph
  split <;> simp

def glyphs : Text → List Glyph
  | [] => []
  | b :: r => (firstGlyph b r).1 :: glyphs (firstGlyph b r).2
termination_by t => t.length
decreasing_by exact Nat.lt_succ_of_le (length_firstGlyph_le b r)

def glyphWidth : List Glyph → Nat
  | [] => 0
  | g :: gs => g.width + glyphWidth gs

def width (t : Text) : Nat := glyphWidth t.glyphs

/-- The longest run of first glyphs that takes fewer columns than a limit. -/
def glyphsBelow : Nat → List Glyph → List Glyph
  | _, [] => []
  | limit, g :: gs => if g.width < limit then g :: glyphsBelow (limit - g.width) gs else []

/-- The text if it fits into a width, else what fits before an ellipsis. -/
def fit (limit : Nat) (t : Text) : Text :=
  if t.width ≤ limit then t
  else if limit = 0 then []
  else concat ((glyphsBelow limit t.glyphs).map (·.bytes)) ++ "…"

def pad (limit : Nat) (toRight : Bool) (t : Text) : Text :=
  let fill := blanks (limit - t.width)
  if toRight then fill ++ t else t ++ fill

end NavQuery.Text
