import NavQuery.Connection
import NavQuery.Domain
import NavQuery.Palette
import NavQuery.Text.Integer
import NavQuery.Text.Width

/-!
A table drawn with box characters. All columns are at least `narrowest` wide; beyond that the widest
columns are narrowed until the box fits the screen.
-/

namespace NavQuery

namespace Box

structure Column where
  title : Text
  domain : Option Domain

structure Options where
  maxWidth : Nat
  maxRows : Nat
  highlight : Bool
  isTerminal : Bool

def narrowest : Nat := 4

def leastLimit : Nat := 20

def screenWidth (columns : Option Text) : Nat :=
  match columns.bind Text.readInteger? with
  | some (n, _) => if 0 < n then n.toNat else 120
  | none => 120

def flatten (t : Text) : Text := t.map fun b : Byte => if b == 9 || b == 10 || b == 13 then 32 else b

def nullText : Text := "NULL"

namespace Column

def typeText (c : Column) : Text := c.domain.elim [] Domain.render

def isNumeric (c : Column) : Bool := c.domain.any Domain.isNumeric

end Column

def rowCells (count : Nat) (row : List Cell) : List Cell :=
  (List.range count).map fun i => row[i]?.join.map flatten

def cellWidth (c : Cell) : Nat := (c.getD nullText).width

def naturalWidth (c : Column) (cells : List Cell) : Nat :=
  (cells.map cellWidth).foldl max (max narrowest (max c.title.width c.typeText.width))

def columnsWidth : List Nat → Nat
  | [] => 0
  | w :: ws => w + 3 + columnsWidth ws

def totalWidth (widths : List Nat) : Nat := 1 + columnsWidth widths

/-- The widths with the first widest one narrowed by a column, unless all are as narrow as may be. -/
def narrow (widths : List Nat) : List Nat :=
  let widest := widths.foldl max 0
  if widest ≤ narrowest then widths
  else widths.set (widths.idxOf widest) (widest - 1)

def narrowBy : Nat → List Nat → List Nat
  | 0, widths => widths
  | n + 1, widths => narrowBy n (narrow widths)

def squeeze (limit : Nat) (widths : List Nat) : List Nat := narrowBy (totalWidth widths - limit) widths

def dashes (n : Nat) : Text := Text.concat (List.replicate n "─")

def rule (left middle right : Text) : List Nat → Text
  | [] => left
  | widths => left ++ Text.join middle (widths.map fun w => dashes (w + 2)) ++ right

def line (cells : List Text) : Text := "│" ++ Text.concat (cells.map fun c => " " ++ c ++ " │")

def place (width : Nat) (toRight : Bool) (t : Text) : Text := (t.fit width).pad width toRight

def rowLine (p : Palette) (columns : List (Column × Nat)) (row : List Cell) : Text :=
  line ((columns.zip row).map fun ((c, w), cell) =>
    match cell with
    | some t => place w c.isNumeric t
    | none => p.paint (·.dim) (place w c.isNumeric nullText))

def restLine (widths : List Nat) (count : Nat) : Text :=
  let inner := columnsWidth widths - 3
  "│ " ++ place inner false (Text.ofNat count ++ " more rows not shown") ++ " │"

def render (columns : List Column) (rows : List (List Cell)) (o : Options) (screen : Nat) : Text :=
  let p := if o.highlight && o.isTerminal then Palette.ansi else Palette.plain
  let shown := if o.maxRows = 0 then rows else rows.take o.maxRows
  let limit := max (if o.maxWidth = 0 then screen else o.maxWidth) leastLimit
  let grid := shown.map (rowCells columns.length)
  let natural := columns.zipIdx.map fun (c, i) => naturalWidth c (grid.map fun row => row[i]?.join)
  let widths := squeeze limit natural
  let placed := columns.zip widths
  let titles := line (placed.map fun (c, w) => p.paint (·.bold) (place w false c.title))
  let types := line (placed.map fun (c, w) => p.paint (·.dim) (place w false c.typeText))
  let rest :=
    if shown.length < rows.length then [restLine widths (rows.length - shown.length)] else []
  Text.join "\n" ([rule "┌" "┬" "┐" widths, titles, types, rule "├" "┼" "┤" widths] ++
    grid.map (rowLine p placed) ++ rest ++ [rule "└" "┴" "┘" widths])

end Box

end NavQuery
