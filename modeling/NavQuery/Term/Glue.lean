import NavQuery.Space.Seam

/-!
The equalities that attach the rows of one term, the shoot, to those of another, the trunk. Where the
trunk shows the first axis of the shoot, common axes are matched with each other; else the first axis
of the shoot is joined to its base.
-/

namespace NavQuery.Space

def inflatedAncestor (s : Space) : Space := (s.ancestors.find? (·.isInflated)).getD s

def firstShootAxis (trunk : Space) : List Space → Option Space
  | [] => none
  | [s] => some s
  | s :: t :: ss => if trunk.spans t then some s else firstShootAxis trunk (t :: ss)

def shootBaseline (space trunk : Space) : Space :=
  let s := space.inflatedAncestor
  if trunk.spans s then s else (firstShootAxis trunk s.ancestors).getD s

/-- The axes that two backbones have in common, from the baseline of the shoot on. Axes that add no
rows are left out, except the baseline. -/
def commonAxes (backbone shootBackbone shootBaseline : Space) : List Space :=
  let isAbove (s : Space) : Bool := shootBaseline.base?.any (s == ·)
  match backbone.ancestors.find? (shootBackbone.concludes ·) with
  | none => []
  | some axis =>
    ((axis.ancestors.takeWhile (!isAbove ·)).filter fun s =>
      !s.isContracting || s == shootBaseline).reverse

/-- The joints of a space and of another first axis over the same origin, if they start from the same
codes: then the two axes are joined directly. -/
def shortcut (trunk shoot : List Joint) : List Joint :=
  if trunk.length = shoot.length && (trunk.zip shoot).all (fun (a, b) => a.left == b.left) then
    (trunk.zip shoot).map fun (a, b) => ⟨a.right, b.right⟩
  else shoot

def glue (space baseline shoot shootBaseline : Space) : Result (List Joint) := do
  let backbone := space.inflate
  if backbone.concludes shootBaseline then
    let axes := commonAxes backbone shoot.inflate shootBaseline
    return (← axes.mapM selfJoints).flatten
  else
    let joints ← baseJoints shootBaseline
    match shootBaseline.base? with
    | none => return joints
    | some origin =>
      match baseline.ancestors.find? (·.base?.any (· == origin)) with
      | none => return joints
      | some axis => return shortcut (← baseJoints axis) joints

end NavQuery.Space
