import NavQuery.Space.Printer

/-!
The rows to produce and the values per row. The root is the space that every row is correlated with.
-/

namespace NavQuery

structure Segment where
  root : Space
  space : Space
  codes : List Code
  mark : Mark

namespace Segment

def render (s : Segment) : Result Text := do
  let space ← s.space.render
  let lines ← Code.renderAll s.codes
  return "segment " ++ space ++ "\n" ++ Text.concat (lines.map fun l => "  " ++ l ++ "\n")

end Segment

end NavQuery
