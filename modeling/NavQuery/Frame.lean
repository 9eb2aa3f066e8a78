import NavQuery.Phrase

/-!
A frame is the unit row, a table, or a query over other frames. The anchors of a query are its joined
frames in order; the first one has no condition. The embedded frames are the subqueries that its phrases
use.
-/

namespace NavQuery

/-- A joined frame. Rows of the earlier anchors are kept by a left join, rows of the frame by a right
join. -/
structure Anchor (α : Type) where
  frame : α
  condition : Option Phrase
  left : Bool
  right : Bool

abbrev SortItem := Phrase × Direction

namespace Frame

/-- A nested query has its select items named for the query around it, which may absorb it unless it
is permanent. A segment is the outermost query. -/
inductive Role
  | nested
  | permanent
  | segment
deriving DecidableEq

end Frame

structure Clauses where
  role : Frame.Role
  tag : Tag
  select : List Phrase
  filter : Option Phrase
  group : List Phrase
  having : Option Phrase
  order : List SortItem
  limit : Option Int
  offset : Option Int
  outputs : List Nat

inductive Frame
  | scalar (tag : Tag)
  | table (tag : Tag) (table : Table)
  | query (clauses : Clauses) (anchors : List (Anchor Frame)) (embedded : List Frame)

namespace Anchor

def plain {α : Type} (frame : α) : Anchor α := ⟨frame, none, false, false⟩

def isCross {α : Type} (a : Anchor α) : Bool := a.condition.isNone && !a.left && !a.right

def isOuter {α : Type} (a : Anchor α) : Bool := a.left || a.right

def joinName {α : Type} (a : Anchor α) : Text :=
  match a.left, a.right with
  | true, true => "full"
  | true, false => "left"
  | false, true => "right"
  | false, false => "inner"

end Anchor

namespace Frame

def tag : Frame → Tag
  | scalar t | table t _ => t
  | query c _ _ => c.tag

def isSegment : Frame → Bool
  | query c _ _ => c.role = .segment
  | _ => false

def roleName : Role → Text
  | .nested => "nested #"
  | .permanent => "permanent #"
  | .segment => "segment #"

def indent (depth : Nat) : Text := Text.blanks (2 * depth)

def renderList (depth : Nat) (word : Text) (ps : List Phrase) : Result Text := do
  let items ← Phrase.renderAll ps
  return indent depth ++ word ++ Text.concat (items.map (Text.ofString " " ++ ·)) ++ "\n"

def renderPhrase (depth : Nat) (word : Text) : Option Phrase → Result Text
  | none => pure []
  | some p => do return indent depth ++ word ++ " " ++ (← p.render) ++ "\n"

def renderCount (depth : Nat) (word : Text) : Option Int → Text
  | none => []
  | some n => indent depth ++ word ++ " " ++ Text.ofInt n ++ "\n"

def renderSortItem (i : SortItem) : Result Text := do return " " ++ (← i.1.render) ++ i.2.symbol

def renderOrder (depth : Nat) (items : List SortItem) : Result Text :=
  if items.isEmpty then pure []
  else do return indent depth ++ "order:" ++ Text.concat (← items.mapM renderSortItem) ++ "\n"

def renderCondition : Option Phrase → Result Text
  | none => pure []
  | some p => do return " on " ++ (← p.render)

def renderClauses (depth : Nat) (c : Clauses) : Result Text := do
  let filter ← renderPhrase depth "where:" c.filter
  let group ← if c.group.isEmpty then pure [] else renderList depth "group:" c.group
  let having ← renderPhrase depth "having:" c.having
  let order ← renderOrder depth c.order
  return filter ++ group ++ having ++ order ++ renderCount depth "limit:" c.limit ++
    renderCount depth "offset:" c.offset

mutual

def renderAt : Frame → Nat → Result Text
  | scalar t, depth => pure (indent depth ++ "scalar #" ++ Text.ofInt t ++ "\n")
  | table n t, depth =>
    pure (indent depth ++ "table #" ++ Text.ofInt n ++ " " ++ t.name.table ++ "\n")
  | query c anchors embedded, depth => do
    let select ← renderList (depth + 1) "select:" c.select
    let joined ← renderAnchors anchors (depth + 1)
    let subqueries ← renderEmbedded embedded (depth + 1)
    return indent depth ++ roleName c.role ++ Text.ofInt c.tag ++ "\n" ++ select ++ joined ++
      subqueries ++ (← renderClauses (depth + 1) c)

def renderAnchors : List (Anchor Frame) → Nat → Result Text
  | [], _ => pure []
  | a :: as, depth => do return (← renderAnchor a depth) ++ (← renderAnchors as depth)

def renderAnchor : Anchor Frame → Nat → Result Text
  | ⟨f, condition, left, right⟩, depth => do
    let on ← renderCondition condition
    return indent depth ++ (Anchor.mk f condition left right).joinName ++ on ++ ":\n" ++
      (← renderAt f (depth + 1))

def renderEmbedded : List Frame → Nat → Result Text
  | [], _ => pure []
  | f :: fs, depth => do
    return indent depth ++ "embed:\n" ++ (← renderAt f (depth + 1)) ++ (← renderEmbedded fs depth)

end

def render (f : Frame) : Result Text := f.renderAt 0

end Frame

end NavQuery
