import NavQuery.Text

/-!
A connection runs a statement and hands out its rows one after the other. The engine may fail before
any row, and likewise in place of each further row.
-/

namespace NavQuery

abbrev Cell := Option Text

structure Call where
  sql : Text
  parameters : List Cell
deriving DecidableEq

/-- The rows of a call in the order in which they are handed out. -/
inductive Delivery
  | done
  | failed (message : Text)
  | row (cells : List Cell) (rest : Delivery)

namespace Delivery

def ofRows (rows : List (List Cell)) (last : Delivery) : Delivery := rows.foldr row last

def rows : Delivery → Except Text (List (List Cell))
  | done => .ok []
  | failed message => .error message
  | row cells rest => do return cells :: (← rest.rows)

end Delivery

structure Connection (m : Type → Type) where
  canRead : Bool
  execute : Call → m Delivery

end NavQuery
