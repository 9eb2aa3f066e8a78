import NavQuery.Catalog

/-!
A join is contracting when every row of its origin meets at most one row of its target, and expanding
when it meets at least one.
-/

namespace NavQuery

structure Join where
  key : Nat
  reverse : Bool
  origin : Table
  target : Table
  originColumns : List Column
  targetColumns : List Column
  expanding : Bool
  contracting : Bool
deriving DecidableEq

instance : DecidableEq Join := fun a b => withPtrEqDecEq a b fun _ => instDecidableEqJoin a b

namespace Join

/-- Whether the columns at some positions hold all columns of a unique key. -/
def coversKey (t : Table) (positions : List Nat) : Bool :=
  t.keys.any fun key => key.columns.all positions.contains

/-- A join against its key is never known to be expanding; one along its key is, unless the key is
incomplete or a column of it may be null. -/
def ofKey? (c : Catalog) (reverse : Bool) (key : ForeignKey) : Option Join := do
  let origin ← c.table? key.origin
  let target ← c.table? key.target
  let originColumns := origin.columnsAt key.originColumns
  let targetColumns := target.columnsAt key.targetColumns
  return if reverse then
      { key := key.number, reverse, origin := target, target := origin,
        originColumns := targetColumns, targetColumns := originColumns,
        expanding := false,
        contracting := coversKey origin key.originColumns }
    else
      { key := key.number, reverse, origin, target, originColumns, targetColumns,
        expanding := !key.incomplete && originColumns.all (!·.nullable),
        contracting := coversKey target key.targetColumns }

end Join

namespace Catalog

def join? (c : Catalog) (reverse : Bool) (number : Nat) : Option Join := do
  Join.ofKey? c reverse (← c.foreignKey? number)

end Catalog

end NavQuery
