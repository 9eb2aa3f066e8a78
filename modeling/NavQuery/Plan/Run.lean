import NavQuery.Connection
import NavQuery.Plan

/-!
Running a plan sends its statement once, with the values of the parameters in the order of the
placeholders. The records are all there or the run fails.
-/

namespace NavQuery

structure Product where
  profile : Profile
  records : Option (List (List Value))

def Parameter.cell (p : Parameter) : Result Cell :=
  if p.value.isNull then pure none
  else do return some (← (p.domain.getD .untyped).write p.value)

namespace Domain

/-- Engines spell truth values in several ways. -/
def readTruth? (t : Text) : Option Bool :=
  if [Text.ofString "t", "1", "TRUE", "true"].contains t then some true
  else if [Text.ofString "f", "0", "FALSE", "false"].contains t then some false
  else none

/-- The value that a cell spells. Values of a domain that only the engine knows stay texts. -/
def readCell (d : Domain) (t : Text) : Except Fault Value :=
  match d with
  | boolean =>
    match readTruth? t with
    | some b => .ok (.boolean b)
    | none => d.read t
  | untyped | external _ => .ok (.text t)
  | _ => d.read t

end Domain

namespace Plan

def arguments (p : Plan) (e : Environment) : Result (List Cell) :=
  p.placeholders.mapM fun h => do (← require (List.lookup h.name e) .boundPlaceholder).cell

def fieldValue (cells : List Cell) (column : Nat) (d : Domain) : Result Value := do
  match ← entry cells[column]? with
  | none => return .null
  | some t => (d.readCell t).mapError fun fault => .engine (.unreadable fault)

def record (p : Plan) (cells : List Cell) : Result (List Value) :=
  if cells.length = p.domains.length then
    (p.outputs.zip p.profile.fields).mapM fun (column, f) => fieldValue cells column f.domain
  else .error (.engine (.columnCount p.domains.length cells.length))

def product (p : Plan) (d : Delivery) : Result Product := do
  let rows ← d.rows.mapError fun message => .engine (.reported message)
  if rows.isEmpty then return ⟨p.profile, none⟩
  return ⟨p.profile, some (← rows.mapM p.record)⟩

def run {m : Type → Type} [Monad m] (p : Plan) (e : Environment) (c : Connection m) :
    m (Result Product) :=
  if p.sql.isEmpty then pure (.ok ⟨p.profile, none⟩)
  else if !c.canRead then pure (.error .permission)
  else
    match p.arguments e with
    | .error error => pure (.error error)
    | .ok cells => do return p.product (← c.execute ⟨p.sql, cells⟩)

end Plan

end NavQuery
