import NavQuery.Error.Engine
import NavQuery.Error.Invariant
import NavQuery.Error.Problem
import NavQuery.Mark

/-!
Everything that can stop the work on a query, by its cause.
-/

namespace NavQuery

inductive Error
  | query (problem : Problem) (mark : Mark)
  | literal (fault : Fault)
  | invariant (rule : Invariant)
  /-- A table of names or positions has no entry for a key. -/
  | missingEntry
  | kindMismatch
  | engine (failure : EngineFailure)
  | permission
  /-- Expanding a value comes back to the value itself, so the work would never end. -/
  | endless

namespace Error

/-- The wording of an error; a missing entry, a kind mismatch and endless work have none. -/
def wording : Error → Text
  | query problem _ => problem.message
  | literal fault => fault.message
  | invariant rule => rule.message
  | engine failure => failure.message
  | permission => "not enough permissions to execute the query"
  | missingEntry | kindMismatch | endless => []

def message (e : Error) : Text := e.wording.untilZero

def hint : Error → Text
  | query problem _ => problem.hint
  | _ => []

def mark : Error → Mark
  | query _ mark => mark
  | _ => .nowhere

def describe (e : Error) : Text := e.mark.describe e.message e.hint

end Error

abbrev Result := Except Error

def ensure (condition : Bool) (rule : Invariant) : Result Unit :=
  if condition then .ok () else .error (.invariant rule)

def require {α : Type} (value : Option α) (rule : Invariant) : Result α :=
  match value with
  | some a => .ok a
  | none => .error (.invariant rule)

def entry {α : Type} : Option α → Result α
  | some a => .ok a
  | none => .error .missingEntry

end NavQuery
