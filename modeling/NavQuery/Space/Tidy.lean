import NavQuery.Space.Rebuild

/-!
A filter by the literal `true` keeps every row, so it goes.
-/

namespace NavQuery

def Code.isTrue : Code → Result Bool
  | .literal _ .boolean v =>
    match v with
    | .boolean b => pure b
    | .null => pure false
    | _ => .error .kindMismatch
  | _ => pure false

def Space.withoutTrue : Space → Result Space
  | .filtered m b f => do return if ← f.isTrue then b else .filtered m b f
  | s => pure s

def Finish.tidy : Finish := ⟨fun _ s => s.withoutTrue, fun _ c => pure c⟩

def Space.tidy (s : Space) : Result Space := s.rebuild .tidy

end NavQuery
