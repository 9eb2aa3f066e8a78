import NavQuery.Error.Fault

/-!
The ways in which running a statement can fail behind the permission check.
-/

namespace NavQuery

inductive EngineFailure
  | reported (message : Text)
  | columnCount (expected actual : Nat)
  | unreadable (fault : Fault)
deriving DecidableEq

namespace EngineFailure

def message : EngineFailure → Text
  | reported t => t
  | columnCount expected actual =>
    "expected " ++ Text.ofNat expected ++ " columns per row; got " ++ Text.ofNat actual
  | unreadable fault => "unable to convert a result value: " ++ fault.message

end EngineFailure

end NavQuery
