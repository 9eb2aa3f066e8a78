import NavQuery.Domain.Literal
import NavQuery.Space

/-!
A conversion to boolean asks whether there is a value, literals of numbers are converted at once, and
untyped literals and parameters take up the domain that is asked for. Other values are cast.
-/

namespace NavQuery.Code

def true' (mark : Mark) : Code := .literal mark .boolean (.boolean true)

def notNull (mark : Mark) (c : Code) : Code :=
  .formula mark .boolean (.polar .isNull (-1)) [c]

def hasPresence : Domain → Bool
  | .integer | .float | .decimal | .enum _ | .date | .time | .dateTime | .external _ => true
  | _ => false

def isCastable (source target : Domain) : Bool :=
  match target with
  | .text => source.isBoolean || hasPresence source
  | .integer =>
    match source with
    | .decimal | .float | .text => true
    | _ => false
  | .decimal =>
    match source with
    | .integer | .float | .text => true
    | _ => false
  | .float =>
    match source with
    | .integer | .decimal | .text => true
    | _ => false
  | .date | .time =>
    match source with
    | .text | .dateTime => true
    | _ => false
  | .dateTime =>
    match source with
    | .text | .date => true
    | _ => false
  | _ => false

def isWidening (source target : Domain) : Bool :=
  match source, target with
  | .integer, .decimal | .integer, .float | .decimal, .float => true
  | _, _ => false

def convertLiteral (mark : Mark) (source target : Domain) (v : Value) : Result Code :=
  if v.isNull then pure (.literal mark target .null)
  else do
    let text ← source.write v
    match target.read text with
    | .ok w => pure (.literal mark target w)
    | .error fault => .error (.literal fault)

def convertByCast (mark : Mark) (source target : Domain) (c : Code) : Result Code :=
  match c with
  | .literal _ _ v =>
    if isWidening source target then convertLiteral mark source target v
    else pure (.cast mark target c)
  | _ => pure (.cast mark target c)

def retype (mark : Mark) (target : Domain) : Code → Result Code
  | .single m c s _ => do return .single m (← retype mark target c) s []
  | .parameter _ _ n => pure (.parameter mark target n)
  | .literal _ _ .null => pure (.literal mark target .null)
  | .literal _ _ (.text t) =>
    match target.read t with
    | .ok w => pure (.literal mark target w)
    | .error fault => .error (.query (.badConversion t target fault) mark)
  | .literal _ _ _ => .error .kindMismatch
  | _ => .error (.invariant .untypedLiteral)

def convert (mark : Mark) (source target : Domain) (code : Result Code) (space : Result Space) :
    Result Code :=
  if source.isUntyped then do retype mark target (← code)
  else if source = target then code
  else if target.isBoolean then
    match source with
    | .entity _ | .record _ => do
      return notNull mark (.single mark (true' mark) (← space) [])
    | .text => do
      let blank : Code := .literal mark .text (.text [])
      return notNull mark (.formula mark .text (.plain .nullIf) [← code, blank])
    | _ =>
      if hasPresence source then do return notNull mark (← code)
      else .error (.query (.noConversion source target) mark)
  else if isCastable source target then do convertByCast mark source target (← code)
  else .error (.query (.noConversion source target) mark)

end NavQuery.Code
