import NavQuery.Known
import NavQuery.Space.Equality

/-!
The units of a space are listed without repetitions, in the order in which a walk from the last step to
the root meets them first. A space that is met several times is walked once.
-/

namespace NavQuery

/-- The units that a space is built from. `kernels` are those of the kernels that its rows are grouped
by, from the outermost grouping on. -/
structure Collected where
  units : List Code
  kernels : List (List Code)

namespace Collected

def step (own : List Code) (base : Collected) (kernels : List (List Code)) : Collected :=
  ⟨if own.isEmpty then base.units else Code.distinct (own ++ base.units), kernels⟩

def plain (base : Collected) : Collected := step [] base []

def quotient (base seed : Collected) (kernels : List Code) : Collected :=
  step (seed.units ++ kernels) base (kernels :: seed.kernels)

def complement (base : Collected) : Collected :=
  step (base.kernels.headD []) base base.kernels.tail

def moniker (base seed : Collected) : Collected := step seed.units base seed.kernels

def forked (base seed : Collected) (kernels : List Code) : Collected :=
  step (seed.units ++ kernels) base base.kernels

def linked (base seed : Collected) (images : List Code) : Collected :=
  step (seed.units ++ images) base seed.kernels

def narrowed (base : Collected) (own : List Code) : Collected := step own base base.kernels

end Collected

def Code.withUnits (unit : Code) (parts : List Code) : List Code := Code.distinct (unit :: parts)

mutual

def Space.collect : Space → Collected
  | .root _ => ⟨[], []⟩
  | .scalar _ b | .table _ b _ | .fiber _ b _ => .plain b.collect
  | .quotient _ b s ks _ => .quotient b.collect s.collect (Code.collectAll ks)
  | .complement _ b _ => .complement b.collect
  | .moniker _ b s _ => .moniker b.collect s.collect
  | .forked _ b s ks _ => .forked b.collect s.collect (Code.collectAll ks)
  | .linked _ b s is _ => .linked b.collect s.collect (Code.collectImages is)
  | .filtered _ b f => .narrowed b.collect f.collect
  | .ordered _ b os _ _ => .narrowed b.collect (Code.collectOrder os)

def Code.collect : Code → List Code
  | .missing | .literal _ _ _ | .parameter _ _ _ | .correlation _ _ => []
  | .cast _ _ c => c.collect
  | .formula _ _ _ as => Code.collectAll as
  | .column m d c s => Code.withUnits (.column m d c s) s.collect.units
  | .single m c s cs => Code.withUnits (.single m c s cs) (c.collect ++ s.collect.units)
  | .aggregate m c p s cs =>
    Code.withUnits (.aggregate m c p s cs) (c.collect ++ p.collect.units ++ s.collect.units)
  | .correlated m c p s =>
    Code.withUnits (.correlated m c p s) (c.collect ++ p.collect.units ++ s.collect.units)
  | .kernel m c s => Code.withUnits (.kernel m c s) (c.collect ++ s.collect.units)
  | .covering m c s => Code.withUnits (.covering m c s) (c.collect ++ s.collect.units)

def Code.collectAll : List Code → List Code
  | [] => []
  | c :: cs => Code.distinct (c.collect ++ Code.collectAll cs)

def Code.collectImages : List (Code × Code) → List Code
  | [] => []
  | i :: is => Code.distinct (Code.collectImage i ++ Code.collectImages is)

def Code.collectImage : Code × Code → List Code
  | (a, b) => a.collect ++ b.collect

def Code.collectOrder : List (Code × Direction) → List Code
  | [] => []
  | o :: os => Code.distinct (Code.collectItem o ++ Code.collectOrder os)

def Code.collectItem : Code × Direction → List Code
  | (c, _) => c.collect

end

mutual

def Space.toCollected (s : Space) : Recall Space.collect (ValueOf Space.collect s) :=
  Recall.value s fun () =>
    match s with
    | .root _ => pure ⟨⟨[], []⟩, rfl⟩
    | .scalar _ b | .table _ b _ | .fiber _ b _ => .map .plain b.toCollected
    | .quotient _ b s ks _ => .map₃ .quotient b.toCollected s.toCollected (Code.toCollectedAll ks)
    | .complement _ b _ => .map .complement b.toCollected
    | .moniker _ b s _ => .map₂ .moniker b.toCollected s.toCollected
    | .forked _ b s ks _ => .map₃ .forked b.toCollected s.toCollected (Code.toCollectedAll ks)
    | .linked _ b s is _ => .map₃ .linked b.toCollected s.toCollected (Code.toCollectedImages is)
    | .filtered _ b f => .map₂ .narrowed b.toCollected f.toCollected
    | .ordered _ b os _ _ => .map₂ .narrowed b.toCollected (Code.toCollectedOrder os)

def Code.toCollected (c : Code) : Recall Space.collect (ValueOf Code.collect c) :=
  match c with
  | .missing | .literal _ _ _ | .parameter _ _ _ | .correlation _ _ => pure ⟨[], rfl⟩
  | .cast _ _ c => c.toCollected
  | .formula _ _ _ as => Code.toCollectedAll as
  | .column m d c s => .map (fun s' => Code.withUnits (.column m d c s) s'.units) s.toCollected
  | .single m c s cs =>
    .map₂ (fun c' s' => Code.withUnits (.single m c s cs) (c' ++ s'.units)) c.toCollected s.toCollected
  | .aggregate m c p s cs =>
    .map₃ (fun c' p' s' => Code.withUnits (.aggregate m c p s cs) (c' ++ p'.units ++ s'.units))
      c.toCollected p.toCollected s.toCollected
  | .correlated m c p s =>
    .map₃ (fun c' p' s' => Code.withUnits (.correlated m c p s) (c' ++ p'.units ++ s'.units))
      c.toCollected p.toCollected s.toCollected
  | .kernel m c s =>
    .map₂ (fun c' s' => Code.withUnits (.kernel m c s) (c' ++ s'.units)) c.toCollected s.toCollected
  | .covering m c s =>
    .map₂ (fun c' s' => Code.withUnits (.covering m c s) (c' ++ s'.units)) c.toCollected s.toCollected

def Code.toCollectedAll (cs : List Code) : Recall Space.collect (ValueOf Code.collectAll cs) :=
  match cs with
  | [] => pure ⟨[], rfl⟩
  | c :: cs => .map₂ (fun c' cs' => Code.distinct (c' ++ cs')) c.toCollected (Code.toCollectedAll cs)

def Code.toCollectedImages (is : List (Code × Code)) :
    Recall Space.collect (ValueOf Code.collectImages is) :=
  match is with
  | [] => pure ⟨[], rfl⟩
  | i :: is =>
    .map₂ (fun i' is' => Code.distinct (i' ++ is')) (Code.toCollectedImage i) (Code.toCollectedImages is)

def Code.toCollectedImage (i : Code × Code) : Recall Space.collect (ValueOf Code.collectImage i) :=
  match i with
  | (a, b) => .map₂ (· ++ ·) a.toCollected b.toCollected

def Code.toCollectedOrder (os : List (Code × Direction)) :
    Recall Space.collect (ValueOf Code.collectOrder os) :=
  match os with
  | [] => pure ⟨[], rfl⟩
  | o :: os =>
    .map₂ (fun o' os' => Code.distinct (o' ++ os')) (Code.toCollectedItem o) (Code.toCollectedOrder os)

def Code.toCollectedItem (o : Code × Direction) :
    Recall Space.collect (ValueOf Code.collectItem o) :=
  match o with
  | (c, _) => c.toCollected

end

end NavQuery
