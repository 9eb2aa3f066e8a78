import NavQuery.Space.Build
import NavQuery.Space.Tidy

/-!
A value is asked for behind the rows of an enclosing space, its mask. What the mask guarantees need not
be asked again: filters and sorts that the mask has as well, and values that the mask computes itself.
-/

namespace NavQuery

namespace Space

/-- A column read across a join along a key that loses no rows has the value of the key column at the
origin. -/
def originColumn : Space → Column → Space × Column
  | fiber m b j, c =>
    if !j.reverse && j.expanding && j.contracting then
      match (j.originColumns.zip j.targetColumns).find? (·.2 == c) with
      | some (o, _) => originColumn b o
      | none => (fiber m b j, c)
    else (fiber m b j, c)
  | s, c => (s, c)
termination_by structural s => s

def isMasked (mask space base : Space) : Bool := space.prune mask == base.prune mask

/-- The mask for the codes of a filter or sort: the base, unless the mask already has its rows. -/
def codeMask (mask base : Space) : Space := if base.dominates mask then mask else base

end Space

def variableKernels (mark : Mark) (kernels : List Code) : Result (List Code) :=
  if kernels.all (·.units.isEmpty) then .error (.query .constantKernel mark) else pure kernels

/-- Whether a value computed in a space needs no computation of its own behind the rows of a mask. -/
def isImmediate (mask space : Space) (operand : Code) : Bool :=
  space.dominates mask || operand.space?.any space.dominates

variable (root : Space)

mutual

/-- What remains to be asked of a space behind the rows of a mask. A range is cut from all rows, so
below it only the root masks. -/
def Space.unmask : Space → Space → Result Space
  | .root m, _ => pure (.root m)
  | .scalar m b, mask => do return .scalar m (← b.unmask mask)
  | .table m b t, mask => do return .table m (← b.unmask mask) t
  | .fiber m b j, mask => do return .fiber m (← b.unmask mask) j
  | .quotient m b s ks cs, mask => do
    let kernels ← variableKernels m (← Code.unmaskAll ks s)
    let seed ← s.unmask b
    (Space.quotient m (← b.unmask mask) seed kernels cs).checked
  | .complement m b cs, mask => do return .complement m (← b.unmask mask) cs
  | .moniker m b s cs, mask => do
    let seed ← s.unmask b
    (Space.moniker m (← b.unmask mask) seed cs).checked
  | .forked m b s ks cs, mask => do
    let seed ← s.unmask s.lastAxis
    let kernels ← Code.unmaskAll ks b
    (Space.forked m (← b.unmask mask) seed kernels cs).checked
  | .linked m b s is cs, mask => do
    let seed ← s.unmask b
    let images ← Code.unmaskImages is b s
    (Space.linked m (← b.unmask mask) seed images cs).checked
  | .filtered m b f, mask => do
    if Space.isMasked mask (.filtered m b f) b then b.unmask mask
    else
      let condition ← f.unmask (Space.codeMask mask b)
      return .filtered m (← b.unmask mask) condition
  | .ordered m b os l o, mask => do
    if Space.isMasked mask (.ordered m b os l o) b then b.unmask mask
    else
      let order ← Code.unmaskOrder os (Space.codeMask mask b)
      let base ← b.unmask (if l.isNone && o.isNone then mask else root)
      return .ordered m base order l o
termination_by structural s => s

def Code.unmask : Code → Space → Result Code
  | .missing, _ => pure .missing
  | .literal m d v, _ => pure (.literal m d v)
  | .parameter m d n, _ => pure (.parameter m d n)
  | .cast m d c, mask => do return .cast m d (← c.unmask mask)
  | .formula m d f as, mask => do return .formula m d f (← Code.unmaskAll as mask)
  | .correlation m c, mask => do return .correlation m (← c.unmask mask)
  | .column m d c s, mask => do
    let (space, column) := (← s.unmask mask).originColumn c
    return .column m d column space
  | .single m c s cs, mask => do
    if isImmediate mask s c then c.unmask mask
    else return .single m (← c.unmask s) (← s.unmask mask) cs
  | .aggregate m c p s cs, mask => do
    let operand ← c.unmask p
    let plural ← p.unmask (if s.dominates mask then mask else s)
    return .aggregate m operand plural (← s.unmask mask) cs
  | .correlated m c p s, mask => do
    let operand ← c.unmask p
    let plural ← p.unmask (if s.dominates mask then mask else s)
    return .correlated m operand plural (← s.unmask mask)
  | .kernel m c s, mask => do
    let place ← c.kernelPlace s
    Code.kernelAt m (← s.unmask mask) place
  | .covering m c s, mask => do
    let operand ← c.unmask (s.seed?.getD mask)
    return .covering m operand (← s.unmask mask)
termination_by structural c => c

def Code.unmaskAll : List Code → Space → Result (List Code)
  | [], _ => pure []
  | c :: cs, mask => do return (← c.unmask mask) :: (← Code.unmaskAll cs mask)
termination_by structural cs => cs

def Code.unmaskImages : List (Code × Code) → Space → Space → Result (List Image)
  | [], _, _ => pure []
  | i :: is, base, seed => do
    return (← Code.unmaskImage i base seed) :: (← Code.unmaskImages is base seed)
termination_by structural is => is

def Code.unmaskImage : Code × Code → Space → Space → Result Image
  | (a, b), base, seed => do return (← a.unmask base, ← b.unmask seed)
termination_by structural i => i

def Code.unmaskOrder : List (Code × Direction) → Space → Result (List OrderItem)
  | [], _ => pure []
  | o :: os, mask => do
    return (← Code.unmaskItem o mask) :: (← Code.unmaskOrder os mask)
termination_by structural os => os

def Code.unmaskItem : Code × Direction → Space → Result OrderItem
  | (c, d), mask => do return (← c.unmask mask, d)
termination_by structural o => o

end

abbrev Space.unmaskAt (p : Space × Space) : Result Space := Space.unmask root p.1 p.2

mutual

def Space.toUnmasked (s mask : Space) :
    Recall (Space.unmaskAt root) (ValueOf (Space.unmask root s) mask) :=
  Recall.value (s, mask) fun () =>
    match s with
    | .root _ => pure ⟨_, rfl⟩
    | .scalar m b => .bind (fun b' => pure (.scalar m b')) (b.toUnmasked mask)
    | .table m b t => .bind (fun b' => pure (.table m b' t)) (b.toUnmasked mask)
    | .fiber m b j => .bind (fun b' => pure (.fiber m b' j)) (b.toUnmasked mask)
    | .quotient m b s ks cs =>
      .map₃ (fun ks' s' b' => do
        let kernels ← variableKernels m (← ks')
        let seed ← s'
        (Space.quotient m (← b') seed kernels cs).checked)
        (Code.toUnmaskedAll ks s) (s.toUnmasked b) (b.toUnmasked mask)
    | .complement m b cs => .bind (fun b' => pure (.complement m b' cs)) (b.toUnmasked mask)
    | .moniker m b s cs =>
      .bind₂ (fun s' b' => (Space.moniker m b' s' cs).checked) (s.toUnmasked b) (b.toUnmasked mask)
    | .forked m b s ks cs =>
      .bind₃ (fun s' ks' b' => (Space.forked m b' s' ks' cs).checked) (s.toUnmasked s.lastAxis)
        (Code.toUnmaskedAll ks b) (b.toUnmasked mask)
    | .linked m b s is cs =>
      .bind₃ (fun s' is' b' => (Space.linked m b' s' is' cs).checked) (s.toUnmasked b)
        (Code.toUnmaskedImages is b s) (b.toUnmasked mask)
    | .filtered m b f =>
      if h : Space.isMasked mask (.filtered m b f) b then
        .map id (b.toUnmasked mask) (by rw [Space.unmaskAt, Space.unmask, if_pos h, id])
      else
        .bind₂ (fun f' b' => pure (.filtered m b' f')) (f.toUnmasked (Space.codeMask mask b))
          (b.toUnmasked mask) (by rw [Space.unmaskAt, Space.unmask, if_neg h])
    | .ordered m b os l o =>
      if h : Space.isMasked mask (.ordered m b os l o) b then
        .map id (b.toUnmasked mask) (by rw [Space.unmaskAt, Space.unmask, if_pos h, id])
      else
        .bind₂ (fun os' b' => pure (.ordered m b' os' l o))
          (Code.toUnmaskedOrder os (Space.codeMask mask b))
          (b.toUnmasked (if l.isNone && o.isNone then mask else root))
          (by rw [Space.unmaskAt, Space.unmask, if_neg h])
termination_by structural s

def Code.toUnmasked (c : Code) (mask : Space) :
    Recall (Space.unmaskAt root) (ValueOf (c.unmask root) mask) :=
  match c with
  | .missing | .literal _ _ _ | .parameter _ _ _ => pure ⟨_, rfl⟩
  | .cast m d c => .bind (fun c' => pure (.cast m d c')) (c.toUnmasked mask)
  | .formula m d f as => .bind (fun as' => pure (.formula m d f as')) (Code.toUnmaskedAll as mask)
  | .correlation m c => .bind (fun c' => pure (.correlation m c')) (c.toUnmasked mask)
  | .column m d c s =>
    .bind (fun s' =>
      let (space, column) := s'.originColumn c
      pure (.column m d column space)) (s.toUnmasked mask)
  | .single m c s cs =>
    if h : isImmediate mask s c then
      .map id (c.toUnmasked mask) (by rw [Code.unmask, if_pos h, id])
    else
      .bind₂ (fun c' s' => pure (.single m c' s' cs)) (c.toUnmasked s) (s.toUnmasked mask)
        (by rw [Code.unmask, if_neg h])
  | .aggregate m c p s cs =>
    .bind₃ (fun c' p' s' => pure (.aggregate m c' p' s' cs)) (c.toUnmasked p)
      (p.toUnmasked (if s.dominates mask then mask else s)) (s.toUnmasked mask)
  | .correlated m c p s =>
    .bind₃ (fun c' p' s' => pure (.correlated m c' p' s')) (c.toUnmasked p)
      (p.toUnmasked (if s.dominates mask then mask else s)) (s.toUnmasked mask)
  | .kernel m c s =>
    .map (fun s' => do
      let place ← c.kernelPlace s
      Code.kernelAt m (← s') place) (s.toUnmasked mask)
  | .covering m c s =>
    .bind₂ (fun c' s' => pure (.covering m c' s')) (c.toUnmasked (s.seed?.getD mask)) (s.toUnmasked mask)
termination_by structural c

def Code.toUnmaskedAll (cs : List Code) (mask : Space) :
    Recall (Space.unmaskAt root) (ValueOf (Code.unmaskAll root cs) mask) :=
  match cs with
  | [] => pure ⟨_, rfl⟩
  | c :: cs => .bind₂ (fun c' cs' => pure (c' :: cs')) (c.toUnmasked mask) (Code.toUnmaskedAll cs mask)
termination_by structural cs

def Code.toUnmaskedImages (is : List (Code × Code)) (base seed : Space) :
    Recall (Space.unmaskAt root) (ValueOf (Code.unmaskImages root is base) seed) :=
  match is with
  | [] => pure ⟨_, rfl⟩
  | i :: is =>
    .bind₂ (fun i' is' => pure (i' :: is')) (Code.toUnmaskedImage i base seed)
      (Code.toUnmaskedImages is base seed)
termination_by structural is

def Code.toUnmaskedImage (i : Code × Code) (base seed : Space) :
    Recall (Space.unmaskAt root) (ValueOf (Code.unmaskImage root i base) seed) :=
  match i with
  | (a, b) => .bind₂ (fun a' b' => pure (a', b')) (a.toUnmasked base) (b.toUnmasked seed)
termination_by structural i

def Code.toUnmaskedOrder (os : List (Code × Direction)) (mask : Space) :
    Recall (Space.unmaskAt root) (ValueOf (Code.unmaskOrder root os) mask) :=
  match os with
  | [] => pure ⟨_, rfl⟩
  | o :: os =>
    .bind₂ (fun o' os' => pure (o' :: os')) (Code.toUnmaskedItem o mask) (Code.toUnmaskedOrder os mask)
termination_by structural os

def Code.toUnmaskedItem (o : Code × Direction) (mask : Space) :
    Recall (Space.unmaskAt root) (ValueOf (Code.unmaskItem root o) mask) :=
  match o with
  | (c, d) => .bind (fun c' => pure (c', d)) (c.toUnmasked mask)
termination_by structural o

end

/-- A space without what always holds and without what a mask guarantees; the mask is tidied first.
Without a mask only the root masks. -/
def Space.simplify (s : Space) (mask : Option Space) : Result Space := do
  let root := s.ancestors.getLast?.getD s
  let (tidied, tidiedMask) := Recall.run do
    let space ← s.toRebuilt .tidy
    match mask with
    | none => return (space.1, pure root)
    | some m => return (space.1, (← m.toRebuilt .tidy).1)
  (Space.toUnmasked root (← tidied) (← tidiedMask)).run.1

theorem Space.simplify_eq (s : Space) (mask : Option Space) :
    s.simplify mask = (do
      let root := s.ancestors.getLast?.getD s
      let tidied ← s.tidy
      Space.unmask root tidied (← mask.elim (pure root) Space.tidy)) := by
  cases mask <;>
    simp only [Space.simplify, ValueOf.eq] <;> rfl

end NavQuery
