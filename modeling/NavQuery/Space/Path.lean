import NavQuery.Known
import NavQuery.Space.Equality

/-!
A step is contracting when a row has at most one row behind it, and expanding when it has at least one.
`spans` says that a row of the one space determines at most one row of the other, and `dominates` says
besides that no row of the other is lost.
-/

namespace NavQuery

namespace Space

structure Step where
  space : Space
  contracting : Bool
  expanding : Bool

namespace Step

def axis (s : Step) : Bool := s.space.isAxis

def resembles (a b : Step) : Bool := a.space.resembles b.space

end Step

def spansAxes : List Step → List Step → Bool
  | a :: as, b :: bs =>
    if a.resembles b then spansAxes as bs else (b :: bs).all (·.contracting)
  | _, bs => bs.all (·.contracting)

def spansSteps (as bs : List Step) : Bool := spansAxes (as.filter (·.axis)) (bs.filter (·.axis))

/-- Steps are matched from the root on, where steps of the other path that only drop rows may be left
out. What remains is expanding on the one side and contracting on the other. -/
def dominatesSteps : List Step → List Step → Bool
  | a :: as, b :: bs =>
    if a.resembles b then dominatesSteps as bs
    else if !b.axis && b.contracting then dominatesSteps (a :: as) bs
    else (a :: as).all (·.expanding) && (b :: bs).all (·.contracting)
  | as, bs => as.all (·.expanding) && bs.all (·.contracting)

def lastAxisContracting (steps : List Step) : Bool :=
  match (steps.filter (·.axis)).getLast? with
  | some s => s.contracting
  | none => false

/-- The steps from the last one back to the root. A step that takes up the rows of a seed is as the
paths of its base and of the seed make it. -/
def trail : Space → List Step
  | root m => [⟨root m, false, false⟩]
  | scalar m b => ⟨scalar m b, true, true⟩ :: trail b
  | table m b t => ⟨table m b t, false, false⟩ :: trail b
  | fiber m b j => ⟨fiber m b j, j.contracting, j.expanding⟩ :: trail b
  | quotient m b s ks cs => ⟨quotient m b s ks cs, ks.isEmpty, b.isRoot && ks.isEmpty⟩ :: trail b
  | complement m b cs => ⟨complement m b cs, false, true⟩ :: trail b
  | moniker m b s cs => monikerStep m b s cs (trail b) (trail s) :: trail b
  | forked m b s ks cs => forkedStep m b s ks cs (trail b) (trail s) :: trail b
  | linked m b s is cs => ⟨linked m b s is cs, false, false⟩ :: trail b
  | filtered m b f => ⟨filtered m b f, true, false⟩ :: trail b
  | ordered m b os l o => ⟨ordered m b os l o, true, l.isNone && o.isNone⟩ :: trail b
where
  monikerStep (m : Mark) (b s : Space) (cs : List Code) (base seed : List Step) : Step :=
    ⟨moniker m b s cs, spansSteps base.reverse seed.reverse,
      dominatesSteps seed.reverse base.reverse⟩
  forkedStep (m : Mark) (b s : Space) (ks cs : List Code) (base seed : List Step) : Step :=
    ⟨forked m b s ks cs, lastAxisContracting seed.reverse,
      ks.isEmpty && dominatesSteps seed.reverse base.reverse⟩

def toTrail (s : Space) : Recall trail (ValueOf trail s) :=
  match s with
  | root _ => pure ⟨_, rfl⟩
  | scalar m b => .map (⟨scalar m b, true, true⟩ :: ·) b.toTrail
  | table m b t => .map (⟨table m b t, false, false⟩ :: ·) b.toTrail
  | fiber m b j => .map (⟨fiber m b j, j.contracting, j.expanding⟩ :: ·) b.toTrail
  | quotient m b s ks cs =>
    .map (⟨quotient m b s ks cs, ks.isEmpty, b.isRoot && ks.isEmpty⟩ :: ·) b.toTrail
  | complement m b cs => .map (⟨complement m b cs, false, true⟩ :: ·) b.toTrail
  | moniker m b s cs =>
    Recall.value (moniker m b s cs) fun () =>
      .map₂ (fun b' s' => trail.monikerStep m b s cs b' s' :: b') b.toTrail s.toTrail
  | forked m b s ks cs =>
    Recall.value (forked m b s ks cs) fun () =>
      .map₂ (fun b' s' => trail.forkedStep m b s ks cs b' s' :: b') b.toTrail s.toTrail
  | linked m b s is cs => .map (⟨linked m b s is cs, false, false⟩ :: ·) b.toTrail
  | filtered m b f => .map (⟨filtered m b f, true, false⟩ :: ·) b.toTrail
  | ordered m b os l o => .map (⟨ordered m b os l o, true, l.isNone && o.isNone⟩ :: ·) b.toTrail

def path (s : Space) : List Step := s.toTrail.run.1.reverse

theorem path_eq (s : Space) : s.path = s.trail.reverse := congrArg List.reverse s.toTrail.run.2

def pathOf (s : Option Space) : List Step := s.elim [] path

/-- Whether each row of the space determines at most one row of the other. -/
def spans (s t : Space) : Bool := spansSteps s.path t.path

/-- Whether the space spans the other and loses none of its rows. -/
def dominates (s t : Space) : Bool := dominatesSteps s.path t.path

/-- Whether the spaces have the same rows up to steps that neither lose nor repeat rows. -/
def conforms (s t : Space) : Bool := s.dominates t && t.dominates s

def isContracting (s : Space) : Bool := s.path.getLast?.any (·.contracting)

def isExpanding (s : Space) : Bool := s.path.getLast?.any (·.expanding)

def isInflated (s : Space) : Bool := s.ancestors.all (·.isAxis)

def axesOnly : Space → Space
  | root m => root m
  | scalar m b => scalar m (axesOnly b)
  | table m b t => table m (axesOnly b) t
  | fiber m b j => fiber m (axesOnly b) j
  | quotient m b s ks cs => quotient m (axesOnly b) s ks cs
  | complement m b cs => complement m (axesOnly b) cs
  | moniker m b s cs => moniker m (axesOnly b) s cs
  | forked m b s ks cs => forked m (axesOnly b) s ks cs
  | linked m b s is cs => linked m (axesOnly b) s is cs
  | filtered _ b _ | ordered _ b _ _ _ => axesOnly b

structure Inflated (s : Space) where
  space : Space
  whole : Bool
  eq : space = s.axesOnly
  eq_self : whole → s.axesOnly = s

namespace Inflated

def axis {s b : Space} (i : Inflated b) (put : Space → Space) (hs : s = put b)
    (h : s.axesOnly = put b.axesOnly) : Inflated s :=
  if w : i.whole = true then
    have self : s.axesOnly = s := by rw [h, i.eq_self w, ← hs]
    ⟨s, true, self.symm, fun _ => self⟩
  else ⟨put i.space, false, by rw [h, i.eq], by simp⟩

def drop {s b : Space} (i : Inflated b) (h : s.axesOnly = b.axesOnly) : Inflated s :=
  ⟨i.space, false, by rw [h, i.eq], by simp⟩

def ofSpace : (s : Space) → Inflated s
  | root m => ⟨root m, true, by rw [axesOnly], fun _ => by rw [axesOnly]⟩
  | scalar m b => (ofSpace b).axis (scalar m) rfl (by rw [axesOnly])
  | table m b t => (ofSpace b).axis (table m · t) rfl (by rw [axesOnly])
  | fiber m b j => (ofSpace b).axis (fiber m · j) rfl (by rw [axesOnly])
  | quotient m b s ks cs => (ofSpace b).axis (quotient m · s ks cs) rfl (by rw [axesOnly])
  | complement m b cs => (ofSpace b).axis (complement m · cs) rfl (by rw [axesOnly])
  | moniker m b s cs => (ofSpace b).axis (moniker m · s cs) rfl (by rw [axesOnly])
  | forked m b s ks cs => (ofSpace b).axis (forked m · s ks cs) rfl (by rw [axesOnly])
  | linked m b s is cs => (ofSpace b).axis (linked m · s is cs) rfl (by rw [axesOnly])
  | filtered _ b _ | ordered _ b _ _ _ => (ofSpace b).drop (by rw [axesOnly])

end Inflated

def inflate (s : Space) : Space := (Inflated.ofSpace s).space

theorem inflate_eq (s : Space) : s.inflate = s.axesOnly := (Inflated.ofSpace s).eq

/-- The steps of the first chain that remain when steps that are no axes and that the other chain has
as well are left out. There is no answer when a step cannot change places with what remains. -/
def pruneSteps : List Space → List Space → Option (List Space)
  | a :: as, b :: bs =>
    if a.resembles b then
      if a.isCommutative || a == b then
        if a.isAxis then (a :: ·) <$> pruneSteps as bs else pruneSteps as bs
      else none
    else if !b.isAxis then pruneSteps (a :: as) bs
    else if !a.isAxis then
      if a.isCommutative then (a :: ·) <$> pruneSteps as (b :: bs) else none
    else keepSteps (a :: as)
  | as, [] => keepSteps as
  | [], _ => some []
where
  keepSteps (steps : List Space) : Option (List Space) :=
    if steps.all (·.isCommutative) then some steps else none

def chain : Space → List Space → Space
  | s, [] => s
  | s, t :: ts => chain (t.withBase s) ts

def line (s : Space) : List Space := s.ancestors.reverse

def pruneBy (s : Space) (others : List Space) : Space :=
  if s.isInflated then s
  else
    match pruneSteps s.line others with
    | some (r :: rs) => chain r rs
    | _ => s

def prune (s t : Space) : Space := s.pruneBy t.line

end Space

end NavQuery
