import NavQuery.Segment
import NavQuery.Segment.Companions
import NavQuery.Space.Collect
import NavQuery.Space.Mask

/-!
Conditions that always hold are dropped, then what the rows of the segment guarantee anyway, and last
the values that are computed together are made companions.
-/

namespace NavQuery.Segment

def rebuild (f : Finish) (s : Segment) : Result Segment :=
  Recall.run do
    let root ← s.root.toRebuilt f
    let space ← s.space.toRebuilt f
    let codes ← Code.toRebuiltAll f s.codes
    return do return { s with root := ← root.1, space := ← space.1, codes := ← codes.1 }

theorem rebuild_eq (f : Finish) (s : Segment) :
    s.rebuild f = (do
      return { s with
        root := ← s.root.rebuild f
        space := ← s.space.rebuild f
        codes := ← Code.rebuildAll f s.codes }) := by
  simp only [rebuild, ValueOf.eq]
  rfl

def tidy (s : Segment) : Result Segment := s.rebuild .tidy

def unmask (root : Space) (s : Segment) : Result Segment :=
  Recall.run do
    let codes ← Code.toUnmaskedAll root s.codes s.space
    let space ← Space.toUnmasked root s.space s.root
    let top ← Space.toUnmasked root s.root root
    return do return { s with codes := ← codes.1, space := ← space.1, root := ← top.1 }

theorem unmask_eq (root : Space) (s : Segment) :
    s.unmask root = (do
      return { s with
        codes := ← Code.unmaskAll root s.codes s.space
        space := ← Space.unmask root s.space s.root
        root := ← Space.unmask root s.root root }) := by
  simp only [unmask, ValueOf.eq]
  rfl

def units (s : Segment) : List Code :=
  Recall.run do
    let root ← s.root.toCollected
    let space ← s.space.toCollected
    let codes ← Code.toCollectedAll s.codes
    return Code.distinct (root.1.units ++ space.1.units ++ codes.1)

theorem units_eq (s : Segment) :
    s.units =
      Code.distinct (s.root.collect.units ++ s.space.collect.units ++ Code.collectAll s.codes) := by
  simp only [units, ValueOf.eq]
  rfl

def accompany (s : Segment) : Result Segment :=
  let c := Companions.ofUnits s.units
  s.rebuild (.accompany c (c.expand c.size))

def simplify (s : Segment) : Result Segment := do (← (← s.tidy).unmask s.root).accompany

end NavQuery.Segment
