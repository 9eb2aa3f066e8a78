import NavQuery.Space.Arrangement

/-!
Equalities by which rows are joined: `selfJoints` connects a space with another copy of itself, and
`baseJoints` connects it with its base.
-/

namespace NavQuery

structure Joint where
  left : Code
  right : Code

namespace Space

def tableKey (t : Table) (inflated : Space) (mark : Mark) : Result (List Code) :=
  let columns := t.identifyingColumns
  if columns.isEmpty then .error (.query (.missingKey t.name.table) mark)
  else pure (columns.map fun c => Code.ofColumn c inflated mark)

/-- The axes of a seed from its ground on. Axes that add no rows are left out, except the ground. -/
def pluralAxes (seed ground : Space) : List Space :=
  let baseline := ground.inflate
  (seed.inflate.ancestors.takeWhile (·.concludes baseline)).reverse.filter fun axis =>
    !axis.isContracting || axis == baseline

theorem weight_pluralAxis_le {seed ground axis : Space} (h : axis ∈ pluralAxes seed ground) :
    axis.weight ≤ seed.weight := by
  have ha := (List.takeWhile_sublist _).mem (List.mem_reverse.1 (List.mem_filter.1 h).1)
  exact Nat.le_trans (weight_ancestor_le _ _ ha) (weight_inflate_le seed)

mutual

def keyUnits : Space → Result (List Code)
  | root _ | scalar _ _ => pure []
  | table m b t => tableKey t (inflate (table m b t)) m
  | fiber m b j => tableKey j.target (inflate (fiber m b j)) m
  | quotient m b s ks cs => do
    let joints ← baseJoints (groundOf b s)
    return (joints.map (·.right) ++ ks).map (Code.ofKernel · (inflate (quotient m b s ks cs)))
  | complement m b cs =>
    match _ : b.family with
    | .quotient s g _ _ => do
      let units ← (pluralAxes s g).attach.mapM fun ⟨axis, _⟩ => keyUnits axis
      return units.flatten.map (Code.ofCovered · (inflate (complement m b cs)))
    | _ => pure []
  | moniker m b s cs => do
    let units ← (pluralAxes s (monikerGround b s)).attach.mapM fun ⟨axis, _⟩ => keyUnits axis
    return units.flatten.map (Code.ofCovered · (inflate (moniker m b s cs)))
  | forked m b s ks cs => do
    let units ← (pluralAxes s s.lastAxis).attach.mapM fun ⟨axis, _⟩ => keyUnits axis
    return units.flatten.map (Code.ofCovered · (inflate (forked m b s ks cs)))
  | linked m b s is cs => do
    let units ← (pluralAxes s (groundOf b s)).attach.mapM fun ⟨axis, _⟩ => keyUnits axis
    return units.flatten.map (Code.ofCovered · (inflate (linked m b s is cs)))
  | filtered _ b _ | ordered _ b _ _ _ => keyUnits b
termination_by s => s.weight
decreasing_by
  all_goals simp only [weight]
  all_goals first
    | omega
    | have := weight_groundOf_le b s
      omega
    | have := weight_pluralAxis_le ‹_ ∈ pluralAxes s _›
      first
        | omega
        | have hf := lighter_family b
          rw [‹b.family = _›] at hf
          simp only [lighter] at hf
          omega

def baseJoints : Space → Result (List Joint)
  | root _ | scalar _ _ | table _ _ _ => pure []
  | fiber m b j =>
    pure ((j.originColumns.zip j.targetColumns).map fun (o, t) =>
      ⟨Code.ofColumn o b.inflate m, Code.ofColumn t (inflate (fiber m b j)) m⟩)
  | quotient m b s ks cs => do
    let joints ← baseJoints (groundOf b s)
    return joints.map fun j => ⟨j.left, Code.ofKernel j.right (inflate (quotient m b s ks cs))⟩
  | complement m b cs =>
    match _ : b.family with
    | .quotient _ g ks _ => do
      let joints ← baseJoints g
      return (joints.map (·.right) ++ ks).map fun c =>
        ⟨Code.ofKernel c b.inflate, Code.ofCovered c (inflate (complement m b cs))⟩
    | _ => pure []
  | moniker m b s cs => do
    let joints ←
      if b.spans s then pure ((← keyUnits (monikerGround b s)).map fun u => ⟨u, u⟩)
      else baseJoints (monikerGround b s)
    return joints.map fun j => ⟨j.left, Code.ofCovered j.right (inflate (moniker m b s cs))⟩
  | forked m b s ks cs => do
    let joints ← baseJoints s
    return (joints.map (·.right) ++ ks).map fun c =>
      ⟨c, Code.ofCovered c (inflate (forked m b s ks cs))⟩
  | linked m b s is cs =>
    pure (is.map fun (c, d) => ⟨c, Code.ofCovered d (inflate (linked m b s is cs))⟩)
  | filtered _ b _ | ordered _ b _ _ _ => baseJoints b
termination_by s => s.weight
decreasing_by
  all_goals simp only [weight]
  all_goals first
    | omega
    | have := weight_groundOf_le b s
      omega
    | have := weight_monikerGround_le b s
      omega
    | have hf := lighter_family b
      rw [‹b.family = _›] at hf
      simp only [lighter] at hf
      omega

end

def selfJoints (s : Space) : Result (List Joint) := do
  return (← s.keyUnits).map fun u => ⟨u, u⟩

def exports : Space → Result (List Code)
  | root _ | scalar _ _ => pure []
  | table m b t => pure (t.columns.map fun c => Code.ofColumn c (table m b t) m)
  | fiber m b j => pure (j.target.columns.map fun c => Code.ofColumn c (fiber m b j) m)
  | quotient m b s ks cs => do
    let joints ← baseJoints (groundOf b s)
    return (joints.map (·.right) ++ ks).map (Code.ofKernel · (quotient m b s ks cs))
  | complement m b cs =>
    match _ : b.family with
    | .quotient s _ _ _ => do return (← exports s.inflate).map (·.withSpace (complement m b cs))
    | _ => pure []
  | moniker m b s cs => do return (← exports s.inflate).map (·.withSpace (moniker m b s cs))
  | forked m b s ks cs => do return (← exports s.inflate).map (·.withSpace (forked m b s ks cs))
  | linked m b s is cs => do return (← exports s.inflate).map (·.withSpace (linked m b s is cs))
  | filtered m b f => do return (← exports b).map (·.withSpace (filtered m b f))
  | ordered m b os l o => do return (← exports b).map (·.withSpace (ordered m b os l o))
termination_by s => s.weight
decreasing_by
  all_goals simp only [weight]
  all_goals first
    | omega
    | have := weight_inflate_le s
      first
        | omega
        | have hf := lighter_family b
          rw [‹b.family = _›] at hf
          simp only [lighter] at hf
          omega

end Space

end NavQuery
