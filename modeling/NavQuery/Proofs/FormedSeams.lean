import NavQuery.Proofs.FormedSegments
import NavQuery.Proofs.UnmarkedSeams

/-!
The units that identify and join the rows of a formed space are formed, and so is the order of its rows.
-/

namespace NavQuery

open List

variable {items is : List OrderItem} {seed ground space : Space}

lemma Code.isProper_withSpace (s : Space) (c : Code) : (c.withSpace s).isProper = c.isProper := by
  cases c <;> rfl

lemma Space.mem_of_mem_distinctItems {i : OrderItem}
    (h : i ∈ distinctItems items) : i ∈ items :=
  (foldl_keep (fun j i : OrderItem => j.1 == i.1) items []).1 h

variable [Discipline.Lenient]

namespace Code

def Flat (c : Code) : Prop := c.Formed ∧ c.isProper = true

variable {s : Space} {c : Code}

lemma flat_ofColumn (c : Column) (hs : s.Formed) (m : Mark) : (ofColumn c s m).Flat :=
  ⟨.column hs, decide_eq_true rfl⟩

lemma Formed.flat_ofKernel (hc : c.Formed) (hs : s.Formed) : (ofKernel c s).Flat := ⟨.kernel hc hs, rfl⟩

lemma Formed.flat_ofCovered (hc : c.Formed) (hs : s.Formed) :
    (ofCovered c s).Flat := ⟨.covering hc hs, rfl⟩

lemma Formed.withSpace (hc : c.Formed) (hs : s.Formed) : (c.withSpace s).Formed := by
  have hcode := hc
  cases hc with
  | column _ => exact .column hs
  | single hc _ hcs => exact .single hc hs hcs
  | aggregate hc hp _ hcs => exact .aggregate hc hp hs hcs
  | correlated hc hp _ => exact .correlated hc hp hs
  | kernel hc _ => exact .kernel hc hs
  | covering hc _ => exact .covering hc hs
  | _ => exact hcode

lemma Flat.withSpace (hc : c.Flat) (hs : s.Formed) : (c.withSpace s).Flat :=
  ⟨hc.1.withSpace hs, (isProper_withSpace s c).trans hc.2⟩

end Code

structure Joint.Formed (j : Joint) : Prop where
  left : j.left.Formed
  right : j.right.Flat

lemma Joint.Formed.right_of_mem {js : List Joint} (h : ∀ j ∈ js, j.Formed) :
    ∀ c ∈ js.map (·.right), c.Formed := forall_mem_map.2 fun j hj => (h j hj).right.1

lemma Joint.Formed.right_append {js : List Joint} {ks : List Code} (h : ∀ j ∈ js, j.Formed)
    (hks : ∀ k ∈ ks, k.Formed) : ∀ c ∈ js.map (·.right) ++ ks, c.Formed :=
  forall_mem_append.2 ⟨right_of_mem h, hks⟩

lemma Joint.Formed.covered {js : List Joint} {s : Space} (h : ∀ j ∈ js, j.Formed) (hs : s.Formed) :
    ∀ j ∈ js.map fun j => (⟨j.left, .ofCovered j.right s⟩ : Joint), j.Formed :=
  forall_mem_map.2 fun j hj => ⟨(h j hj).left, (h j hj).right.1.flat_ofCovered hs⟩

lemma Joint.Formed.kernel {js : List Joint} {s : Space} (h : ∀ j ∈ js, j.Formed) (hs : s.Formed) :
    ∀ j ∈ js.map fun j => (⟨j.left, .ofKernel j.right s⟩ : Joint), j.Formed :=
  forall_mem_map.2 fun j hj => ⟨(h j hj).left, (h j hj).right.1.flat_ofKernel hs⟩

namespace Space

variable {s : Space}

lemma Formed.inflatedAncestor (h : s.Formed) : s.inflatedAncestor.Formed := by
  unfold Space.inflatedAncestor
  cases hf : s.ancestors.find? (·.isInflated) with
  | none => exact h
  | some a => exact h.of_mem_ancestors (mem_of_find?_eq_some hf)

lemma Formed.ite {p : Bool} {t : Space} (hs : s.Formed) (ht : t.Formed) : (if p then t else s).Formed := by
  split
  · exact ht
  · exact hs

lemma Formed.base_getD (h : s.Formed) : (s.base?.getD s).Formed := by
  cases hb : s.base? with
  | none => exact h
  | some b => exact h.of_base hb

lemma Formed.shootBaseline (h : s.Formed) (trunk : Space) : (s.shootBaseline trunk).Formed := by
  have hi := h.inflatedAncestor
  unfold Space.shootBaseline
  dsimp only
  split
  · exact hi
  · cases hf : firstShootAxis trunk s.inflatedAncestor.ancestors with
    | none => exact hi
    | some a => exact hi.of_mem_ancestors (firstShootAxis_mem hf)

lemma Formed.of_mem_pluralAxes {axis : Space} (h : seed.Formed)
    (ha : axis ∈ pluralAxes seed ground) : axis.Formed :=
  h.inflate.of_mem_ancestors ((takeWhile_sublist _).mem (mem_reverse.1 (mem_filter.1 ha).1))

lemma ensures_tableKey (t : Table) (hs : s.Formed) (m : Mark) :
    Ensures (fun us => ∀ u ∈ us, u.Flat) (tableKey t s m) := by
  unfold tableKey
  dsimp only
  split
  · exact .query _ _
  · exact .pure (forall_mem_map.2 fun c _ => Code.flat_ofColumn c hs m)

lemma Formed.covered? (h : s.Formed) (hc : s.covered? = some (seed, ground)) : seed.Formed := by
  cases h with
  | complement hb _ =>
    rw [Space.covered?] at hc
    split at hc <;> cases hc
    next hf => exact (hb.of_family hf).1
  | moniker _ hs _ | forked _ hs _ _ | linked _ hs _ _ _ => cases hc; exact hs
  | _ => cases hc

lemma Formed.coveredUnits (h : s.Formed) (hk : ∀ axis, axis.weight < s.weight → axis.Formed →
      Ensures (fun us => ∀ u ∈ us, u.Flat) (keyUnits axis)) :
    Ensures (fun us => ∀ u ∈ us, u.Flat) s.coveredUnits := by
  unfold Space.coveredUnits
  split
  next seed ground hc =>
    refine (Ensures.mapM fun axis ha => hk axis
      (Nat.lt_of_le_of_lt (weight_pluralAxis_le ha) (weight_covered? hc))
      ((h.covered? hc).of_mem_pluralAxes ha)).bind fun uss huss => .pure fun u hu => ?_
    obtain ⟨k, hk, rfl⟩ := mem_map.1 hu
    obtain ⟨us, hus, hk⟩ := mem_flatten.1 hk
    exact (huss us hus k hk).1.flat_ofCovered h.inflate
  next => exact .pure (forall_mem_nil _)

mutual

lemma Formed.keyUnits {s : Space} (h : s.Formed) : Ensures (fun us => ∀ u ∈ us, u.Flat) s.keyUnits := by
  have hs := h
  cases h with
  | root | scalar _ =>
    rw [Space.keyUnits]
    exact .pure nofun
  | table _ | fiber _ =>
    rw [Space.keyUnits]
    exact ensures_tableKey _ hs.inflate _
  | @quotient m b seed ks cs hb hseed hks hcs =>
    have hlt := weight_groundOf_le b seed
    rw [Space.keyUnits]
    refine (hseed.groundOf b).baseJoints.bind fun js hjs => .pure (forall_mem_map.2 fun k hk => ?_)
    exact (Joint.Formed.right_append hjs hks k hk).flat_ofKernel hs.inflate
  | complement | moniker | forked | linked =>
    rw [keyUnits_of_isCovering rfl]
    exact hs.coveredUnits fun axis hlt ha => ha.keyUnits
  | filtered hb _ | ordered hb _ =>
    rw [Space.keyUnits]
    exact hb.keyUnits
termination_by s.weight
decreasing_by all_goals first | assumption | (simp only [weight]; omega)

lemma Formed.baseJoints {s : Space} (h : s.Formed) :
    Ensures (fun js => ∀ j ∈ js, j.Formed) s.baseJoints := by
  have hs := h
  cases h with
  | root | scalar _ | table _ =>
    rw [Space.baseJoints]
    exact .pure nofun
  | fiber hb =>
    rw [Space.baseJoints]
    refine .pure (forall_mem_map.2 fun ⟨o, t⟩ _ => ?_)
    exact ⟨(Code.flat_ofColumn o hb.inflate _).1, Code.flat_ofColumn t hs.inflate _⟩
  | @quotient m b seed ks cs hb hseed hks hcs =>
    have hlt := weight_groundOf_le b seed
    rw [Space.baseJoints]
    exact (hseed.groundOf b).baseJoints.bind fun js hjs => .pure (Joint.Formed.kernel hjs hs.inflate)
  | @complement m b cs hb hcs =>
    rw [baseJoints_complement]
    cases hf : b.family with
    | scalar | table _ => exact .pure nofun
    | quotient seed g ks f =>
      have hlt := weight_lt_of_family hf
      obtain ⟨_, hg, hks⟩ := hb.of_family hf
      refine hg.baseJoints.bind fun js hjs => .pure (forall_mem_map.2 fun c hc => ?_)
      have hc := Joint.Formed.right_append hjs hks c hc
      exact ⟨(hc.flat_ofKernel hb.inflate).1, hc.flat_ofCovered hs.inflate⟩
  | @moniker m b seed cs hb hseed hcs =>
    have hlt := weight_monikerGround_le b seed
    have hg := hseed.monikerGround b
    rw [Space.baseJoints]
    split
    · refine hg.keyUnits.bind fun us hus => .pure (Joint.Formed.covered ?_ hs.inflate)
      exact forall_mem_map.2 fun u hu => ⟨(hus u hu).1, hus u hu⟩
    · exact hg.baseJoints.bind fun js hjs => .pure (Joint.Formed.covered hjs hs.inflate)
  | forked hb hseed hks hcs =>
    rw [Space.baseJoints]
    refine hseed.baseJoints.bind fun js hjs => .pure (forall_mem_map.2 fun c hc => ?_)
    have hc := Joint.Formed.right_append hjs hks c hc
    exact ⟨hc, hc.flat_ofCovered hs.inflate⟩
  | linked hb hseed hl hr hcs =>
    rw [Space.baseJoints]
    refine .pure (forall_mem_map.2 fun ⟨c, d⟩ hi => ?_)
    have hd : d.Formed := hr _ hi
    exact ⟨hl _ hi, hd.flat_ofCovered hs.inflate⟩
  | filtered hb _ | ordered hb _ =>
    rw [Space.baseJoints]
    exact hb.baseJoints
termination_by s.weight
decreasing_by all_goals (simp only [weight]; omega)

end

lemma Formed.selfJoints (h : s.Formed) : Ensures (fun js => ∀ j ∈ js, j.Formed) s.selfJoints := by
  exact h.keyUnits.bind fun us hus => .pure (forall_mem_map.2 fun u hu => ⟨(hus u hu).1, hus u hu⟩)

lemma Formed.withSpace_all (h : s.Formed) {us : List Code} (hus : ∀ u ∈ us, u.Flat) :
    ∀ u ∈ us.map (·.withSpace s), u.Flat := forall_mem_map.2 fun k hk => (hus k hk).withSpace h

lemma Formed.exports {s : Space} (h : s.Formed) : Ensures (fun us => ∀ u ∈ us, u.Flat) s.exports := by
  have hs := h
  cases h with
  | root | scalar _ =>
    rw [Space.exports]
    exact .pure nofun
  | table _ | fiber _ =>
    rw [Space.exports]
    exact .pure (forall_mem_map.2 fun c _ => Code.flat_ofColumn c hs _)
  | @quotient m b seed ks cs hb hseed hks hcs =>
    rw [Space.exports]
    refine (hseed.groundOf b).baseJoints.bind fun js hjs => .pure (forall_mem_map.2 fun k hk => ?_)
    exact (Joint.Formed.right_append hjs hks k hk).flat_ofKernel hs
  | complement | moniker | forked | linked =>
    rw [exports_of_isCovering rfl, coveredExports]
    split
    next seed _ hc =>
      have hlt := Nat.lt_of_le_of_lt (weight_inflate_le seed) (weight_covered? hc)
      exact (hs.covered? hc).inflate.exports.bind fun us hus => .pure (hs.withSpace_all hus)
    next => exact .pure nofun
  | filtered hb _ | ordered hb _ =>
    rw [Space.exports]
    exact hb.exports.bind fun us hus => .pure (hs.withSpace_all hus)
termination_by s.weight
decreasing_by all_goals first | assumption | (simp only [weight]; omega)

abbrev FormedItems (items : List OrderItem) : Prop := ∀ i ∈ items, i.1.Formed

section Arrangement

lemma FormedItems.append {js : List OrderItem} (hi : FormedItems is) (hj : FormedItems js) :
    FormedItems (is ++ js) := forall_mem_append.2 ⟨hi, hj⟩

lemma FormedItems.ite {p : Bool} (h : FormedItems is) :
    FormedItems (if p then is else []) := by
  split
  · exact h
  · exact nofun

variable {s : Space}

lemma Formed.rowItems (h : s.Formed) (weak : Bool) (t : Table) {base : List OrderItem}
    (hb : FormedItems base) : FormedItems (Space.rowItems weak t s base) := by
  exact hb.append (.ite (forall_mem_map.2 fun c _ => (Code.flat_ofColumn c h.inflate _).1))

lemma Formed.seedItems (h : s.Formed) (weak : Bool) (ground : Space)
    (hi : FormedItems items) :
    FormedItems (Space.seedItems weak s ground items) := by
  refine .ite (forall_mem_map.2 fun j hj => ?_)
  have hj := hi j (mem_of_mem_distinctItems (mem_of_mem_filter hj))
  exact (hj.flat_ofCovered h.inflate).1

lemma Formed.arrangeItems (strong weak : Bool) {s : Space} (h : s.Formed) :
    FormedItems (Space.arrangeItems strong weak s) := by
  have hs := h
  cases h with
  | root =>
    rw [Space.arrangeItems]
    exact nofun
  | scalar hb | filtered hb _ =>
    rw [Space.arrangeItems]
    exact hb.arrangeItems strong weak
  | table hb | fiber hb =>
    rw [Space.arrangeItems]
    exact hs.rowItems _ _ (hb.arrangeItems strong weak)
  | quotient hb hseed hks hcs =>
    rw [Space.arrangeItems]
    refine (hb.arrangeItems strong weak).append (.ite (forall_mem_map.2 fun k hk => ?_))
    exact ((hks k hk).flat_ofKernel hs.inflate).1
  | complement hb | moniker hb | forked hb | linked hb =>
    rw [arrangeItems_of_isCovering strong weak rfl rfl]
    refine (hb.arrangeItems strong weak).append ?_
    unfold coveredItems
    split
    next seed _ hc =>
      have hlt := weight_covered? hc
      exact hs.seedItems _ _ ((hs.covered? hc).arrangeItems true true)
    next => exact nofun
  | ordered hb hos =>
    rw [Space.arrangeItems]
    exact (FormedItems.ite ((hb.arrangeItems true false).append hos)).append
      (FormedItems.ite (hb.arrangeItems false true))
termination_by s.weight
decreasing_by all_goals first | assumption | (simp only [weight]; omega)

lemma Formed.arrange (h : s.Formed) (strong weak : Bool) : FormedItems (s.arrange strong weak) := by
  rw [arrange_eq]
  exact fun i hi => h.arrangeItems strong weak i (mem_of_mem_distinctItems hi)

end Arrangement

section Glue

lemma formed_shortcut {trunk shoot : List Joint} (ht : ∀ j ∈ trunk, j.Formed)
    (hs : ∀ j ∈ shoot, j.Formed) : ∀ j ∈ shortcut trunk shoot, j.Formed := by
  unfold shortcut
  split
  · intro j hj
    obtain ⟨⟨a, b⟩, hab, rfl⟩ := mem_map.1 hj
    obtain ⟨ha, hb⟩ := of_mem_zip hab
    exact ⟨(ht a ha).right.1, (hs b hb).right⟩
  · exact hs

lemma Formed.glue {baseline shoot shootBaseline : Space} (hs : space.Formed)
    (hb : baseline.Formed) (hsb : shootBaseline.Formed) :
    Ensures (fun js => ∀ j ∈ js, j.Formed) (space.glue baseline shoot shootBaseline) := by
  unfold Space.glue
  dsimp only
  split
  · refine Ensures.bind (P := fun jss => ∀ js ∈ jss, ∀ j ∈ js, Joint.Formed j)
      (Ensures.mapM fun axis ha => ?_) fun jss hjss => .pure fun j hj => ?_
    · unfold commonAxes at ha
      split at ha
      · exact absurd ha not_mem_nil
      next a hfind =>
        have ha := (takeWhile_sublist _).mem (mem_of_mem_filter (mem_reverse.1 ha))
        exact ((hs.inflate.of_mem_ancestors (mem_of_find?_eq_some hfind)).of_mem_ancestors ha).selfJoints
    · obtain ⟨js, hjs, hj⟩ := mem_flatten.1 hj
      exact hjss js hjs j hj
  · refine hsb.baseJoints.bind fun js hjs => ?_
    split
    · exact hjs
    · split
      · exact hjs
      next axis hfind =>
        have haxis := hb.of_mem_ancestors (mem_of_find?_eq_some hfind)
        exact haxis.baseJoints.bind fun ks hks => .pure (formed_shortcut hks hjs)

end Glue

end Space

end NavQuery
