import NavQuery.Proofs.Unmarked
import NavQuery.Space.Family

/-!
Each function of a space that follows paths commutes with `unmarked`, so it takes spaces that are the same
to results that are the same.
-/

namespace NavQuery

open List

namespace Space

lemma isAxis_unmarked (s : Space) : s.unmarked.isAxis = s.isAxis := by
  cases s <;> simp [unmarked, isAxis]

lemma isRoot_unmarked (s : Space) : s.unmarked.isRoot = s.isRoot := by
  cases s <;> simp [unmarked, isRoot]

lemma isCommutative_unmarked (s : Space) : s.unmarked.isCommutative = s.isCommutative := by
  cases s <;> simp [unmarked, isCommutative]

lemma ancestors_unmarked : ∀ s : Space, s.unmarked.ancestors = s.ancestors.map unmarked
  | .root _ => by simp [unmarked, ancestors]
  | .scalar _ b | .table _ b _ | .fiber _ b _ | .quotient _ b _ _ _ | .complement _ b _
  | .moniker _ b _ _ | .forked _ b _ _ _ | .linked _ b _ _ _ | .filtered _ b _
  | .ordered _ b _ _ _ => by simp [unmarked, ancestors, ancestors_unmarked b]

lemma isInflated_unmarked (s : Space) : s.unmarked.isInflated = s.isInflated := by
  simp [isInflated, ancestors_unmarked, isAxis_unmarked, Function.comp_def]

variable {s t : Space}

lemma isInflated_of_beq (h : (s == t)) : s.isInflated = t.isInflated := by
  rw [← isInflated_unmarked s, beq_iff_unmarked.1 h, isInflated_unmarked]

lemma beq_unmarked (a b : Space) : (a.unmarked == b.unmarked) = (a == b) := by
  rw [Bool.eq_iff_iff, beq_iff_unmarked, beq_iff_unmarked, unmarked_unmarked, unmarked_unmarked]

def bare (s : Space) : Space := s.unmarked.withBase (root .nowhere)

lemma bare_unmarked (s : Space) : s.unmarked.bare = s.bare := by
  rw [bare, unmarked_unmarked, bare]

lemma resembles_iff_bare : s.resembles t ↔ s.bare = t.bare := by
  cases s <;> cases t <;>
    simp [resembles, bare, unmarked, withBase, beq_iff_unmarked, Code.beq_iff_unmarked,
      Code.sameAll_iff_unmarked, Code.sameImages_iff_unmarked, Code.sameOrder_iff_unmarked]
  exact and_comm

lemma resembles_refl (s : Space) : s.resembles s := resembles_iff_bare.2 rfl

lemma resembles_unmarked (s t : Space) : s.unmarked.resembles t.unmarked = s.resembles t := by
  rw [Bool.eq_iff_iff, resembles_iff_bare, resembles_iff_bare, bare_unmarked, bare_unmarked]

lemma isAxis_of_resembles (h : s.resembles t) : s.isAxis = t.isAxis := by
  cases s <;> cases t <;> simp [resembles] at h <;> rfl

namespace Step

def unmarked (p : Step) : Step := { p with space := p.space.unmarked }

@[simp] lemma contracting_unmarked (p : Step) : p.unmarked.contracting = p.contracting := rfl

@[simp] lemma expanding_unmarked (p : Step) : p.unmarked.expanding = p.expanding := rfl

@[simp] lemma axis_unmarked (p : Step) : p.unmarked.axis = p.axis := isAxis_unmarked p.space

@[simp] lemma resembles_unmarked (p q : Step) : p.unmarked.resembles q.unmarked = p.resembles q :=
  Space.resembles_unmarked p.space q.space

end Step

lemma filter_axis_unmarked (ps : List Step) :
    (ps.map Step.unmarked).filter (·.axis) = (ps.filter (·.axis)).map Step.unmarked := by
  simp [filter_map, Function.comp_def]

lemma spansAxes_unmarked (ps qs : List Step) :
    spansAxes (ps.map Step.unmarked) (qs.map Step.unmarked) = spansAxes ps qs := by
  induction ps generalizing qs with
  | nil => simp [spansAxes, Function.comp_def]
  | cons p ps ih => cases qs <;> simp [spansAxes, ih, Function.comp_def]

lemma spansSteps_unmarked (ps qs : List Step) :
    spansSteps (ps.map Step.unmarked) (qs.map Step.unmarked) = spansSteps ps qs := by
  rw [spansSteps, filter_axis_unmarked, filter_axis_unmarked, spansAxes_unmarked, spansSteps]

lemma dominatesSteps_unmarked (ps qs : List Step) :
    dominatesSteps (ps.map Step.unmarked) (qs.map Step.unmarked) = dominatesSteps ps qs := by
  fun_induction dominatesSteps ps qs with
  | case1 _ _ _ _ _ _ | case2 _ _ _ _ _ _ _ => simp_all [dominatesSteps]
  | case3 p ps q qs h hdrop => simp_all [dominatesSteps, Function.comp_def]
  | case4 ps qs h =>
    cases ps with
    | nil => simp [dominatesSteps, Function.comp_def]
    | cons p ps =>
      cases qs with
      | nil => simp [dominatesSteps, Function.comp_def]
      | cons q qs => exact (h p ps q qs rfl rfl).elim

lemma lastAxisContracting_unmarked (ps : List Step) :
    lastAxisContracting (ps.map Step.unmarked) = lastAxisContracting ps := by
  rw [lastAxisContracting, filter_axis_unmarked, getLast?_map, lastAxisContracting]
  cases (ps.filter (·.axis)).getLast? <;> rfl

lemma trail_unmarked : ∀ s : Space, s.unmarked.trail = s.trail.map Step.unmarked
  | root _ => by simp [unmarked, trail, Step.unmarked]
  | scalar _ b | table _ b _ | fiber _ b _ | complement _ b _ | filtered _ b _ | linked _ b _ _ _
  | ordered _ b _ _ _ => by simp [unmarked, trail, Step.unmarked, trail_unmarked b]
  | quotient _ b s ks _ => by
    cases ks <;>
      simp [unmarked, trail, Step.unmarked, trail_unmarked b, isRoot_unmarked, Code.unmarkedAll]
  | moniker _ b s _ => by
    simp [unmarked, trail, trail.monikerStep, Step.unmarked, trail_unmarked b, trail_unmarked s,
      spansSteps_unmarked, dominatesSteps_unmarked, ← map_reverse]
  | forked _ b s ks _ => by
    cases ks <;>
      simp [unmarked, trail, trail.forkedStep, Step.unmarked, trail_unmarked b, trail_unmarked s,
        lastAxisContracting_unmarked, dominatesSteps_unmarked, ← map_reverse, Code.unmarkedAll]

lemma path_unmarked (s : Space) : s.unmarked.path = s.path.map Step.unmarked := by
  rw [path_eq, trail_unmarked, path_eq, map_reverse]

lemma spans_unmarked (s t : Space) : s.unmarked.spans t.unmarked = s.spans t := by
  rw [spans, path_unmarked, path_unmarked, spansSteps_unmarked, spans]

lemma spans_of_beq {u v : Space} (h : (s == t)) (k : (u == v)) : s.spans u = t.spans v := by
  rw [← spans_unmarked, beq_iff_unmarked.1 h, beq_iff_unmarked.1 k, spans_unmarked]

lemma dominates_unmarked (s t : Space) : s.unmarked.dominates t.unmarked = s.dominates t := by
  rw [dominates, path_unmarked, path_unmarked, dominatesSteps_unmarked, dominates]

lemma conforms_unmarked (s t : Space) : s.unmarked.conforms t.unmarked = s.conforms t := by
  rw [conforms, dominates_unmarked, dominates_unmarked, conforms]

lemma concludes_unmarked (s t : Space) : s.unmarked.concludes t.unmarked = s.concludes t := by
  simp only [concludes, ancestors_unmarked, any_map, Function.comp_def, beq_unmarked]

lemma isContracting_unmarked (s : Space) : s.unmarked.isContracting = s.isContracting := by
  simp [isContracting, path_unmarked, Option.any_map]

lemma isExpanding_unmarked (s : Space) : s.unmarked.isExpanding = s.isExpanding := by
  simp [isExpanding, path_unmarked, Option.any_map]

lemma axesOnly_unmarked : ∀ s : Space, s.unmarked.axesOnly = s.axesOnly.unmarked
  | root _ => by simp [unmarked, axesOnly]
  | scalar _ b | table _ b _ | fiber _ b _ | quotient _ b _ _ _ | complement _ b _ | moniker _ b _ _
  | forked _ b _ _ _ | linked _ b _ _ _ | filtered _ b _ | ordered _ b _ _ _ => by
    simp [unmarked, axesOnly, axesOnly_unmarked b]

lemma inflate_unmarked (s : Space) : s.unmarked.inflate = s.inflate.unmarked := by
  rw [inflate_eq, axesOnly_unmarked, inflate_eq]

section Pruning

lemma keepSteps_unmarked (ss : List Space) :
    pruneSteps.keepSteps (ss.map unmarked) = (pruneSteps.keepSteps ss).map (·.map unmarked) := by
  rw [pruneSteps.keepSteps, pruneSteps.keepSteps, all_map]
  simp only [Function.comp_def, isCommutative_unmarked]
  split <;> rfl

lemma pruneSteps_unmarked (ss ts : List Space) :
    pruneSteps (ss.map unmarked) (ts.map unmarked) = (pruneSteps ss ts).map (·.map unmarked) := by
  fun_induction pruneSteps ss ts with
  | case1 a as b bs hres hfree haxis ih | case5 a as b bs hres hb haxis hfree ih =>
    simp_all [pruneSteps, resembles_unmarked, isCommutative_unmarked, isAxis_unmarked, beq_unmarked,
      Function.comp_def]
  | case2 _ _ _ _ _ _ _ _ | case4 _ _ _ _ _ _ _ | case3 _ _ _ _ _ _ | case6 _ _ _ _ _ _ _ _ =>
    simp_all [pruneSteps, resembles_unmarked, isCommutative_unmarked, isAxis_unmarked, beq_unmarked]
  | case7 a as b bs hres hb haxis =>
    rw [← keepSteps_unmarked]
    simp_all [pruneSteps, resembles_unmarked, isAxis_unmarked]
  | case8 as =>
    rw [← keepSteps_unmarked]
    cases as <;> simp [pruneSteps]
  | case9 bs =>
    cases bs <;> simp [pruneSteps, pruneSteps.keepSteps]

lemma withBase_unmarked (s b : Space) : (s.withBase b).unmarked = s.unmarked.withBase b.unmarked := by
  cases s <;> simp [withBase, unmarked]

lemma chain_unmarked (s : Space) (ts : List Space) :
    (chain s ts).unmarked = chain s.unmarked (ts.map unmarked) := by
  induction ts generalizing s with
  | nil => rfl
  | cons t ts ih => rw [chain, ih, withBase_unmarked, map_cons, chain]

lemma line_unmarked (s : Space) : s.unmarked.line = s.line.map unmarked := by
  rw [line, ancestors_unmarked, line, map_reverse]

lemma prune_unmarked (s t : Space) : s.unmarked.prune t.unmarked = (s.prune t).unmarked := by
  rw [prune, pruneBy, prune, pruneBy, isInflated_unmarked, line_unmarked, line_unmarked,
    pruneSteps_unmarked]
  split
  · rfl
  · cases pruneSteps s.line t.line with
    | none => rfl
    | some rs =>
      cases rs with
      | nil => rfl
      | cons r rs => exact (chain_unmarked r rs).symm

end Pruning

section Grounds

lemma groundAbove_unmarked (base steps : List Step) :
    groundAbove (base.map Step.unmarked) (steps.map Step.unmarked) =
      (groundAbove base steps).map unmarked := by
  induction steps with
  | nil => rfl
  | cons p ps ih =>
    cases ps with
    | nil => rfl
    | cons q qs =>
      simp only [map_cons] at ih ⊢
      rw [groundAbove, groundAbove, ← map_cons, ← map_reverse, spansSteps_unmarked, map_cons, ih]
      split <;> rfl

lemma groundOf_unmarked (b s : Space) : groundOf b.unmarked s.unmarked = (groundOf b s).unmarked := by
  rw [groundOf, path_unmarked, path_unmarked, ← map_reverse, groundAbove_unmarked,
    Option.getD_map, groundOf]

lemma axesAbove_unmarked (s : Space) : s.unmarked.axesAbove = s.axesAbove.map Step.unmarked := by
  rw [axesAbove, path_unmarked, ← map_reverse, dropWhile_map, axesAbove]
  simp only [Function.comp_def, Step.axis_unmarked]

lemma lastAxis_unmarked (s : Space) : s.unmarked.lastAxis = s.lastAxis.unmarked := by
  rw [lastAxis, axesAbove_unmarked, lastAxis, head?_map]
  cases s.axesAbove.head? <;> rfl

lemma monikerGround_unmarked (b s : Space) :
    monikerGround b.unmarked s.unmarked = (monikerGround b s).unmarked := by
  rw [monikerGround, path_unmarked, axesAbove_unmarked, ← map_reverse, spansSteps_unmarked,
    lastAxis_unmarked, groundAbove_unmarked, Option.getD_map, monikerGround]
  split <;> rfl

end Grounds

end Space

namespace Family

def unmarked : Family → Family
  | scalar => scalar
  | table t => table t
  | quotient s g ks f => quotient s.unmarked g.unmarked (Code.unmarkedAll ks) f.unmarked

lemma inner_unmarked (f : Family) : f.unmarked.inner = f.inner.unmarked := by cases f <;> rfl

end Family

lemma Space.family_unmarked : ∀ s : Space, s.unmarked.family = s.family.unmarked
  | root _ | scalar _ _ | table _ _ _ | fiber _ _ _ => by simp [unmarked, family, Family.unmarked]
  | quotient _ b s _ _ => by
    simp [unmarked, family, Family.unmarked, groundOf_unmarked, family_unmarked s]
  | complement _ b _ => by simp [unmarked, family, family_unmarked b, Family.inner_unmarked]
  | moniker _ _ s _ | linked _ _ s _ _ => by simp [unmarked, family, family_unmarked s]
  | forked _ b _ _ _ | filtered _ b _ | ordered _ b _ _ _ => by
    simp [unmarked, family, family_unmarked b]

end NavQuery
