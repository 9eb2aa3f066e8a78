import NavQuery.Proofs.Outcomes
import NavQuery.Proofs.SpanningLaws

/-!
Up from a seed there is one step where the rows behind a row of the base start to be several: what a base spans
it spans up to the root, so that the spaces that it does not span are the last ones.
-/

namespace NavQuery.Space

open List

variable {b s t c : Space}

lemma groundOf_eq (hc : s.base? = some c) : groundOf b s = if b.spans c then s else groundOf b c := by
  obtain ⟨p, ps, hp⟩ : ∃ p ps, c.path.reverse = p :: ps := by
    cases c <;> exact ⟨_, _, by rw [path_eq, reverse_reverse, trail]⟩
  have hpath : c.path = (p :: ps).reverse := reverse_eq_iff.1 hp
  have hsome (ps : List Step) (p : Step) : (groundAbove b.path (p :: ps)).isSome := by
    induction ps generalizing p with
    | nil => rfl
    | cons q ps ih =>
      rw [groundAbove]
      split
      · rfl
      · exact ih q
  rw [groundOf, groundOf, path_eq_append hc, reverse_append, hp, spans, hpath]
  change (groundAbove b.path (s.ownStep :: p :: ps)).getD s = _
  rw [groundAbove]
  split
  · rfl
  · obtain ⟨g, hg⟩ := Option.isSome_iff_exists.1 (hsome ps p)
    rw [hg]
    rfl

lemma spans_root (b : Space) (m : Mark) : b.spans (root m) := by
  induction b using baseInduction with
  | root n =>
    exact spans_of_alongside (by simp [axisSteps, path_eq, trail, Step.axis, isAxis, Step.resembles, resembles])
  | step b c hc ih =>
    exact spans_trans (spans_of_mem_ancestors (ancestors_eq_cons hc ▸ mem_cons_of_mem b c.mem_ancestors_self)) ih

/-- A step of a chain that a base does not span, although it spans what the step is put on. -/
def IsSwitch (b t : Space) : Prop := b.spans t = false ∧ ∃ c, t.base? = some c ∧ b.spans c = true

lemma IsSwitch.isAxis (h : IsSwitch b t) : t.isAxis := by
  obtain ⟨ht, c, hc, hbc⟩ := h
  by_contra haxis
  rw [spans_eq, axisSteps_of_not_axis hc (Bool.eq_false_iff.2 haxis), ← spans_eq, hbc] at ht
  cases ht

/-- The walk up from the seed ends at the only switch. -/
lemma mem_ancestors_isSwitch_iff (s : Space) (h : b.spans s = false) :
    t ∈ s.ancestors ∧ IsSwitch b t ↔ t = groundOf b s := by
  induction s using baseInduction with
  | root m => exact absurd (spans_root b m) (Bool.eq_false_iff.1 h)
  | step s c hc ih =>
    rw [groundOf_eq hc, ancestors_eq_cons hc, mem_cons]
    split
    next hbc =>
      refine ⟨?_, by rintro rfl; exact ⟨.inl rfl, h, c, hc, hbc⟩⟩
      rintro ⟨rfl | ht, hswitch, -⟩
      · rfl
      · exact absurd (spans_trans hbc (spans_of_mem_ancestors ht)) (Bool.eq_false_iff.1 hswitch)
    next hbc =>
      rw [← ih (Bool.eq_false_iff.2 hbc)]
      refine and_congr_left fun ⟨_, d, hd, hbd⟩ => or_iff_right ?_
      rintro rfl
      cases hc.symm.trans hd
      exact hbc hbd

/-- The ground of a group or a link is the only step of the seed that the base does not span although it spans what
the step is put on. -/
theorem ground_isSwitch {p : Blueprint} {m : Mark} {b s x : Space}
    (hp : (∃ ks cs, p = .quotient (some s) ks cs) ∨ ∃ is cs, p = .linked (some s) is cs)
    (h : p.build m (some b) = .ok x) : ∃ g, x.ground? = some g ∧ g.isAxis = true ∧
      ∀ t, (t ∈ s.ancestors ∧ b.spans t = false ∧ ∃ c, t.base? = some c ∧ b.spans c = true) ↔ t = g := by
  have hseed {y : Space} {rule : Invariant}
      (hy : (do ensure (s.spans b && !b.spans s) rule; return y) = Except.ok x) : x = y ∧ b.spans s = false := by
    unfold ensure at hy
    split at hy
    next hspans =>
      cases hy
      exact ⟨rfl, by simpa using (Bool.and_eq_true_iff.1 hspans).2⟩
    next => cases hy
  have hground : x.ground? = some (groundOf b s) ∧ b.spans s = false := by
    obtain ⟨_, _, rfl⟩ | ⟨_, _, rfl⟩ := hp <;> obtain ⟨rfl, hs⟩ := hseed h <;> exact ⟨rfl, hs⟩
  have hiff (t : Space) := mem_ancestors_isSwitch_iff (t := t) s hground.2
  exact ⟨groundOf b s, hground.1, ((hiff _).2 rfl).2.isAxis, hiff⟩

/-- The ground of the open departments, grouped from the root, is their table. -/
theorem ground_isSwitch_departments : ∃ x, (Blueprint.quotient (some Sample.openDepartments) [.missing] []).build
    .nowhere (some (root .nowhere)) = .ok x ∧ x.ground? = some Sample.departments := by
  have hdown : (root .nowhere).spans Sample.openDepartments = false := by
    rw [spans, path_eq, path_eq]
    decide
  have hbuild : (Blueprint.quotient (some Sample.openDepartments) [.missing] []).build .nowhere
      (some (root .nowhere)) = .ok (quotient .nowhere (root .nowhere) Sample.openDepartments [.missing] []) := rfl
  obtain ⟨g, hg, -, hiff⟩ := ground_isSwitch (.inl ⟨_, _, rfl⟩) hbuild
  rw [(hiff Sample.departments).1 ⟨.tail _ (mem_ancestors_self _), hdown, root .nowhere, rfl, spans_refl _⟩]
  exact ⟨_, hbuild, hg⟩

end NavQuery.Space
