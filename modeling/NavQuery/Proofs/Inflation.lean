import NavQuery.Proofs.PrunedSteps
import NavQuery.Proofs.Seams

/-!
A space is inflated by leaving out the steps that are no axes. The axes are put on other bases, which they
fit because the inflated base stands for the old one.
-/

namespace NavQuery

open List

namespace Space

variable {s b : Space}

lemma standsFor_axesOnly (s : Space) : s.axesOnly.StandsFor s := by
  induction s using baseInduction with
  | root m => exact .refl _
  | step s b hb ih =>
    cases haxis : s.isAxis with
    | true => exact axesOnly_of_axis hb haxis ▸ ih.withBase hb
    | false => exact axesOnly_of_not_axis hb haxis ▸ ih.of_dropped hb haxis

/-- Inflating step by step: an axis is put on the inflated base and has to fit. -/
def inflateStepwise (s : Space) : Result Space :=
  if s.isInflated then pure s
  else
    match _ : s.base? with
    | none => pure s
    | some b => do
      let base ← b.inflateStepwise
      if s.isAxis then s.rebase (some base) else pure base
termination_by s.weight
decreasing_by exact weight_base_lt ‹_›

lemma inflateStepwise_eq (s : Space) (hcheck : ∀ a ∈ s.ancestors, a.check = .ok ()) :
    s.inflateStepwise = .ok s.axesOnly := by
  induction s using baseInduction with
  | root m => rw [inflateStepwise]; rfl
  | step s b hb ih =>
    rw [ancestors_eq_cons hb, forall_mem_cons] at hcheck
    rw [inflateStepwise]
    split
    next h => rw [axesOnly_of_isInflated h]; rfl
    next =>
      split
      next h => cases hb.symm.trans h
      next c hc =>
        cases hb.symm.trans hc
        rw [ih hcheck.2, ok_bind]
        cases haxis : s.isAxis with
        | true => rw [if_pos rfl, (standsFor_axesOnly b).rebase hb hcheck.1, axesOnly_of_axis hb haxis]
        | false => rw [if_neg Bool.false_ne_true, axesOnly_of_not_axis hb haxis]; rfl

lemma check_of_mem_axesOnly (s : Space) (hcheck : ∀ a ∈ s.ancestors, a.check = .ok ()) :
    ∀ a ∈ s.axesOnly.ancestors, a.check = .ok () := by
  induction s using baseInduction with
  | root m => exact hcheck
  | step s b hb ih =>
    rw [ancestors_eq_cons hb, forall_mem_cons] at hcheck
    cases haxis : s.isAxis with
    | true =>
      rw [axesOnly_of_axis hb haxis, ancestors_eq_cons (base?_withBase (by rw [hb]; rfl) _)]
      exact forall_mem_cons.2 ⟨(standsFor_axesOnly b).check_withBase hb ▸ hcheck.1, ih hcheck.2⟩
    | false => exact axesOnly_of_not_axis hb haxis ▸ ih hcheck.2

lemma axisSteps_eq_map_line (s : Space) : s.axisSteps = (s.line.filter (·.isAxis)).map ownStep := by
  rw [axisSteps, path_eq_map_line, filter_map]
  rfl

lemma isAxis_of_mem_line_axesOnly (s : Space) : ∀ a ∈ s.axesOnly.line, a.isAxis = true := fun a ha =>
  all_eq_true.1 s.isInflated_axesOnly a (mem_reverse.1 ha)

lemma resembles_line_axesOnly (s : Space) :
    Forall₂ (fun x y => x.resembles y) s.axesOnly.line (s.line.filter (·.isAxis)) := by
  have halong := (standsFor_axesOnly s).axes.symm
  rw [axisSteps_eq_map_line, axisSteps_eq_map_line, filter_eq_self.2 s.isAxis_of_mem_line_axesOnly] at halong
  exact forall₂_map_right_iff.1 (forall₂_map_left_iff.1 halong)

lemma isContracting_of_not_axis (h : s.isAxis = false) : s.isContracting := by
  cases s <;> cases h <;> simp [isContracting, path_eq, trail]

/-- Axes dominate whatever has the same axes, with steps between them that only drop or sort rows. -/
theorem dominatesSteps_of_alongside {ps qs : List Step} (hps : ∀ p ∈ ps, p.axis)
    (hqs : ∀ q ∈ qs, q.axis = false → q.contracting) (h : Alongside ps (qs.filter (·.axis))) :
    dominatesSteps ps qs := by
  fun_induction dominatesSteps ps qs with
  | case1 p ps q qs hpq ih =>
    rw [forall_mem_cons] at hps hqs
    have haxis : p.axis = q.axis := isAxis_of_resembles hpq
    rw [filter_cons_of_pos (haxis ▸ hps.1)] at h
    cases h with
    | cons _ h => exact ih hps.2 hqs.2 h
  | case2 p ps q qs hpq hdrop ih =>
    have hq : q.axis = false := by simpa using (Bool.and_eq_true_iff.1 hdrop).1
    rw [filter_cons_of_neg (by simp [hq])] at h
    exact ih hps (forall_mem_cons.1 hqs).2 h
  | case3 p ps q qs hpq hdrop =>
    -- A step that is not left out is an axis, and so it resembles the axis beside it.
    have hq : q.axis := by
      by_contra hq
      exact hdrop (by simp [hq, hqs q mem_cons_self (by simpa using hq)])
    rw [filter_cons_of_pos hq] at h
    cases h with
    | cons h _ => exact absurd h hpq
  | case4 ps qs hne =>
    cases ps with
    | nil =>
      have hnone : ∀ q ∈ qs, ¬ q.axis := filter_eq_nil_iff.1 (forall₂_nil_left_iff.1 h)
      exact all_eq_true.2 fun q hq => hqs q hq (by simpa using hnone q hq)
    | cons p ps =>
      cases qs with
      | nil => cases h
      | cons q qs => exact (hne p ps q qs rfl rfl).elim

lemma axesOnly_dominates (s : Space) : s.axesOnly.dominates s := by
  have haxes : ∀ p ∈ s.axesOnly.path, p.axis := by
    rw [path_eq_map_line]
    exact forall_mem_map.2 s.isAxis_of_mem_line_axesOnly
  have halong := (standsFor_axesOnly s).axes.symm
  rw [axisSteps, filter_eq_self.2 haxes] at halong
  refine dominatesSteps_of_alongside haxes ?_ halong
  rw [path_eq_map_line s]
  exact forall_mem_map.2 fun x _ => isContracting_of_not_axis

/-- Inflating is total on spaces whose steps fit, keeps the axes and what they say of spanning, and does
nothing more the second time. -/
theorem inflate_isClosure (s : Space) (hcheck : ∀ a ∈ s.ancestors, a.check = .ok ()) :
    s.inflateStepwise = .ok s.inflate ∧ (∀ a ∈ s.inflate.ancestors, a.check = .ok ()) ∧
      s.inflate.isInflated = true ∧
      Forall₂ (fun x y => x.resembles y = true) s.inflate.line (s.line.filter (·.isAxis)) ∧
      (s.inflate.inflate == s.inflate) = true ∧
      s.inflate.spans s = true ∧ s.spans s.inflate = true ∧ s.inflate.dominates s = true ∧
      ∀ t u : Space, t.spans u = t.inflate.spans u.inflate := by
  simp only [inflate_eq]
  have hstands := s.standsFor_axesOnly
  refine ⟨s.inflateStepwise_eq hcheck, s.check_of_mem_axesOnly hcheck, s.isInflated_axesOnly,
    s.resembles_line_axesOnly, ?_, spans_of_alongside hstands.axes.symm, spans_of_alongside hstands.axes,
    s.axesOnly_dominates, fun t u => ?_⟩
  · rw [axesOnly_of_isInflated s.isInflated_axesOnly]
    exact BEq.rfl
  · rw [t.standsFor_axesOnly.spans_left, u.standsFor_axesOnly.spans_right]

/-- The departments behind the first group of open departments, which are grouped behind a filtered root. -/
theorem inflate_isClosure_grouped :
    let top : Space := .filtered .nowhere (.root .nowhere) (.literal .nowhere .boolean (.boolean true))
    let groups : Space := .quotient .nowhere top Sample.openDepartments
      [.column .nowhere .boolean Sample.isOpen Sample.departments] []
    let s : Space := .ordered .nowhere (.complement .nowhere (.ordered .nowhere groups [] (some 1) none) []) [] none none
    (∀ a ∈ s.ancestors, a.check = .ok ()) ∧ s.inflateStepwise = .ok s.inflate ∧
      s.inflate.line.length = 3 ∧ s.inflate.dominates s = true := by
  intro top groups s
  have hcheck : ∀ a ∈ s.ancestors, a.check = .ok () := by
    have hseed : (Sample.openDepartments.spans top && !top.spans Sample.openDepartments) = true := by
      simp only [top, spans, path_eq]
      decide
    have hgroups : groups.check = .ok () := by
      rw [check, hseed]
      rfl
    simp only [s, groups, top, ancestors, forall_mem_cons]
    exact ⟨rfl, by simp [check, family, Family.isQuotient, ensure], rfl, hgroups, rfl, rfl, forall_mem_nil _⟩
  obtain ⟨hwalk, -, -, -, -, -, -, hdominates, -⟩ := inflate_isClosure s hcheck
  exact ⟨hcheck, hwalk, rfl, hdominates⟩

end Space

end NavQuery
