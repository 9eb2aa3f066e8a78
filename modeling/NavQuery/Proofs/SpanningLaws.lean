import Mathlib.Data.List.Forall2
import NavQuery.Proofs.Tuples
import NavQuery.Proofs.UnmarkedPaths
import NavQuery.Space.Weight

/-!
Whether an axis is contracting depends on the axes up to it only, up to resemblance, and so spanning is
transitive. Whatever a space dominates or concludes it spans.
-/

namespace NavQuery

open List

namespace Space

variable {s t : Space}

lemma resembles_symm (h : s.resembles t) : t.resembles s :=
  resembles_iff_bare.2 (resembles_iff_bare.1 h).symm

variable {u : Space}

lemma resembles_trans (h : s.resembles t) (k : t.resembles u) : s.resembles u :=
  resembles_iff_bare.2 ((resembles_iff_bare.1 h).trans (resembles_iff_bare.1 k))

abbrev Alongside (ps qs : List Step) : Prop := List.Forall₂ (fun p q => p.resembles q) ps qs

section Steps

variable {qs ps : List Step}

lemma spansAxes_of_contracting (ps : List Step) (h : ∀ q ∈ qs, q.contracting) : spansAxes ps qs := by
  induction ps generalizing qs with
  | nil => simpa [spansAxes] using h
  | cons p ps ih =>
    cases qs with
    | nil => rfl
    | cons q qs =>
      rw [spansAxes]
      split
      · exact ih fun r hr => h r (mem_cons_of_mem q hr)
      · exact all_eq_true.2 h

lemma spansAxes_of_alongside (h : Alongside ps qs) (rs : List Step) : spansAxes (ps ++ rs) qs := by
  induction h with
  | nil => exact spansAxes_of_contracting rs nofun
  | cons hpq _ ih => rw [cons_append, spansAxes, if_pos hpq, ih]

lemma spansAxes_congr (h : Alongside ps qs) (rs : List Step) : spansAxes ps rs = spansAxes qs rs := by
  induction h generalizing rs with
  | nil => rfl
  | @cons p q ps qs hpq _ ih =>
    cases rs with
    | nil => rfl
    | cons r rs =>
      have hpr : p.resembles r = q.resembles r := by
        rw [Bool.eq_iff_iff]
        exact ⟨resembles_trans (resembles_symm hpq), resembles_trans hpq⟩
      rw [spansAxes, spansAxes, hpr, ih]

/-- Along a common run of axes the same ones are contracting. -/
def Consistent (ps qs : List Step) : Prop :=
  ∀ ps' p qs' q, ps' ++ [p] <+: ps → qs' ++ [q] <+: qs → Alongside ps' qs' →
    p.resembles q → p.contracting = q.contracting

variable {q p : Step}

lemma Consistent.head (h : Consistent (p :: ps) (q :: qs))
    (hpq : p.resembles q) : p.contracting = q.contracting :=
  h [] p [] q (by simp) (by simp) .nil hpq

lemma Consistent.tail (h : Consistent (p :: ps) (q :: qs)) (hpq : p.resembles q) : Consistent ps qs := by
  intro ps' p' qs' q' hps hqs halong hres
  refine h (p :: ps') p' (q :: qs') q' ?_ ?_ (.cons hpq halong) hres
  · exact (prefix_cons_inj p).2 hps
  · exact (prefix_cons_inj q).2 hqs

lemma contracting_of_spansAxes (hc : Consistent ps qs)
    (hps : ∀ p ∈ ps, p.contracting) (h : spansAxes ps qs) :
    ∀ q ∈ qs, q.contracting := by
  induction ps generalizing qs with
  | nil => simpa [spansAxes] using h
  | cons p ps ih =>
    cases qs with
    | nil => exact forall_mem_nil _
    | cons q qs =>
      rw [spansAxes] at h
      split at h
      · rename_i hpq
        intro r hr
        obtain rfl | hr := mem_cons.1 hr
        · rw [← hc.head hpq]
          exact hps p mem_cons_self
        · exact ih (hc.tail hpq) (fun p' hp' => hps p' (mem_cons_of_mem p hp')) h r hr
      · exact all_eq_true.1 h

lemma spansAxes_trans {rs : List Step} (hc : Consistent qs rs) (h : spansAxes ps qs)
    (k : spansAxes qs rs) : spansAxes ps rs := by
  induction qs generalizing ps rs with
  | nil => exact spansAxes_of_contracting ps (by simpa [spansAxes] using k)
  | cons q qs ih =>
    cases ps with
    | nil =>
      have hqs : ∀ q' ∈ q :: qs, q'.contracting := by simpa [spansAxes] using h
      exact spansAxes_of_contracting [] (contracting_of_spansAxes hc hqs k)
    | cons p ps =>
      cases rs with
      | nil => rfl
      | cons r rs =>
        by_cases hpq : p.resembles q = true
        · by_cases hqr : q.resembles r = true
          · rw [spansAxes, if_pos hpq] at h
            rw [spansAxes, if_pos hqr] at k
            have hpr : p.resembles r := resembles_trans hpq hqr
            rw [spansAxes, if_pos hpr]
            exact ih (hc.tail hqr) h k
          · rw [spansAxes, if_neg hqr] at k
            exact spansAxes_of_contracting _ (all_eq_true.1 k)
        · rw [spansAxes, if_neg hpq] at h
          exact spansAxes_of_contracting _ (contracting_of_spansAxes hc (all_eq_true.1 h) k)

lemma spansSteps_of_dominatesSteps (h : dominatesSteps ps qs) : spansSteps ps qs := by
  have hrest : ∀ (ps : List Step) {qs : List Step}, qs.all (·.contracting) →
      spansSteps ps qs := fun ps qs hqs =>
    spansAxes_of_contracting _ fun q hq => all_eq_true.1 hqs q (mem_filter.1 hq).1
  fun_induction dominatesSteps ps qs with
  | case1 p ps q qs hpq ih =>
    have haxis : p.axis = q.axis := isAxis_of_resembles hpq
    cases hq : q.axis with
    | true =>
      rw [spansSteps, filter_cons_of_pos (haxis.trans hq), filter_cons_of_pos hq, spansAxes, if_pos hpq]
      exact ih h
    | false =>
      rw [spansSteps, filter_cons_of_neg (by simp [haxis, hq]), filter_cons_of_neg (by simp [hq])]
      exact ih h
  | case2 p ps q qs hpq hdrop ih =>
    have hq : q.axis = false := by simpa using (Bool.and_eq_true_iff.1 hdrop).1
    rw [spansSteps, filter_cons_of_neg (a := q) (by simp [hq])]
    exact ih h
  | case3 p ps q qs hpq hdrop => exact hrest _ (Bool.and_eq_true_iff.1 h).2
  | case4 ps qs _ => exact hrest ps (Bool.and_eq_true_iff.1 h).2

end Steps

section Axes

def axisSteps (s : Space) : List Step := s.path.filter (·.axis)

lemma spans_eq (s t : Space) : s.spans t = spansAxes s.axisSteps t.axisSteps := rfl

def ownStep (s : Space) : Step := ⟨s, s.isContracting, s.isExpanding⟩

variable {s b t : Space} {ps qs : List Step} {p : Step}

lemma path_eq_append (h : s.base? = some b) : s.path = b.path ++ [s.ownStep] := by
  cases s <;> cases h <;>
    simp [ownStep, isContracting, isExpanding, path_eq, trail, trail.monikerStep, trail.forkedStep]

lemma path_eq_map_line (s : Space) : s.path = s.line.map ownStep := by
  induction s using baseInduction with
  | root m => rfl
  | step s b hb ih =>
    rw [path_eq_append hb, ih, line, line, ancestors_eq_cons hb, reverse_cons, map_append]
    rfl

def axesBefore (s : Space) : List Step := s.base?.elim [] axisSteps

lemma axisSteps_eq (s : Space) : s.axisSteps = s.axesBefore ++ if s.isAxis then [s.ownStep] else [] := by
  cases hb : s.base? with
  | none =>
    cases s <;> cases hb
    simp [axisSteps, axesBefore, base?, path_eq, trail, ownStep, isContracting, isExpanding, Step.axis,
      isAxis]
  | some b =>
    rw [axisSteps, path_eq_append hb, axesBefore, hb]
    cases haxis : s.isAxis <;> simp [axisSteps, ownStep, Step.axis, haxis]

/-- An axis of a path is the last step of a space whose path leads up to it. -/
theorem exists_of_prefix_axisSteps (s : Space)
    (h : ps ++ [p] <+: s.axisSteps) : ∃ x : Space, p = x.ownStep ∧ ps = x.axesBefore := by
  have hlast : (p = s.ownStep ∧ ps = s.axesBefore) ∨ ps ++ [p] <+: s.axesBefore := by
    rw [axisSteps_eq] at h
    split at h
    · obtain heq | hprefix := prefix_concat_iff.1 h
      · obtain ⟨hps, hp⟩ := append_inj' heq rfl
        exact .inl ⟨singleton_inj.1 hp, hps⟩
      · exact .inr hprefix
    · exact .inr (by simpa using h)
  obtain hown | hbefore := hlast
  · exact ⟨s, hown⟩
  · cases hb : s.base? with
    | none =>
      rw [axesBefore, hb] at hbefore
      exact absurd (prefix_nil.1 hbefore) (by simp)
    | some b =>
      rw [axesBefore, hb] at hbefore
      have hlt := weight_base_lt hb
      exact exists_of_prefix_axisSteps b hbefore
termination_by s.weight

lemma isContracting_moniker (m : Mark) (b s : Space) (cs : List Code) :
    (moniker m b s cs).isContracting = b.spans s := by
  simp [isContracting, spans, path_eq, trail, trail.monikerStep]

lemma isContracting_forked (m : Mark) (b s : Space) (ks cs : List Code) :
    (forked m b s ks cs).isContracting = lastAxisContracting s.path := by
  simp [isContracting, path_eq, trail, trail.forkedStep]

lemma isContracting_congr (h : s.resembles t)
    (hbefore : Alongside s.axesBefore t.axesBefore) : s.isContracting = t.isContracting := by
  cases s with
  | moniker m b u cs =>
    cases t with
    | moniker n c v ds =>
      calc (moniker m b u cs).isContracting = b.spans u := isContracting_moniker m b u cs
        _ = b.spans v := spans_of_beq (BEq.refl b) h
        _ = c.spans v := spansAxes_congr hbefore v.axisSteps
        _ = (moniker n c v ds).isContracting := (isContracting_moniker n c v ds).symm
    | _ => cases h
  | forked m b u ks cs =>
    cases t with
    | forked n c v ls ds =>
      have huv : u.unmarked = v.unmarked := beq_iff_unmarked.1 (Bool.and_eq_true_iff.1 h).1
      rw [isContracting_forked, isContracting_forked, ← lastAxisContracting_unmarked u.path,
        ← path_unmarked, huv, path_unmarked, lastAxisContracting_unmarked]
    | _ => cases h
  | quotient m b u ks cs =>
    cases t with
    | quotient n c v ls ds =>
      have hkl := Code.sameAll_iff_unmarked.1 (Bool.and_eq_true_iff.1 h).2
      have hempty : ks.isEmpty = ls.isEmpty := by
        cases ks <;> cases ls <;> simp [Code.unmarkedAll] at hkl ⊢
      simpa [isContracting, path_eq, trail] using hempty
    | _ => cases h
  | fiber m b j =>
    cases t with
    | fiber n c k =>
      have hjk : j = k := eq_of_beq h
      simp [isContracting, path_eq, trail, hjk]
    | _ => cases h
  | _ =>
    cases t <;> simp [resembles] at h
    all_goals simp [isContracting, path_eq, trail]

lemma consistent_axisSteps (s t : Space) : Consistent s.axisSteps t.axisSteps := by
  intro ps p qs q hps hqs halong hres
  obtain ⟨x, rfl, rfl⟩ := exists_of_prefix_axisSteps s hps
  obtain ⟨y, rfl, rfl⟩ := exists_of_prefix_axisSteps t hqs
  exact isContracting_congr hres halong

lemma axisSteps_of_base (hb : s.base? = some b) (haxis : s.isAxis) :
    s.axisSteps = b.axisSteps ++ [s.ownStep] := by
  rw [axisSteps_eq, axesBefore, hb, haxis]
  rfl

lemma axisSteps_of_not_axis (hb : s.base? = some b) (haxis : s.isAxis = false) :
    s.axisSteps = b.axisSteps := by
  rw [axisSteps_eq, axesBefore, hb, haxis]
  exact append_nil _

lemma Alongside.snoc {q : Step} (h : Alongside ps qs)
    (hpq : p.resembles q) : Alongside (ps ++ [p]) (qs ++ [q]) :=
  rel_append h (.cons hpq .nil)

lemma Alongside.refl (ps : List Step) : Alongside ps ps :=
  forall₂_same.2 fun p _ => resembles_refl p.space

lemma Alongside.symm (h : Alongside ps qs) : Alongside qs ps :=
  h.flip.imp fun _ _ => resembles_symm

lemma spans_of_alongside (h : Alongside s.axisSteps t.axisSteps) : s.spans t := by
  rw [spans_eq, ← append_nil s.axisSteps]
  exact spansAxes_of_alongside h []

end Axes

lemma spans_refl (s : Space) : s.spans s := spans_of_alongside (Alongside.refl _)

lemma spans_trans (h : s.spans t) (k : t.spans u) : s.spans u :=
  spansAxes_trans (consistent_axisSteps t u) h k

lemma spans_of_dominates (h : s.dominates t) : s.spans t :=
  spansSteps_of_dominatesSteps h

lemma axisSteps_prefix_of_mem (s : Space) (h : t ∈ s.ancestors) : t.axisSteps <+: s.axisSteps := by
  refine forall_mem_ancestors (P := (axisSteps · <+: s.axisSteps)) (fun a b hb h => ?_) prefix_rfl t h
  refine IsPrefix.trans ?_ h
  rw [axisSteps_eq a, axesBefore, hb]
  exact prefix_append _ _

lemma spans_of_mem_ancestors (h : t ∈ s.ancestors) : s.spans t := by
  obtain ⟨rest, hrest⟩ := axisSteps_prefix_of_mem s h
  rw [spans_eq, ← hrest]
  exact spansAxes_of_alongside (Alongside.refl _) rest

lemma spans_of_concludes (h : s.concludes t) : s.spans t := by
  obtain ⟨u, hu, hut⟩ := any_eq_true.1 h
  rw [← spans_of_beq (BEq.refl s) hut, spans_of_mem_ancestors hu]

/-- Spanning is a preorder that contains dominating and concluding. -/
theorem spans_preorder_of_dominates_concludes : (∀ s : Space, s.spans s = true) ∧
    (∀ s t u : Space, s.spans t = true → t.spans u = true → s.spans u = true) ∧
    (∀ s t : Space, s.dominates t = true → s.spans t = true) ∧
    ∀ s t : Space, s.concludes t = true → s.spans t = true :=
  ⟨spans_refl, fun _ _ _ => spans_trans, fun _ _ => spans_of_dominates, fun _ _ => spans_of_concludes⟩

/-- The schools behind the open departments span these, and so the schools that take up the departments
again. -/
theorem spans_preorder_of_dominates_concludes_schools :
    let seed : Space := .fiber .nowhere Sample.openDepartments Sample.home
    let again : Space := .moniker .nowhere Sample.openDepartments seed []
    Sample.schools.spans again = true ∧ seed.spans Sample.openDepartments = true ∧
      Sample.schools.spans Sample.departments = true := by
  refine ⟨spans_preorder_of_dominates_concludes.2.1 _ Sample.openDepartments _ ?_ ?_,
    spans_preorder_of_dominates_concludes.2.2.2 _ _ ?_,
    spans_preorder_of_dominates_concludes.2.2.1 _ _ ?_⟩
  · rw [spans, path_eq, path_eq]
    decide
  · rw [spans, path_eq, path_eq]
    decide
  · decide
  · rw [dominates, path_eq, path_eq]
    decide

end Space

end NavQuery
