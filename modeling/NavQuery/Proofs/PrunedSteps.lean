import NavQuery.Proofs.Outcomes
import NavQuery.Proofs.Pruning
import NavQuery.Proofs.SpanningLaws

/-!
Pruning puts the steps that it keeps on other bases. A step fits its new base because that has the same
axes as the old one.
-/

namespace NavQuery

open List

namespace Family

/-- The shape of rows without the place where groups start. -/
def groundless : Family → Family
  | quotient s _ ks f => quotient s s ks f
  | f => f

variable {f g : Family}

lemma groundless_inner (h : f.groundless = g.groundless) : f.inner.groundless = g.inner.groundless := by
  cases f <;> cases g <;> simp_all [groundless, inner]

lemma isScalar_groundless (f : Family) : f.groundless.isScalar = f.isScalar := by cases f <;> rfl

lemma isQuotient_groundless (f : Family) : f.groundless.isQuotient = f.isQuotient := by
  cases f <;> rfl

lemma table?_groundless (f : Family) : f.groundless.table? = f.table? := by cases f <;> rfl

end Family

namespace Space

lemma resembles_withBase (t b : Space) : t.resembles (t.withBase b) :=
  resembles_iff_bare.2 (by cases t <;> simp [bare, withBase, unmarked])

/-- A base that may stand for another: it has the same axes and rows of the same shape. -/
structure StandsFor (new old : Space) : Prop where
  axes : Alongside old.axisSteps new.axisSteps
  family : new.family.groundless = old.family.groundless

namespace StandsFor

variable {b b' t : Space}

lemma refl (b : Space) : b.StandsFor b := ⟨Alongside.refl _, rfl⟩

variable (h : b'.StandsFor b)
include h

lemma spans_right (s : Space) : s.spans b' = s.spans b := by
  rw [Bool.eq_iff_iff]
  exact ⟨fun k => spans_trans k (spans_of_alongside h.axes.symm),
    fun k => spans_trans k (spans_of_alongside h.axes)⟩

lemma spans_left (s : Space) : b'.spans s = b.spans s :=
  (spansAxes_congr h.axes s.axisSteps).symm

lemma of_dropped (ht : t.base? = some b) (haxis : t.isAxis = false) : b'.StandsFor t where
  axes := axisSteps_of_not_axis ht haxis ▸ h.axes
  family := by
    rw [h.family]
    cases t <;> cases haxis <;> cases ht <;> rw [Space.family]

lemma withBase (ht : t.base? = some b) : (t.withBase b').StandsFor t := by
  have hbase : (t.withBase b').base? = some b' := base?_withBase (by rw [ht]; rfl) b'
  have hres := t.resembles_withBase b'
  constructor
  · cases haxis : t.isAxis with
    | true =>
      rw [axisSteps_of_base ht haxis, axisSteps_of_base hbase (isAxis_of_resembles hres ▸ haxis)]
      exact h.axes.snoc hres
    | false =>
      rw [axisSteps_of_not_axis ht haxis, axisSteps_of_not_axis hbase (isAxis_of_resembles hres ▸ haxis)]
      exact h.axes
  · cases t <;> cases ht <;> simp only [Space.withBase, Space.family, Family.groundless]
    · exact Family.groundless_inner h.family
    all_goals exact h.family

lemma check_withBase (ht : t.base? = some b) : (t.withBase b').check = t.check := by
  have hscalar : b'.family.isScalar = b.family.isScalar := by
    rw [← Family.isScalar_groundless, h.family, Family.isScalar_groundless]
  have htable : b'.family.table? = b.family.table? := by
    rw [← Family.table?_groundless, h.family, Family.table?_groundless]
  have hquotient : b'.family.isQuotient = b.family.isQuotient := by
    rw [← Family.isQuotient_groundless, h.family, Family.isQuotient_groundless]
  cases t <;> cases ht <;>
    simp only [Space.withBase, check, h.spans_right, h.spans_left, hscalar, htable, hquotient]

lemma rebase (ht : t.base? = some b) (hcheck : t.check = .ok ()) :
    t.rebase (some b') = .ok (t.withBase b') := by
  have hput : t.rebase (some b') = (t.withBase b').checked := by cases t <;> cases ht <;> rfl
  rw [hput, checked, h.check_withBase ht, hcheck]
  rfl

end StandsFor

/-- Pruning step by step: a step that is kept is put on what there is so far and has to fit. -/
def pruneWalk (whole : Space) : Option Space → List Space → List Space → Result Space
  | base, a :: as, b :: bs =>
    if a.resembles b then
      if a.isCommutative || a == b then
        if a.isAxis then do pruneWalk whole (some (← a.rebase base)) as bs
        else pruneWalk whole base as bs
      else pure whole
    else if !b.isAxis then pruneWalk whole base (a :: as) bs
    else if !a.isAxis then
      if a.isCommutative then do pruneWalk whole (some (← a.rebase base)) as (b :: bs)
      else pure whole
    else keepWalk whole base (a :: as)
  | base, as, [] => keepWalk whole base as
  | base, [], _ => pure (base.getD whole)
where
  keepWalk (whole : Space) : Option Space → List Space → Result Space
    | base, [] => pure (base.getD whole)
    | base, a :: as =>
      if a.isCommutative then do keepWalk whole (some (← a.rebase base)) as else pure whole

variable {whole b b' : Space} {as bs : List Space}

lemma keepWalk_eq (h : b'.StandsFor b) (hleads : Leads b as whole) (hcheck : ∀ a ∈ as, a.check = .ok ()) :
    pruneWalk.keepWalk whole (some b') as =
      .ok (((pruneSteps.keepSteps as).map (chain b')).getD whole) := by
  induction as generalizing b b' with
  | nil => simp [pruneWalk.keepWalk, pruneSteps.keepSteps, chain]; rfl
  | cons a as ih =>
    cases hleads with
    | cons hbase hleads =>
    obtain ⟨ha, has⟩ := forall_mem_cons.1 hcheck
    rw [pruneWalk.keepWalk]
    split
    next hcomm =>
      rw [h.rebase hbase ha, ok_bind, ih (h.withBase hbase) hleads has]
      simp only [pruneSteps.keepSteps, all_cons, hcomm, Bool.true_and]
      split <;> rfl
    next hcomm =>
      simp [pruneSteps.keepSteps, hcomm]
      rfl

lemma pruneWalk_eq (h : b'.StandsFor b) (hleads : Leads b as whole)
    (hcheck : ∀ a ∈ as, a.check = .ok ()) :
    pruneWalk whole (some b') as bs = .ok (((pruneSteps as bs).map (chain b')).getD whole) := by
  fun_induction pruneSteps as bs generalizing b b' with
  | case1 a as c bs hres hcomm haxis ih =>
    obtain ⟨ha, has⟩ := forall_mem_cons.1 hcheck
    cases hleads with
    | cons hbase hleads =>
    rw [pruneWalk, if_pos hres, if_pos hcomm, if_pos haxis, h.rebase hbase ha, ok_bind,
      ih (h.withBase hbase) hleads has]
    cases pruneSteps as bs <;> rfl
  | case2 a as c bs hres hcomm haxis ih =>
    cases hleads with
    | cons hbase hleads =>
    rw [pruneWalk, if_pos hres, if_pos hcomm, if_neg haxis]
    exact ih (h.of_dropped hbase (by simpa using haxis)) hleads (forall_mem_cons.1 hcheck).2
  | case3 a as c bs hres hcomm =>
    rw [pruneWalk, if_pos hres, if_neg hcomm]
    rfl
  | case4 a as c bs hres hc ih =>
    rw [pruneWalk, if_neg hres, if_pos hc]
    exact ih h hleads hcheck
  | case5 a as c bs hres hc ha hcomm ih =>
    obtain ⟨hacheck, has⟩ := forall_mem_cons.1 hcheck
    cases hleads with
    | cons hbase hleads =>
    rw [pruneWalk, if_neg hres, if_neg hc, if_pos ha, if_pos hcomm, h.rebase hbase hacheck, ok_bind,
      ih (h.withBase hbase) hleads has]
    cases pruneSteps as (c :: bs) <;> rfl
  | case6 a as c bs hres hc ha hcomm =>
    rw [pruneWalk, if_neg hres, if_neg hc, if_pos ha, if_neg hcomm]
    rfl
  | case7 a as c bs hres hc ha =>
    rw [pruneWalk, if_neg hres, if_neg hc, if_neg ha]
    exact keepWalk_eq h hleads hcheck
  | case8 as =>
    have hkeep : pruneWalk whole (some b') as [] = pruneWalk.keepWalk whole (some b') as := by
      cases as <;> rw [pruneWalk]
    rw [hkeep]
    exact keepWalk_eq h hleads hcheck
  | case9 bs hbs =>
    rw [pruneWalk]
    · rfl
    · exact hbs

/-- Pruning where each step that is kept has to fit its new base. -/
def pruneStepwise (s t : Space) : Result Space :=
  if s.isInflated then pure s else pruneWalk s none s.line t.line

lemma pruneStepwise_eq (s t : Space) (hcheck : ∀ a ∈ s.ancestors, a.check = .ok ()) :
    s.pruneStepwise t = .ok (s.prune t) := by
  obtain ⟨m, ss, hs, hleads⟩ := s.exists_leads
  obtain ⟨n, ts, ht, -⟩ := t.exists_leads
  rw [pruneStepwise, prune, pruneBy]
  split
  · rfl
  have hsteps : ∀ a ∈ ss, a.check = .ok () := fun a ha =>
    hcheck a (mem_reverse.1 (show a ∈ s.line from hs ▸ mem_cons_of_mem _ ha))
  have hwalk : pruneWalk s none s.line t.line = pruneWalk s (some (root m)) ss ts := by
    rw [hs, ht, pruneWalk]
    rfl
  rw [hwalk, pruneWalk_eq (.refl _) hleads hsteps, hs, ht, pruneSteps]
  cases pruneSteps ss ts <;> rfl

/-- Steps of one chain are left out for steps of another. Both chains are followed from the root on;
`xs` and `ys` are their axes so far. A step is left out only if it is no axis and resembles the step of
the other chain that is used up for it, behind as many axes that resemble each other. A step that cannot
change places with filters is never kept and is left out for the same space only. -/
inductive Prunes : List Space → List Space → List Space → List Space → List Space → Prop
  | nil {xs ys bs : List Space} : Prunes xs ys [] bs []
  | keep {xs ys as bs ks : List Space} {a : Space} (hcomm : a.isCommutative)
      (h : Prunes (xs ++ [a].filter (·.isAxis)) ys as bs ks) : Prunes xs ys (a :: as) bs (a :: ks)
  | skip {xs ys as bs ks : List Space} {b : Space}
      (h : Prunes xs (ys ++ [b].filter (·.isAxis)) as bs ks) : Prunes xs ys as (b :: bs) ks
  | drop {xs ys as bs ks : List Space} {a b : Space} (haxis : a.isAxis = false)
      (hres : a.resembles b) (haxes : Forall₂ (fun x y => x.resembles y) xs ys)
      (hcomm : a.isCommutative ∨ (a == b)) (h : Prunes xs ys as bs ks) :
      Prunes xs ys (a :: as) (b :: bs) ks

variable {ks ys xs : List Space} {s : Space}

lemma prunes_keepSteps (h : pruneSteps.keepSteps as = some ks) : Prunes xs ys as bs ks := by
  rw [pruneSteps.keepSteps] at h
  split at h
  next hall =>
    cases h
    induction as generalizing xs with
    | nil => exact .nil
    | cons a as ih =>
      obtain ⟨ha, has⟩ := Bool.and_eq_true_iff.1 hall
      exact .keep ha (ih has)
  next => cases h

lemma prunes_pruneSteps (h : pruneSteps as bs = some ks)
    (haxes : Forall₂ (fun x y => x.resembles y) xs ys) : Prunes xs ys as bs ks := by
  fun_induction pruneSteps as bs generalizing xs ys ks with
  | case1 a as c bs hres hcomm haxis ih =>
    obtain ⟨ks, hks, rfl⟩ := Option.map_eq_some_iff.1 h
    have hc : c.isAxis := isAxis_of_resembles hres ▸ haxis
    refine .keep (isCommutative_of_isAxis haxis) (.skip (ih hks ?_))
    rw [filter_cons_of_pos haxis, filter_cons_of_pos hc]
    exact rel_append haxes (.cons hres .nil)
  | case2 a as c bs hres hcomm haxis ih =>
    exact .drop (by simpa using haxis) hres haxes (Bool.or_eq_true_iff.1 hcomm) (ih h haxes)
  | case3 | case6 => cases h
  | case4 a as c bs hres hc ih =>
    refine .skip (ih h ?_)
    rwa [filter_cons_of_neg (by simpa using hc), filter_nil, append_nil]
  | case5 a as c bs hres hc ha hcomm ih =>
    obtain ⟨ks, hks, rfl⟩ := Option.map_eq_some_iff.1 h
    refine .keep hcomm (ih hks ?_)
    rwa [filter_cons_of_neg (by simpa using ha), filter_nil, append_nil]
  | case7 | case8 => exact prunes_keepSteps h
  | case9 =>
    cases h
    exact .nil

lemma Prunes.axes (h : Prunes xs ys as bs ks) : ks.filter (·.isAxis) = as.filter (·.isAxis) := by
  induction h with
  | nil => rfl
  | keep _ _ ih => rw [filter_cons, filter_cons, ih]
  | skip _ ih => exact ih
  | drop haxis _ _ _ _ ih => rw [ih, filter_cons_of_neg (by simp [haxis])]

/-- The last step by itself. -/
def alone (s : Space) : Space := s.withBase (root .nowhere)

lemma isAxis_alone (s : Space) : s.alone.isAxis = s.isAxis := by cases s <;> rfl

lemma line_chain (hbase : ∀ a ∈ as, a.base?.isSome) (s : Space) :
    (chain s as).line.map alone = s.line.map alone ++ as.map alone := by
  induction as generalizing s with
  | nil => simp [chain]
  | cons a as ih =>
    obtain ⟨ha, has⟩ := forall_mem_cons.1 hbase
    have hline : (a.withBase s).line = s.line ++ [a.withBase s] := by
      rw [line, ancestors_eq_cons (base?_withBase ha s), reverse_cons, ← line]
    have halone : (a.withBase s).alone = a.alone := by cases a <;> rfl
    rw [chain, ih has, hline, map_append, append_assoc, map_singleton, halone, map_cons, singleton_append]

lemma exists_prunes (s t : Space) : s.prune t = s ∨ ∃ ks, Prunes [] [] s.line t.line ks ∧
    (s.prune t).line.map alone = ks.map alone := by
  obtain ⟨m, ss, hs, hleads⟩ := s.exists_leads
  obtain ⟨n, ts, ht, -⟩ := t.exists_leads
  rw [prune, pruneBy]
  split
  · exact .inl rfl
  cases hks : pruneSteps ss ts with
  | none =>
    left
    rw [hs, ht, pruneSteps, hks]
    rfl
  | some ks =>
    right
    have hline : pruneSteps s.line t.line = some (root m :: ks) := by
      rw [hs, ht, pruneSteps, hks]
      rfl
    refine ⟨_, prunes_pruneSteps hline .nil, ?_⟩
    rw [hline]
    exact line_chain (fun a ha => hleads.isSome_base? a (pruneSteps_subset hks a ha)) _

lemma pruneSteps_self (as : List Space) : pruneSteps as as = some (as.filter (·.isAxis)) := by
  induction as with
  | nil => exact pruneSteps_nil_left []
  | cons a as ih =>
    rw [pruneSteps, if_pos (resembles_refl a), if_pos (by simp), ih, filter_cons]
    split <;> rfl

lemma chain_axes (h : Leads b as s) : chain b.axesOnly (as.filter (·.isAxis)) = s.axesOnly := by
  induction h with
  | nil s => rfl
  | @cons p t s ts hbase _ ih =>
    cases haxis : t.isAxis with
    | true => rw [filter_cons_of_pos haxis, chain, ← axesOnly_of_axis hbase haxis, ih]
    | false => rw [filter_cons_of_neg (by simp [haxis]), ← axesOnly_of_not_axis hbase haxis, ih]

lemma prune_self (s : Space) : s.prune s = s.inflate := by
  obtain ⟨m, ss, hs, hleads⟩ := s.exists_leads
  rw [prune, pruneBy, inflate_eq]
  split
  next h => exact (axesOnly_of_isInflated h).symm
  next =>
    rw [pruneSteps_self, hs, ← chain_axes hleads]
    rfl

theorem prune_matched_steps {s : Space} (t : Space) (hcheck : ∀ a ∈ s.ancestors, a.check = .ok ()) :
    s.pruneStepwise t = .ok (s.prune t) ∧
      ((s.prune t).line.map alone).filter (·.isAxis) = (s.line.map alone).filter (·.isAxis) ∧
      (s.prune t = s ∨ ∃ ks, Prunes [] [] s.line t.line ks ∧ (s.prune t).line.map alone = ks.map alone) ∧
      s.prune s = s.inflate := by
  refine ⟨s.pruneStepwise_eq t hcheck, ?_, s.exists_prunes t, s.prune_self⟩
  obtain heq | ⟨ks, hks, hline⟩ := s.exists_prunes t
  · rw [heq]
  · simp only [hline, filter_map, Function.comp_def, isAxis_alone, hks.axes]

/-- The schools of the open departments, pruned by these. -/
theorem prune_matched_steps_schools :
    let s : Space := .fiber .nowhere Sample.openDepartments Sample.home
    let t := Sample.openDepartments
    (∀ a ∈ s.ancestors, a.check = .ok ()) ∧ s.pruneStepwise t = .ok (s.prune t) ∧
      (s.prune t = s ∨ ∃ ks, Prunes [] [] s.line t.line ks ∧
        (s.prune t).line.map alone = ks.map alone) := by
  intro s t
  have hcheck : ∀ a ∈ s.ancestors, a.check = .ok () := by
    simp only [s, ancestors, Sample.openDepartments, Sample.departments, forall_mem_cons]
    exact ⟨by simp [check, family, Family.table?, Sample.home, ensure], rfl, rfl, rfl, forall_mem_nil _⟩
  obtain ⟨hwalk, -, hdrops, -⟩ := prune_matched_steps t hcheck
  exact ⟨hcheck, hwalk, hdrops⟩

end Space

end NavQuery
