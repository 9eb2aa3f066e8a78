import NavQuery.Proofs.Spanning
import NavQuery.Proofs.UnmarkedPaths
import NavQuery.Space.Mask

/-!
A filter behind a base is pruned exactly if the pruned space is not longer than the pruned base. Then the
axes of the base are axes of the other chain, and behind them stands a filter by the same condition.
-/

namespace NavQuery

open List

namespace Space

variable {J : Join → Prop} {ss ts : List Space} {m s : Space}

lemma keepSteps_eq (h : ∀ s ∈ ss, s.isCommutative) : pruneSteps.keepSteps ss = some ss := by
  rw [pruneSteps.keepSteps, if_pos (all_eq_true.2 h)]

lemma pruneSteps_nil_left (ts : List Space) : pruneSteps [] ts = some [] := by
  cases ts <;> simp [pruneSteps, pruneSteps.keepSteps]

lemma pruneSteps_nil_right (h : ∀ s ∈ ss, s.isCommutative) : pruneSteps ss [] = some ss := by
  rw [← keepSteps_eq h]
  cases ss <;> simp [pruneSteps]

variable {t p b : Space} {us ks : List Space} {k : Mark}

/-- A last step that is no axis is kept, or a step alike stands behind the same axes. -/
theorem pruneSteps_snoc {q : Space} (hb : b.IsChain J)
    (hm : m.IsChain J) (hp : Leads p ss b) (hq : Leads q us m) (haxes : p.axes = q.axes)
    (hss : ∀ s ∈ ss, s.isCommutative) (ht : t.isCommutative)
    (haxis : t.isAxis = false) :
    ∃ ks, pruneSteps ss us = some ks ∧ (pruneSteps (ss ++ [t]) us = some (ks ++ [t]) ∨
        ∃ v u vs, t.resembles u ∧ u.base? = some v ∧ v.axes = b.axes ∧ Leads u vs m) := by
  have hsnoc : ∀ {ss : List Space}, (∀ s ∈ ss, s.isCommutative) → ∀ s ∈ ss ++ [t], s.isCommutative := by
    intro ss hss s hs
    obtain hs | hs := mem_append.1 hs
    · exact hss s hs
    · rwa [mem_singleton.1 hs]
  induction us generalizing p q ss with
  | nil => exact ⟨ss, pruneSteps_nil_right hss, .inl (pruneSteps_nil_right (hsnoc hss))⟩
  | cons u us ih =>
    cases hq with
    | cons huq hus =>
    have hu := hus.isChain hm
    induction ss generalizing p with
    | nil =>
      cases hp
      refine ⟨[], pruneSteps_nil_left _, ?_⟩
      rw [nil_append, pruneSteps]
      by_cases hres : t.resembles u = true
      · exact .inr ⟨q, u, us, hres, huq, haxes.symm, hus⟩
      · rw [if_neg hres]
        by_cases hua : u.isAxis = true
        · simp [hua, haxis, ht, pruneSteps_nil_left]
        · have hua' : u.isAxis = false := by simpa using hua
          obtain ⟨ks, hks, h⟩ := ih (.nil b) hus
            (haxes.trans (Store.axes_eq_of_not_axis hu huq hua').symm) hss
          rw [pruneSteps_nil_left] at hks
          cases hks
          rwa [if_pos (by simp [hua'])]
    | cons s ss ih' =>
      cases hp with
      | cons hsp hsb =>
      have hs := hsb.isChain hb
      have hss' : ∀ r ∈ ss, r.isCommutative := fun r hr => hss r (mem_cons_of_mem s hr)
      have hcomm := hss s mem_cons_self
      rw [cons_append, pruneSteps, pruneSteps]
      by_cases hres : s.resembles u = true
      · have heq := Store.axes_eq_of_resembles hs hu hsp huq hres haxes
        obtain ⟨ks, hks, h⟩ := ih hsb hus heq hss'
        simp only [hres, hcomm]
        by_cases hsa : s.isAxis = true
        · simp only [hsa, if_true, hks]
          refine ⟨s :: ks, rfl, h.imp_left fun h => ?_⟩
          rw [h]
          rfl
        · simp only [hsa, hks]
          exact ⟨ks, rfl, h⟩
      · rw [if_neg hres, if_neg hres]
        by_cases hua : u.isAxis = true
        · simp only [hua, Bool.not_true, Bool.false_eq_true, if_false]
          by_cases hsa : s.isAxis = true
          · simp only [hsa, Bool.not_true, Bool.false_eq_true, if_false]
            exact ⟨s :: ss, keepSteps_eq hss, .inl (keepSteps_eq (hsnoc hss))⟩
          · have hsa' : s.isAxis = false := by simpa using hsa
            obtain ⟨ks, hks, h⟩ := ih' hsb ((Store.axes_eq_of_not_axis hs hsp hsa').trans haxes) hss'
            simp only [hsa', hcomm, hks]
            refine ⟨s :: ks, rfl, h.imp_left fun h => ?_⟩
            rw [h]
            rfl
        · have hua' : u.isAxis = false := by simpa using hua
          simp only [hua']
          exact ih (.cons hsp hsb) hus (haxes.trans (Store.axes_eq_of_not_axis hu huq hua').symm) hss

lemma pruneSteps_subset (h : pruneSteps ss ts = some ks) : ∀ k ∈ ks, k ∈ ss := by
  have hkeep : ∀ {as ks : List Space}, pruneSteps.keepSteps as = some ks → ∀ k ∈ ks, k ∈ as := by
    intro as ks h
    rw [pruneSteps.keepSteps] at h
    split at h
    · cases h
      exact fun k hk => hk
    · cases h
  fun_induction pruneSteps ss ts generalizing ks with
  | case1 _ _ _ _ _ _ _ ih | case5 _ _ _ _ _ _ _ _ ih =>
    obtain ⟨ks', hks, rfl⟩ := Option.map_eq_some_iff.1 h
    exact fun k hk => mem_cons.2 ((mem_cons.1 hk).imp_right (ih hks k))
  | case2 a as b bs hres hcomm haxis ih => exact fun k hk => mem_cons_of_mem a (ih h k hk)
  | case3 | case6 => cases h
  | case4 a as b bs hres hb ih => exact ih h
  | case7 | case8 => exact hkeep h
  | case9 =>
    cases h
    exact forall_mem_nil _

lemma isCommutative_of_isAxis (h : s.isAxis) : s.isCommutative := by
  cases s <;> first | rfl | cases h

lemma pruneSteps_of_axes (h : ∀ s ∈ ss, s.isAxis) : pruneSteps ss ts = some ss := by
  fun_induction pruneSteps ss ts with
  | case1 a as b bs hres hc haxis ih =>
    rw [ih fun s hs => h s (mem_cons_of_mem a hs)]
    rfl
  | case2 a as b bs hres hc haxis ih => exact absurd (h a mem_cons_self) haxis
  | case3 a as b bs hres hc => exact absurd (isCommutative_of_isAxis (h a mem_cons_self)) (by simp_all)
  | case4 a as b bs hres hb ih => exact ih h
  | case5 a _ _ _ _ _ ha _ _ | case6 a _ _ _ _ _ ha _ => simp [h a mem_cons_self] at ha
  | case7 _ _ _ _ _ _ _ | case8 _ => exact keepSteps_eq fun s hs => isCommutative_of_isAxis (h s hs)
  | case9 => rfl

lemma base?_withBase (h : s.base?.isSome) (b : Space) : (s.withBase b).base? = some b := by
  cases s <;> first | rfl | cases h

lemma length_ancestors_chain (h : ∀ t ∈ ts, t.base?.isSome) :
    (chain s ts).ancestors.length = s.ancestors.length + ts.length := by
  induction ts generalizing s with
  | nil => rfl
  | cons t ts ih =>
    rw [chain, ih fun u hu => h u (mem_cons_of_mem t hu),
      ancestors_eq_cons (base?_withBase (h t mem_cons_self) s), length_cons, length_cons]
    omega

lemma length_ancestors_of_beq (h : (s == t)) : s.ancestors.length = t.ancestors.length := by
  rw [← length_map unmarked, ← ancestors_unmarked, beq_iff_unmarked.1 h, ancestors_unmarked, length_map]

lemma Leads.isSome_base? (h : Leads p ts s) : ∀ t ∈ ts, t.base?.isSome := by
  induction h with
  | nil s => exact nofun
  | cons hbase _ ih =>
    intro t ht
    obtain rfl | ht := mem_cons.1 ht
    · rw [hbase]
      rfl
    · exact ih t ht

lemma length_ancestors_prune {i : Mark}
    (hs : s.line = root i :: ss) (hss : Leads (root i) ss s) (hm : m.line = root k :: us)
    (hks : pruneSteps ss us = some ks) : (s.prune m).ancestors.length = ks.length + 1 := by
  rw [prune, pruneBy]
  split
  · rename_i hinflated
    have haxes : ∀ t ∈ ss, t.isAxis := by
      intro t ht
      refine all_eq_true.1 hinflated t (mem_reverse.1 ?_)
      change t ∈ s.line
      rw [hs]
      exact mem_cons_of_mem _ ht
    rw [pruneSteps_of_axes haxes] at hks
    cases hks
    rw [← length_reverse, ← line, hs, length_cons]
  · have hline : pruneSteps s.line m.line = some (root i :: ks) := by
      rw [hs, hm, pruneSteps, hks]
      rfl
    have hbase : ∀ t ∈ ks, t.base?.isSome :=
      fun t ht => hss.isSome_base? t (pruneSteps_subset hks t ht)
    rw [hline]
    rw [length_ancestors_chain hbase, ancestors, length_singleton]
    omega

lemma exists_filter_of_isMasked {f : Code} (hb : b.IsChain J)
    (hm : m.IsChain J) (hcomm : ∀ a ∈ b.ancestors, a.isCommutative)
    (h : isMasked m (filtered k b f) b) :
    ∃ n v g vs, (f == g) ∧ v.axes = b.axes ∧ Leads (filtered n v g) vs m := by
  obtain ⟨i, ss, hline, hss⟩ := b.exists_leads
  obtain ⟨j, us, hmline, hus⟩ := m.exists_leads
  have hcomm' : ∀ s ∈ ss, s.isCommutative := by
    intro s hs
    refine hcomm s (mem_reverse.1 ?_)
    change s ∈ b.line
    rw [hline]
    exact mem_cons_of_mem _ hs
  obtain ⟨ks, hks, hkept | ⟨v, u, vs, hres, huv, hv, hvs⟩⟩ :=
    pruneSteps_snoc (t := filtered k b f) hb hm hss hus rfl hcomm' rfl rfl
  · have hfline : (filtered k b f).line = root i :: (ss ++ [filtered k b f]) := by
      rw [line, ancestors, reverse_cons, ← line, hline, cons_append]
    have hlong := length_ancestors_prune hfline (hss.snoc rfl) hmline hkept
    have hshort := length_ancestors_prune hline hss hmline hks
    have hsame := length_ancestors_of_beq h
    rw [hlong, hshort] at hsame
    simp at hsame
  · cases u <;> simp [resembles] at hres
    cases huv
    exact ⟨_, v, _, vs, hres, hv, hvs⟩

end Space

end NavQuery
