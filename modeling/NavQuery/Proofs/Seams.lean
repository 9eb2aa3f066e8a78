import NavQuery.Proofs.Spanning
import NavQuery.Proofs.SpanningLaws
import NavQuery.Term.Glue

/-!
A chain of axes only is known by its axes. The units of a chain that tell its rows apart are the
identifying columns of its table, and the equalities between a row and its base row are those of its join.
A trunk and a shoot are matched on the axes that both have, contracting ones left out.
-/

namespace NavQuery

open List

variable {b t p : Space}

namespace Space

variable {J K : Join → Prop}

inductive IsBackbone (J : Join → Prop) : Space → Prop
  | root (m : Mark) : IsBackbone J (root m)
  | step {s b : Space} {a : Axis} (hb : IsBackbone J b) (hs : s.IsChain J) (ha : s.axis? = some a)
      (hbase : s.base? = some b) : IsBackbone J s

variable {s : Space}

lemma isInflated_eq (h : s.base? = some b) : s.isInflated = (s.isAxis && b.isInflated) := by
  rw [isInflated, ancestors_eq_cons h, all_cons, ← isInflated]

lemma IsChain.axes_ne_nil (h : s.IsChain J) : s.axes ≠ [] := by
  induction h <;> simp_all [axes]

namespace IsBackbone

variable {s : Space}

lemma isChain (h : s.IsBackbone J) : s.IsChain J := by
  cases h with
  | root m => exact .root m
  | step _ hs _ _ => exact hs

lemma isInflated (h : s.IsBackbone J) : s.isInflated := by
  induction h with
  | root m => rfl
  | step _ _ ha hbase ih =>
    rw [isInflated_eq hbase, ih]
    simp [isAxis_of_axis? ha]

lemma axes_length_pos (h : s.IsBackbone J) : 0 < s.axes.length :=
  length_pos_iff.2 h.isChain.axes_ne_nil

lemma axesOnly_eq (h : s.IsBackbone J) : s.axesOnly = s := axesOnly_of_isInflated h.isInflated

end IsBackbone

lemma IsChain.isBackbone (h : s.IsChain J) (hi : s.isInflated) : s.IsBackbone J := by
  induction s using baseInduction with
  | root m => exact .root m
  | step s b hb ih =>
    rw [isInflated_eq hb, Bool.and_eq_true_iff] at hi
    obtain ⟨a, ha, -⟩ | ⟨haxis, -⟩ := axes_eq_or h hb
    · exact .step (ih (h.base hb) hi.2) h ha hb
    · cases haxis.symm.trans hi.1

lemma isInflated_axesOnly (s : Space) : s.axesOnly.isInflated := by
  cases s with
  | root m => rfl
  | filtered _ b _ | ordered _ b _ _ _ => exact isInflated_axesOnly b
  | scalar _ b | table _ b _ | fiber _ b _ | quotient _ b _ _ _ | complement _ b _ | moniker _ b _ _
  | forked _ b _ _ _ | linked _ b _ _ _ =>
    rw [isInflated_eq rfl, isInflated_axesOnly b]
    rfl

lemma IsChain.axesOnly_isBackbone (h : s.IsChain J) : s.axesOnly.IsBackbone J :=
  h.axesOnly.isBackbone s.isInflated_axesOnly

lemma beq_of_axis? {c : Space} {a : Axis} (hs : s.axis? = some a) (ht : t.axis? = some a)
    (hb : s.base? = some b) (hc : t.base? = some c) (h : (b == c)) : (s == t) := by
  rw [beq_iff_unmarked] at h ⊢
  cases s <;> cases hs <;> cases hb <;> cases t <;> cases ht <;> cases hc <;> simp [unmarked, h]

lemma IsBackbone.beq_iff (hs : s.IsBackbone J) (ht : t.IsBackbone K) :
    (s == t) ↔ s.axes = t.axes := by
  refine ⟨axes_of_beq, fun h => ?_⟩
  induction hs generalizing t with
  | root m =>
    cases ht with
    | root n => rfl
    | step hb _ ha hbase =>
      rw [axes_of_axis? ha hbase] at h
      have hlen := congrArg List.length h
      have hpos := hb.axes_length_pos
      simp only [axes, length_append, length_singleton] at hlen
      omega
  | step hb _ ha hbase ih =>
    rw [axes_of_axis? ha hbase] at h
    cases ht with
    | root n =>
      have hlen := congrArg List.length h
      have hpos := hb.axes_length_pos
      simp only [axes, length_append, length_singleton] at hlen
      omega
    | step hc _ hc' hcbase =>
      rw [axes_of_axis? hc' hcbase] at h
      obtain ⟨haxes, heq⟩ := append_inj' h rfl
      obtain rfl := singleton_inj.1 heq
      exact beq_of_axis? ha hc' hbase hcbase (ih hc haxes)

lemma IsBackbone.of_mem_ancestors (h : s.IsBackbone J) (hp : p ∈ s.ancestors) :
    p.IsBackbone J ∧ p.axes <+: s.axes := by
  obtain ⟨ts, hts⟩ := leads_of_mem hp
  refine ⟨(hts.isChain h.isChain).isBackbone ?_, hts.axes_start h.isChain⟩
  exact all_eq_true.2 fun q hq => all_eq_true.1 h.isInflated q (ancestors_subset hp hq)

lemma IsBackbone.exists_ancestor (h : s.IsBackbone J) {k : Nat} (hk : 0 < k)
    (hle : k ≤ s.axes.length) : ∃ p ∈ s.ancestors, p.axes = s.axes.take k := by
  induction h with
  | root m =>
    obtain rfl : k = 1 := by
      simp [axes] at hle
      omega
    exact ⟨.root m, mem_ancestors_self _, rfl⟩
  | @step s b a hb hs ha hbase ih =>
    have haxes := axes_of_axis? ha hbase
    rw [ancestors_eq_cons hbase]
    obtain hlt | heq := Nat.lt_or_eq_of_le hle
    · have hle' : k ≤ b.axes.length := by
        rw [haxes] at hlt
        simp at hlt
        omega
      obtain ⟨p, hp, hpaxes⟩ := ih hle'
      refine ⟨p, mem_cons_of_mem _ hp, ?_⟩
      rw [hpaxes, haxes, take_append_of_le_length hle']
    · exact ⟨s, mem_cons_self, by rw [heq, take_length]⟩

section Nearest

variable {s : Space}

lemma firstShootAxis_mem {trunk s : Space} {l : List Space}
    (h : firstShootAxis trunk l = some s) : s ∈ l := by
  induction l with
  | nil => cases h
  | cons p l ih =>
    cases l with
    | nil =>
      cases h
      exact mem_singleton.2 rfl
    | cons q l =>
      rw [firstShootAxis] at h
      split at h
      · cases h
        exact mem_cons_self
      · exact mem_cons_of_mem p (ih h)

lemma inflatedAncestor_of_isInflated (h : s.isInflated) : s.inflatedAncestor = s := by
  cases hb : s.base? with
  | none =>
    cases s <;> cases hb
    rfl
  | some b =>
    rw [inflatedAncestor, ancestors_eq_cons hb, find?_cons_of_pos h]
    rfl

lemma exists_find?_isInflated (s : Space) : ∃ p, s.ancestors.find? (·.isInflated) = some p := by
  rw [← Option.isSome_iff_exists, find?_isSome]
  induction s using baseInduction with
  | root m => exact ⟨_, mem_ancestors_self _, rfl⟩
  | step s b hb ih => exact ancestors_eq_cons hb ▸ exists_mem_cons_of_exists ih

lemma inflatedAncestor_of_base? (hb : s.base? = some b) (h : s.isInflated = false) :
    s.inflatedAncestor = b.inflatedAncestor := by
  obtain ⟨p, hp⟩ := b.exists_find?_isInflated
  rw [inflatedAncestor, ancestors_eq_cons hb, find?_cons_of_neg (by simp [h]), inflatedAncestor, hp]
  rfl

lemma IsChain.inflatedAncestor_spec (h : s.IsChain J) :
    s.inflatedAncestor.IsBackbone J ∧ s.inflatedAncestor ∈ s.ancestors := by
  obtain ⟨p, hp⟩ := s.exists_find?_isInflated
  have hmem := mem_of_find?_eq_some hp
  have hi : p.isInflated := find?_some hp
  obtain ⟨ts, hts⟩ := leads_of_mem hmem
  rw [inflatedAncestor, hp]
  exact ⟨(hts.isChain h).isBackbone hi, hmem⟩

lemma IsChain.axes_inflatedAncestor (h : s.IsChain J) : s.inflatedAncestor.axes <+: s.axes := by
  obtain ⟨ts, hts⟩ := leads_of_mem h.inflatedAncestor_spec.2
  exact hts.axes_start h

lemma inflatedAncestor_start (hs : s.IsChain J) (hb : s.base? = some b) :
    b.inflatedAncestor.axes <+: s.inflatedAncestor.axes := by
  by_cases h : s.isInflated = true
  · rw [inflatedAncestor_of_isInflated h]
    exact (hs.base hb).axes_inflatedAncestor.trans ((Leads.cons hb (.nil s)).axes_start hs)
  · have heq := inflatedAncestor_of_base? hb (by simpa using h)
    exact heq ▸ prefix_rfl

lemma mem_inflatedAncestor (hp : p ∈ s.ancestors) (hi : p.isInflated) :
    p ∈ s.inflatedAncestor.ancestors := by
  induction s using baseInduction with
  | root m => exact hp
  | step s b hb ih =>
    by_cases hinflated : s.isInflated = true
    · rwa [inflatedAncestor_of_isInflated hinflated]
    · rw [inflatedAncestor_of_base? hb (by simpa using hinflated)]
      obtain rfl | hp := mem_cons.1 (ancestors_eq_cons hb ▸ hp)
      · exact absurd hi hinflated
      · exact ih hp

/-- A chain concludes what has axes only exactly if it has the same axes before the first step that is
none. -/
theorem IsChain.concludes_iff (hs : s.IsChain J) (ht : t.IsBackbone K) :
    s.concludes t ↔ t.axes <+: s.inflatedAncestor.axes := by
  obtain ⟨hnear, hmem⟩ := hs.inflatedAncestor_spec
  rw [concludes, any_eq_true]
  constructor
  · rintro ⟨p, hp, hpt⟩
    have hi : p.isInflated := (isInflated_of_beq hpt).trans ht.isInflated
    rw [← axes_of_beq hpt]
    exact (hnear.of_mem_ancestors (mem_inflatedAncestor hp hi)).2
  · intro hstart
    obtain ⟨p, hp, hpaxes⟩ := hnear.exists_ancestor ht.axes_length_pos hstart.length_le
    refine ⟨p, ancestors_subset hmem hp, ?_⟩
    rw [(hnear.of_mem_ancestors hp).1.beq_iff ht, hpaxes]
    exact (prefix_iff_eq_take.1 hstart).symm

end Nearest

end Space

lemma Table.columnsAt_subset (t : Table) (positions : List Nat) : t.columnsAt positions ⊆ t.columns := by
  intro c hc
  obtain ⟨i, -, hi⟩ := mem_filterMap.1 hc
  exact mem_of_getElem? hi

/-- A primary key, or a complete key whose columns are never null. -/
def Table.Identifies (t : Table) (k : UniqueKey) : Prop :=
  k ∈ t.keys ∧ (k.primary ∨ k.incomplete = false ∧ ∀ c ∈ t.columnsAt k.columns, c.nullable = false)

lemma Table.identifyingColumns_cases (t : Table) :
    (∃ k, t.Identifies k ∧ t.identifyingColumns = t.columnsAt k.columns) ∨
      t.identifyingColumns = [] ∧ ∀ k, ¬ t.Identifies k := by
  unfold identifyingColumns
  split
  next k hk => exact .inl ⟨k, ⟨mem_of_find?_eq_some hk, .inl (find?_some hk)⟩, rfl⟩
  next hprimary =>
    split
    next k hk =>
      exact .inl ⟨k, ⟨mem_of_find?_eq_some hk, .inr (by simpa using find?_some hk)⟩, rfl⟩
    next hnone =>
      refine .inr ⟨rfl, fun k ⟨hk, hkey⟩ => ?_⟩
      rcases hkey with hkey | hkey
      · exact find?_eq_none.1 hprimary k hk hkey
      · exact find?_eq_none.1 hnone k hk (by simpa using hkey)

lemma Table.identifyingColumns_subset (t : Table) : t.identifyingColumns ⊆ t.columns := by
  rcases t.identifyingColumns_cases with ⟨k, -, heq⟩ | ⟨hnil, -⟩
  · exact heq ▸ t.columnsAt_subset _
  · exact hnil ▸ nil_subset _

namespace Space

variable {J : Join → Prop}

def columns (s : Space) : List Column := s.family.table?.elim [] Table.columns

def keyColumns (s : Space) : List Column := s.family.table?.elim [] Table.identifyingColumns

lemma keyColumns_subset (s : Space) : s.keyColumns ⊆ s.columns := by
  unfold keyColumns columns
  cases s.family.table? with
  | none => exact nil_subset _
  | some t => exact t.identifyingColumns_subset

variable {s u : Space} {t b p : Space} {us : List Code}

lemma columns_of_axes_eq (hs : s.IsChain J) (ht : t.IsChain J)
    (h : s.axes = t.axes) : s.columns = t.columns := by
  rw [columns, columns, hs.table?_eq, ht.table?_eq, h]

lemma ofColumn_beq (h : (s == t)) (c : Column) (m n : Mark) :
    (Code.ofColumn c s m == Code.ofColumn c t n) := by
  rw [Code.beq_iff_unmarked]
  simp [Code.ofColumn, Code.unmarked, beq_iff_unmarked.1 h]

lemma IsChain.exports_eq (h : s.IsChain J) :
    ∃ m, s.exports = .ok (s.columns.map fun c => Code.ofColumn c s m) := by
  induction h with
  | root m | scalar m _ _ | table m t _ _ _ | fiber m _ _ _ _ =>
    refine ⟨m, ?_⟩
    rw [exports]
    rfl
  | filtered m f _ ih | ordered m os l o _ ih =>
    -- the units of the base over the space, with their marks
    obtain ⟨n, hn⟩ := ih
    refine ⟨n, ?_⟩
    rw [exports, hn]
    show Except.ok _ = _
    rw [map_map]
    rfl

lemma IsBackbone.inflate_eq (h : s.IsBackbone J) : s.inflate = s := by
  rw [Space.inflate_eq, h.axesOnly_eq]

lemma tableKey_eq {t : Table} {m : Mark} (h : tableKey t s m = .ok us) :
    t.identifyingColumns ≠ [] ∧ us = t.identifyingColumns.map fun c => Code.ofColumn c s m := by
  rw [tableKey] at h
  by_cases hkey : t.identifyingColumns.isEmpty = true
  · simp [hkey] at h
  · rw [if_neg hkey] at h
    exact ⟨by simpa using hkey, (Except.ok.inj h).symm⟩

lemma IsBackbone.keyUnits_eq (h : s.IsBackbone J)
    (hus : s.keyUnits = .ok us) : (∀ t ∈ s.family.table?, t.identifyingColumns ≠ []) ∧
      us = s.keyColumns.map fun c => Code.ofColumn c s s.mark := by
  have hself := h.inflate_eq
  cases h with
  | root m =>
    rw [keyUnits] at hus
    cases hus
    exact ⟨by rintro t ⟨⟩, rfl⟩
  | step hb hs ha hbase =>
    cases hs with
    | root m => cases hbase
    | scalar m _ =>
      rw [keyUnits] at hus
      cases hus
      exact ⟨by rintro t ⟨⟩, rfl⟩
    | table _ t _ _ | fiber _ _ _ _ =>
      rw [keyUnits, hself] at hus
      obtain ⟨hkey, rfl⟩ := tableKey_eq hus
      refine ⟨?_, rfl⟩
      rintro t ⟨⟩
      exact hkey
    | filtered _ _ _ | ordered _ _ _ _ _ => cases ha

lemma dominatesSteps_append (ps as bs : List Step) :
    dominatesSteps (ps ++ as) (ps ++ bs) = dominatesSteps as bs := by
  induction ps with
  | nil => rfl
  | cons p ps ih =>
    have hp : p.resembles p := resembles_refl p.space
    rw [cons_append, cons_append, dominatesSteps, if_pos hp, ih]

variable (hs : s.IsChain J)
include hs

lemma IsChain.path_eq_append (hb : s.base? = some b) : s.path = b.path ++ [s.lastStep] := by
  rw [hs.path_eq_map, (hs.base hb).path_eq_map, line, ancestors_eq_cons hb, line]
  simp

/-- The last step neither loses nor repeats rows if space and base conform. -/
theorem IsChain.lastStep_of_conforms (hb : s.base? = some b) (h : s.conforms b) :
    s.lastStep.expanding ∧ s.lastStep.contracting := by
  have hsb := dominatesSteps_append b.path [s.lastStep] []
  have hbs := dominatesSteps_append b.path [] [s.lastStep]
  rw [conforms, dominates, dominates, hs.path_eq_append hb] at h
  rw [append_nil] at hsb hbs
  rw [hsb, hbs] at h
  simpa [dominatesSteps] using h

lemma spans_of_start_axes (hu : u.IsChain J) (h : u.axes <+: s.axes) : s.spans u := by
  rw [hs.spans_iff hu, commonRun_comm, commonRun_eq_length h, drop_length]
  exact forall_mem_nil _

lemma spans_of_axes_start (hp : p.IsChain J) (h : p.axes <+: s.axes) (hpu : p.spans u) : s.spans u :=
  spans_trans (spans_of_start_axes hs hp h) hpu

omit hs in
lemma spans_start (hp : p.IsChain J) (hu : u.IsChain J) (h : p.axes <+: u.axes) (hsu : s.spans u) : s.spans p :=
  spans_trans hsu (spans_of_start_axes hu hp h)

end Space

namespace Store

variable {R V : Type} [DecidableEq R] [DecidableEq V] (D : Store R V) {J : Join → Prop}

/-- Primary keys and complete keys without nulls hold: they tell the rows of a table apart, and none of
their columns is null. -/
def Keyed : Prop :=
  ∀ t : Table, ∀ k ∈ t.keys,
    k.primary ∨ k.incomplete = false ∧ (∀ c ∈ t.columnsAt k.columns, c.nullable = false) →
    (∀ r ∈ D.rows t, ∀ c ∈ t.columnsAt k.columns, D.cell r c ≠ D.engine.null) ∧
    ∀ r ∈ D.rows t, ∀ s ∈ D.rows t, (∀ c ∈ t.columnsAt k.columns, D.cell r c = D.cell s c) → r = s

variable {D}

omit [DecidableEq R] [DecidableEq V] in
lemma Keyed.identifies (h : D.Keyed) {t : Table} (ht : t.identifyingColumns ≠ []) :
    (∀ r ∈ D.rows t, ∀ c ∈ t.identifyingColumns, D.cell r c ≠ D.engine.null) ∧
    ∀ r ∈ D.rows t, ∀ s ∈ D.rows t, (∀ c ∈ t.identifyingColumns, D.cell r c = D.cell s c) → r = s := by
  rcases t.identifyingColumns_cases with ⟨k, hk, heq⟩ | ⟨hnil, -⟩
  · rw [heq]
    exact h t k hk.1 hk.2
  · exact absurd hnil ht

variable {s u : Space} {z : Tuple R}

lemma rowOf_longer (hD : D.Contracts J) {p : Space} (hp : p.IsChain J) (hs : s.IsChain J)
    (hu : u.IsChain J) (h : p.axes <+: s.axes) (hpu : p.spans u)
    (hz : D.Fits none s.axes z) : D.rowOf u s z = D.rowOf u p (z.take p.axes.length) := by
  refine rowOf_eq hD hs hu hp hu (Space.spans_of_axes_start hs hp h hpu) hpu fun y => ?_
  refine and_congr_right fun hy => ⟨fun hzy => hzy.start h, fun hzy => ?_⟩
  exact .of_start hD hp hu h hpu hz (fits_of_mem hu hy) hzy

lemma rowOf_of_start (hD : D.Contracts J) (hs : s.IsChain J) (hu : u.IsChain J)
    (h : u.axes <+: s.axes) (hz : z.take u.axes.length ∈ D.tuples u) :
    D.rowOf u s z = Tuple.last (z.take u.axes.length) := by
  refine rowOf_eq_last hD hs hu (Space.spans_of_start_axes hs hu h) hz ?_
  rw [Space.Converge, commonRun_comm, commonRun_eq_length h, take_take, min_self]

end Store

namespace Space

variable {J : Join → Prop} {s b x : Space} {a : Axis}

lemma IsChain.isContracting_eq (h : s.IsChain J) : s.isContracting = s.lastStep.contracting := by
  cases hb : s.base? with
  | none =>
    cases s <;> cases hb
    rfl
  | some b => rw [isContracting, h.path_eq_append hb, getLast?_concat, Option.any_some]

lemma contracting_of_axis? (h : s.axis? = some a) : s.lastStep.contracting = a.contracting := by
  cases s <;> cases h <;> rfl

lemma IsBackbone.lastStep_contracting (h : s.IsBackbone J) {α : List Axis}
    (ha : s.axes = α ++ [a]) : s.lastStep.contracting = a.contracting := by
  cases h with
  | root m =>
    obtain ⟨-, heq⟩ := append_inj' (show [] ++ [Axis.root] = α ++ [a] from ha) rfl
    rw [← singleton_inj.1 heq]
    rfl
  | step hb _ hs hbase =>
    rw [axes_of_axis? hs hbase] at ha
    rw [contracting_of_axis? hs, singleton_inj.1 (append_inj' ha rfl).2]

def isAbove (baseline s : Space) : Bool := baseline.base?.any (s == ·)

variable {c p y : Space}

lemma IsBackbone.isAbove_iff (hs : s.IsBackbone J) (hc : c.IsBackbone J)
    (hbase : b.base? = some c) : isAbove b s ↔ s.axes = c.axes := by
  rw [isAbove, hbase, Option.any_some, hs.beq_iff hc]

lemma IsBackbone.isAbove_eq_false (hx : x.IsBackbone J) (hb : b.IsBackbone J)
    (hbx : b.axes <+: x.axes) : isAbove b x = false := by
  cases hb with
  | root n => rfl
  | step hc _ ha hbase =>
    rw [Bool.eq_false_iff, Ne, hx.isAbove_iff hc hbase]
    intro heq
    have hlen := hbx.length_le
    rw [axes_of_axis? ha hbase, length_append, heq, length_singleton] at hlen
    omega

lemma IsBackbone.isAbove_of_axes (hc : c.IsBackbone J) (hb : b.IsBackbone J)
    (haxes : b.axes = c.axes ++ [a]) : isAbove b c := by
  cases hb with
  | root n =>
    have hpos := hc.axes_length_pos
    have hlen := congrArg List.length haxes
    simp only [axes, length_append, length_singleton] at hlen
    omega
  | step hd _ hda hdbase =>
    rw [hc.isAbove_iff hd hdbase]
    rw [axes_of_axis? hda hdbase] at haxes
    exact (append_inj' haxes rfl).1.symm

lemma ancestors_eq_self_cons (s : Space) : ∃ rest, s.ancestors = s :: rest := by
  cases s <;> exact ⟨_, by rw [ancestors]⟩

lemma IsBackbone.mem_takeWhile_iff (hx : x.IsBackbone J) (hb : b.IsBackbone J)
    (hbx : b.axes <+: x.axes) : p ∈ x.ancestors.takeWhile (!isAbove b ·) ↔
      p ∈ x.ancestors ∧ b.axes.length ≤ p.axes.length := by
  induction hx with
  | root m =>
    have hself := (IsBackbone.root m).isAbove_eq_false hb hbx
    rw [ancestors, takeWhile_cons_of_pos (by simp [hself]), takeWhile_nil, mem_singleton]
    refine ⟨?_, fun hp => hp.1⟩
    rintro rfl
    exact ⟨rfl, hbx.length_le⟩
  | @step x c a hc hxchain ha hbase ih =>
    have hxaxes := axes_of_axis? ha hbase
    have hself := (IsBackbone.step hc hxchain ha hbase).isAbove_eq_false hb hbx
    rw [ancestors_eq_cons hbase, takeWhile_cons_of_pos (by simp [hself]), mem_cons, mem_cons]
    have hrest : p ∈ c.ancestors.takeWhile (!isAbove b ·) ↔
        p ∈ c.ancestors ∧ b.axes.length ≤ p.axes.length := by
      obtain hle | hlt := le_or_gt b.axes.length c.axes.length
      · refine ih (prefix_of_prefix_length_le hbx ?_ hle)
        rw [hxaxes]
        exact prefix_append _ _
      · -- the baseline is the space itself, so the base is above it
        have hbaxes : b.axes = x.axes := by
          refine hbx.eq_of_length (le_antisymm hbx.length_le ?_)
          rw [hxaxes, length_append]
          exact hlt
        have habove := hc.isAbove_of_axes hb (hbaxes.trans hxaxes)
        obtain ⟨rest, hrest⟩ := c.ancestors_eq_self_cons
        rw [hrest, takeWhile_cons_of_neg (by simp [habove]), ← hrest]
        refine iff_of_false not_mem_nil fun hp => ?_
        have hle := (hc.of_mem_ancestors hp.1).2.length_le
        omega
    rw [hrest]
    constructor
    · rintro (rfl | ⟨hp, hlen⟩)
      · exact ⟨.inl rfl, hbx.length_le⟩
      · exact ⟨.inr hp, hlen⟩
    · rintro ⟨rfl | hp, hlen⟩
      · exact .inl rfl
      · exact .inr ⟨hp, hlen⟩

lemma IsBackbone.find?_concludes (hx : x.IsBackbone J) (hy : y.IsBackbone J) (hb : b.IsBackbone J) (hbx : b.axes <+: x.axes) (hby : b.axes <+: y.axes) :
    ∃ z ∈ x.ancestors, x.ancestors.find? (y.concludes ·) = some z ∧ b.axes <+: z.axes ∧
      ∀ p ∈ x.ancestors, p ∈ z.ancestors ↔ p.axes <+: y.axes := by
  have hconcludes : ∀ {p : Space}, p.IsBackbone J → (y.concludes p ↔ p.axes <+: y.axes) := by
    intro p hp
    rw [hy.isChain.concludes_iff hp, inflatedAncestor_of_isInflated hy.isInflated]
  have hfound : ∀ {w : Space}, w.IsBackbone J → w.axes <+: y.axes → b.axes <+: w.axes →
      ∃ z ∈ w.ancestors, w.ancestors.find? (y.concludes ·) = some z ∧ b.axes <+: z.axes ∧
        ∀ p ∈ w.ancestors, p ∈ z.ancestors ↔ p.axes <+: y.axes := by
    intro w hw hwy hbw
    refine ⟨w, mem_ancestors_self w, ?_, hbw, fun p hp => ?_⟩
    · obtain ⟨rest, hrest⟩ := w.ancestors_eq_self_cons
      rw [hrest, find?_cons_of_pos ((hconcludes hw).2 hwy)]
    · exact iff_of_true hp ((hw.of_mem_ancestors hp).2.trans hwy)
  induction hx with
  | root m =>
    have hbaxes : b.axes = (Space.root m).axes :=
      hbx.eq_of_length (le_antisymm hbx.length_le hb.axes_length_pos)
    exact hfound (.root m) (hbaxes ▸ hby) hbx
  | @step x c a hc hxchain ha hbase ih =>
    have hx : x.IsBackbone J := .step hc hxchain ha hbase
    by_cases hxy : x.axes <+: y.axes
    · exact hfound hx hxy hbx
    · have hxaxes := axes_of_axis? ha hbase
      have hlt : b.axes.length ≤ c.axes.length := by
        by_contra hgt
        refine hxy (hbx.eq_of_length (le_antisymm hbx.length_le ?_) ▸ hby)
        rw [hxaxes, length_append, length_singleton]
        omega
      have hbc : b.axes <+: c.axes := by
        refine prefix_of_prefix_length_le hbx ?_ hlt
        rw [hxaxes]
        exact prefix_append _ _
      obtain ⟨z, hz, hfind, hbz, hiff⟩ := ih hbc
      refine ⟨z, ?_, ?_, hbz, ?_⟩
      · rw [ancestors_eq_cons hbase]
        exact mem_cons_of_mem _ hz
      · rw [ancestors_eq_cons hbase, find?_cons_of_neg, hfind]
        rwa [hconcludes hx]
      · intro p hp
        rw [ancestors_eq_cons hbase] at hp
        obtain rfl | hp := mem_cons.1 hp
        · refine iff_of_false (fun hpz => hxy ?_) hxy
          obtain ⟨hzbackbone, -⟩ := hc.of_mem_ancestors hz
          exact ((hzbackbone.of_mem_ancestors hpz).2.trans ((hiff z hz).1 (mem_ancestors_self z)))
        · exact hiff p hp

lemma mem_commonAxes (hx : x.IsBackbone J) (hy : y.IsBackbone J)
    (hb : b.IsBackbone J) (hbx : b.axes <+: x.axes) (hby : b.axes <+: y.axes) :
    p ∈ commonAxes x y b ↔ p ∈ x.ancestors ∧ b.axes.length ≤ p.axes.length ∧ p.axes <+: y.axes ∧
      (p.lastStep.contracting = false ∨ p.axes = b.axes) := by
  obtain ⟨z, hz, hfind, hbz, hiff⟩ := hx.find?_concludes hy hb hbx hby
  have hzbackbone := (hx.of_mem_ancestors hz).1
  have hmem : p ∈ commonAxes x y b ↔ (p ∈ z.ancestors ∧ b.axes.length ≤ p.axes.length) ∧
      (!p.isContracting || p == b) := by
    rw [commonAxes, hfind]
    simp only [mem_reverse, mem_filter]
    rw [← hzbackbone.mem_takeWhile_iff hb hbz]
    rfl
  rw [hmem]
  constructor
  · rintro ⟨⟨hpz, hlen⟩, hkeep⟩
    have hpx := ancestors_subset hz hpz
    have hp := (hx.of_mem_ancestors hpx).1
    rw [Bool.or_eq_true, Bool.not_eq_true', hp.isChain.isContracting_eq, hp.beq_iff hb] at hkeep
    exact ⟨hpx, hlen, (hiff p hpx).1 hpz, hkeep⟩
  · rintro ⟨hpx, hlen, hpy, hkeep⟩
    have hp := (hx.of_mem_ancestors hpx).1
    rw [Bool.or_eq_true, Bool.not_eq_true', hp.isChain.isContracting_eq, hp.beq_iff hb]
    exact ⟨⟨(hiff p hpx).2 hpy, hlen⟩, hkeep⟩

end Space

end NavQuery
