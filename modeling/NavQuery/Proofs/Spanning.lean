import NavQuery.Proofs.AxisTuples
import NavQuery.Space.Weight

/-!
`spans` compares the axes of two chains: behind their common run the axes of the other chain are
contracting. So a tuple of the one chain converges with at most one tuple of the other, and convergence
carries over from a chain to a chain that spans it.
-/

namespace NavQuery

open List Space

namespace Space

variable {J : Join → Prop}

structure Step.Shows (s : Step) (a : Axis) : Prop where
  axis : s.space.axis? = some a
  contracting : s.contracting = a.contracting
  expanding : s.expanding = a.expanding

variable {s : Space} {a : Axis}

lemma isAxis_of_axis? (h : s.axis? = some a) : s.isAxis := by
  cases s <;> simp [axis?] at h <;> rfl

lemma resembles_iff_of_axis? {t : Space} {b : Axis} (hs : s.axis? = some a)
    (ht : t.axis? = some b) : s.resembles t ↔ a = b := by
  cases s <;> simp [axis?] at hs <;> cases t <;> simp [axis?] at ht <;> subst hs ht <;>
    simp [resembles]

lemma Step.Shows.resembles_iff {s t : Step} {b : Axis} (hs : s.Shows a) (ht : t.Shows b) :
    s.resembles t ↔ a = b :=
  resembles_iff_of_axis? hs.axis ht.axis

lemma IsChain.path_shows (h : s.IsChain J) : List.Forall₂ Step.Shows (s.path.filter (·.axis)) s.axes := by
  have hstep : ∀ {p : List Step} {α : List Axis} {t : Step} {a : Axis},
      List.Forall₂ Step.Shows (p.filter (·.axis)) α → t.Shows a →
        List.Forall₂ Step.Shows ((p ++ [t]).filter (·.axis)) (α ++ [a]) := by
    intro p α t a hp ht
    have haxis : t.axis := isAxis_of_axis? ht.axis
    rw [filter_append, filter_cons_of_pos haxis]
    exact rel_append hp (.cons ht .nil)
  rw [path_eq]
  induction h with
  | root m => exact .cons ⟨rfl, rfl, rfl⟩ .nil
  | scalar _ _ ih | table _ _ _ _ ih | fiber _ _ _ _ ih =>
    rw [trail, reverse_cons]
    exact hstep ih ⟨rfl, rfl, rfl⟩
  | filtered _ _ _ ih | ordered _ _ _ _ _ ih =>
    rw [trail]
    simpa [Step.axis, isAxis, axes] using ih

lemma all_contracting_iff {ss : List Step} {α : List Axis} (h : List.Forall₂ Step.Shows ss α) :
    ss.all (·.contracting) ↔ ∀ a ∈ α, a.contracting := by
  induction h with
  | nil => simp
  | cons hs _ ih => simp [ih, hs.contracting]

lemma spansAxes_iff {ss ts : List Step} {α β : List Axis} (hs : List.Forall₂ Step.Shows ss α)
    (ht : List.Forall₂ Step.Shows ts β) :
    spansAxes ss ts ↔ ∀ b ∈ β.drop (commonRun α β), b.contracting := by
  induction hs generalizing ts β with
  | nil => simpa [spansAxes, commonRun] using all_contracting_iff ht
  | @cons s a ss α hs hss ih =>
    cases ht with
    | nil => simp [spansAxes, commonRun]
    | @cons t b ts β ht hts =>
      rw [spansAxes, commonRun]
      by_cases hab : a = b
      · rw [if_pos ((hs.resembles_iff ht).2 hab), if_pos hab, ih hts, drop_succ_cons]
      · rw [if_neg (fun h => hab ((hs.resembles_iff ht).1 h)), if_neg hab, drop_zero]
        exact all_contracting_iff (.cons ht hts)

lemma IsChain.spans_iff {t : Space} (hs : s.IsChain J) (ht : t.IsChain J) :
    s.spans t ↔ ∀ a ∈ t.axes.drop (commonRun s.axes t.axes), a.contracting :=
  spansAxes_iff hs.path_shows ht.path_shows

end Space

namespace Store

variable {R V : Type} [DecidableEq R] [DecidableEq V] {D : Store R V} {J : Join → Prop}

/-- A tuple converges with at most one tuple of a chain that is spanned. -/
theorem eq_of_spans (hD : D.Contracts J) {a b : Space} (ha : a.IsChain J) (hb : b.IsChain J)
    (h : a.spans b = true) {x y z : Tuple R} (hy : y ∈ D.tuples b) (hz : z ∈ D.tuples b)
    (hxy : a.Converge b x y) (hxz : a.Converge b x z) : y = z :=
  Fits.eq_of_take_eq hD hb.chained ((ha.spans_iff hb).1 h) (fits_of_mem hb hy) (fits_of_mem hb hz)
    (hxy.symm.trans hxz)

/-- Each department determines its school. -/
theorem eq_of_spans_departments : Sample.departments.spans Sample.schools = true ∧
    [none, some (false, false), some (true, true)] ∈ Sample.store.tuples Sample.schools ∧
    ∀ z ∈ Sample.store.tuples Sample.schools,
      Sample.departments.Converge Sample.schools [none, some (false, false)] z →
        [none, some (false, false), some (true, true)] = z := by
  have hspans : Sample.departments.spans Sample.schools = true :=
    (Sample.departments_isChain.spans_iff Sample.schools_isChain).2 (by decide)
  have hmem : [none, some (false, false), some (true, true)] ∈
      Sample.store.tuples Sample.schools := by decide
  exact ⟨hspans, hmem, fun z hz => eq_of_spans Sample.contracts Sample.departments_isChain
    Sample.schools_isChain hspans hmem hz (by decide)⟩

end Store

namespace Space

variable {J : Join → Prop}

inductive Leads : Space → List Space → Space → Prop
  | nil (s : Space) : Leads s [] s
  | cons {p t s : Space} {ts : List Space} (hbase : t.base? = some p) (ht : Leads t ts s) :
    Leads p (t :: ts) s

variable {s t p : Space} {ts : List Space}

lemma Leads.snoc (h : Leads p ts s) (ht : t.base? = some s) : Leads p (ts ++ [t]) t := by
  induction h with
  | nil s => exact .cons ht (.nil t)
  | cons hbase _ ih => exact .cons hbase (ih ht)

lemma IsChain.base {b : Space} (hs : s.IsChain J) (hb : s.base? = some b) : b.IsChain J := by
  cases hs <;> cases hb <;> assumption

lemma Leads.isChain (h : Leads p ts s) (hs : s.IsChain J) : p.IsChain J := by
  induction h with
  | nil s => exact hs
  | cons hbase _ ih => exact (ih hs).base hbase

lemma exists_leads (s : Space) : ∃ m ts, s.line = .root m :: ts ∧ Leads (.root m) ts s := by
  induction s using baseInduction with
  | root m => exact ⟨m, [], rfl, .nil _⟩
  | step s b hb ih =>
    obtain ⟨m, ts, hline, hts⟩ := ih
    refine ⟨m, ts ++ [s], ?_, hts.snoc hb⟩
    rw [line, ancestors_eq_cons hb, reverse_cons, ← line, hline, cons_append]

lemma ancestors_subset (hp : p ∈ s.ancestors) : p.ancestors ⊆ s.ancestors := by
  refine forall_mem_ancestors (P := (ancestors · ⊆ s.ancestors)) (fun a b hb h => ?_) (Subset.refl _) p hp
  exact Subset.trans (subset_cons_self a _) (ancestors_eq_cons hb ▸ h)

lemma leads_of_mem (ht : t ∈ s.ancestors) : ∃ ts, Leads t ts s := by
  induction s using baseInduction with
  | root m =>
    obtain rfl : t = .root m := by simpa [ancestors] using ht
    exact ⟨[], .nil _⟩
  | step s b hb ih =>
    obtain rfl | ht := mem_cons.1 (ancestors_eq_cons hb ▸ ht)
    · exact ⟨[], .nil _⟩
    · obtain ⟨ts, hts⟩ := ih ht
      exact ⟨_, hts.snoc hb⟩

lemma Leads.mem_ancestors_or (h : Leads p ts s) (ht : t ∈ s.ancestors) : t ∈ p.ancestors ∨ t ∈ ts := by
  induction h with
  | nil s => exact .inl ht
  | cons hbase hts ih =>
    obtain h | h := ih ht
    · rw [ancestors_eq_cons hbase] at h
      obtain rfl | h := mem_cons.1 h
      · exact .inr mem_cons_self
      · exact .inl h
    · exact .inr (mem_cons_of_mem _ h)

variable {b : Space}

lemma axesOnly_of_axis (hb : s.base? = some b) (haxis : s.isAxis) :
    s.axesOnly = s.withBase b.axesOnly := by
  cases s <;> cases haxis <;> cases hb <;> rw [axesOnly, Space.withBase]

lemma axesOnly_of_not_axis (hb : s.base? = some b) (haxis : s.isAxis = false) : s.axesOnly = b.axesOnly := by
  cases s <;> cases haxis <;> cases hb <;> rw [axesOnly]

lemma axesOnly_of_isInflated (h : s.isInflated) : s.axesOnly = s := by
  induction s using baseInduction with
  | root m => rw [axesOnly]
  | step s b hb ih =>
    rw [isInflated, ancestors_eq_cons hb, all_cons, Bool.and_eq_true_iff] at h
    rw [axesOnly_of_axis hb h.1, ih h.2]
    cases s <;> cases hb <;> rfl

def lastStep : Space → Step
  | scalar m b => ⟨scalar m b, true, true⟩
  | fiber m b j => ⟨fiber m b j, j.contracting, j.expanding⟩
  | filtered m b f => ⟨filtered m b f, true, false⟩
  | ordered m b os l o => ⟨ordered m b os l o, true, l.isNone && o.isNone⟩
  | s => ⟨s, false, false⟩

@[simp] lemma lastStep_space (s : Space) : s.lastStep.space = s := by cases s <;> rfl

lemma IsChain.path_eq_map (h : s.IsChain J) : s.path = s.line.map lastStep := by
  rw [path_eq, line, map_reverse]
  congr 1
  induction h with
  | root m => rfl
  | scalar m _ ih | table m t _ _ ih | fiber m _ _ _ ih | filtered m f _ ih
  | ordered m os l o _ ih =>
    rw [trail, ih]
    rfl

lemma expanding_of_axis? {a : Axis} (h : s.axis? = some a) : s.lastStep.expanding = a.expanding := by
  cases s <;> cases h <;> rfl

lemma axes_eq_or (hs : s.IsChain J) (hb : s.base? = some b) :
    (∃ a, s.axis? = some a ∧ s.axes = b.axes ++ [a]) ∨ (s.isAxis = false ∧ s.axes = b.axes) := by
  cases hs <;> cases hb <;> first | exact .inl ⟨_, rfl, rfl⟩ | exact .inr ⟨rfl, rfl⟩

lemma Leads.axes_start (h : Leads p ts s) (hs : s.IsChain J) : p.axes <+: s.axes := by
  induction h with
  | nil s => exact prefix_rfl
  | cons hbase hts ih =>
    refine List.IsPrefix.trans ?_ (ih hs)
    obtain ⟨a, -, ha⟩ | ⟨-, ha⟩ := axes_eq_or (hts.isChain hs) hbase
    · exact ⟨[a], ha.symm⟩
    · exact ha ▸ prefix_rfl

lemma Leads.expanding (h : Leads p ts s) (hs : s.IsChain J) (he : ∀ t ∈ ts, t.lastStep.expanding) :
    ∀ a ∈ s.axes.drop p.axes.length, a.expanding := by
  induction h with
  | nil s => simp
  | @cons p t s ts hbase hts ih =>
    have ih := ih hs fun u hu => he u (mem_cons_of_mem t hu)
    obtain ⟨a, hta, ha⟩ | ⟨-, ha⟩ := axes_eq_or (hts.isChain hs) hbase
    · obtain ⟨β, hβ⟩ := hts.axes_start hs
      rw [← hβ, ha, append_assoc, drop_left]
      rw [← hβ, drop_left] at ih
      intro c hc
      obtain rfl | hc := mem_cons.1 hc
      · rw [← expanding_of_axis? hta]
        exact he t mem_cons_self
      · exact ih c hc
    · rwa [← ha]

end Space

namespace Store

variable {R V : Type} [DecidableEq R] [DecidableEq V] {D : Store R V} {J : Join → Prop}

variable {x y : Tuple R} {s b a : Space}

lemma length_of_mem (hs : s.IsChain J) (h : x ∈ D.tuples s) : x.length = s.axes.length :=
  (fits_of_mem hs h).length_eq

/-- A row behind the last step starts with a row of the base. -/
theorem take_mem_base (hs : s.IsChain J) (hb : s.base? = some b)
    (hx : x ∈ D.tuples s) : x.take b.axes.length ∈ D.tuples b := by
  have hchain : b.IsChain J := hs.base hb
  have hfits := fits_of_mem hs hx
  cases hs with
  | root m => cases hb
  | scalar _ _ | table _ _ _ _ | fiber _ _ _ _ => exact (mem_tuples_axis_iff_take rfl hb hfits).1 hx
  | filtered m f _ =>
    cases hb
    have hy := (D.mem_tuples_filtered.1 hx).1
    rwa [← length_of_mem hchain hy, take_length]
  | ordered m os l o _ =>
    cases hb
    have hy := D.mem_of_mem_ordered hx
    rwa [← length_of_mem hchain hy, take_length]

/-- Rows behind a space start with a row of the space. -/
theorem take_mem_of_leads {p s : Space} {ts : List Space} (h : Space.Leads p ts s)
    (hs : s.IsChain J) {x : Tuple R} (hx : x ∈ D.tuples s) :
    x.take p.axes.length ∈ D.tuples p := by
  induction h with
  | nil s => rwa [← length_of_mem hs hx, take_length]
  | @cons p t s ts hbase hts ih =>
    have hle : p.axes.length ≤ t.axes.length :=
      ((Space.Leads.cons hbase (.nil t)).axes_start (hts.isChain hs)).length_le
    have hp := take_mem_base (hts.isChain hs) hbase (ih hs hx)
    rwa [take_take, min_eq_left hle] at hp

/-- Along expanding steps the rows are all that fit. -/
theorem mem_of_leads {p s : Space} {ts : List Space} (h : Space.Leads p ts s)
    (hs : s.IsChain J) (he : ∀ t ∈ ts, t.lastStep.expanding) {x : Tuple R}
    (hp : x.take p.axes.length ∈ D.tuples p) (hx : D.Fits none s.axes x) : x ∈ D.tuples s := by
  induction h with
  | nil s => rwa [← hx.length_eq, take_length] at hp
  | @cons p t s ts hbase hts ih =>
    refine ih hs (fun u hu => he u (mem_cons_of_mem t hu)) ?_ hx
    have hexp := he t mem_cons_self
    obtain ⟨β, hβ⟩ := hts.axes_start hs
    have ht : D.Fits none t.axes (x.take t.axes.length) := by
      have := (hx.split t.axes.length).1
      rwa [← hβ, take_left] at this
    have hstart : (x.take t.axes.length).take p.axes.length ∈ D.tuples p := by
      rwa [take_take, min_eq_left]
      exact ((Space.Leads.cons hbase (.nil t)).axes_start (hts.isChain hs)).length_le
    cases hts.isChain hs with
    | root m => cases hbase
    | scalar _ _ | fiber _ _ _ _ => exact (mem_tuples_axis_iff_take rfl hbase ht).2 hstart
    | table _ _ _ _ | filtered _ _ _ => cases hexp
    | ordered m os l o _ =>
      cases hbase
      have hunsliced : (l.isNone && o.isNone) := hexp
      rw [tuples, if_pos hunsliced]
      exact hp

lemma axes_eq_of_resembles {s t p q : Space} (hs : s.IsChain J) (ht : t.IsChain J)
    (hp : s.base? = some p) (hq : t.base? = some q) (h : s.resembles t)
    (haxes : p.axes = q.axes) : s.axes = t.axes := by
  cases hs <;> cases ht <;> simp [Space.resembles] at h <;> cases hp <;> cases hq <;>
    simp_all [Space.axes]

/-- A row of the one step is a row of a step alike whose base has its start, unless a range is cut. -/
theorem mem_of_resembles {s t p q : Space} (hs : s.IsChain J) (ht : t.IsChain J)
    (hp : s.base? = some p) (hq : t.base? = some q) (h : s.resembles t)
    (haxes : p.axes = q.axes) {y : Tuple R} (hy : y ∈ D.tuples t)
    (hstart : y.take p.axes.length ∈ D.tuples p)
    (hcut : s.isCommutative = false → y ∈ D.tuples s) : y ∈ D.tuples s := by
  have hfits : D.Fits none s.axes y :=
    axes_eq_of_resembles hs ht hp hq h haxes ▸ fits_of_mem ht hy
  have hwhole : ∀ {x : Tuple R}, x ∈ D.tuples q → x.take p.axes.length = x := by
    intro x hx
    rw [haxes, ← length_of_mem (ht.base hq) hx, take_length]
  cases hs with
  | root m => cases hp
  | scalar _ _ | table _ _ _ _ | fiber _ _ _ _ => exact (mem_tuples_axis_iff_take rfl hp hfits).2 hstart
  | filtered m f _ =>
    cases ht with
    | filtered n g _ =>
      cases hp
      cases hq
      obtain ⟨hy, htrue⟩ := D.mem_tuples_filtered.1 hy
      rw [hwhole hy] at hstart
      refine D.mem_tuples_filtered.2 ⟨hstart, ?_⟩
      rwa [D.value_of_beq h, D.value_congr haxes]
    | _ => simp [Space.resembles] at h
  | ordered m os l o _ =>
    cases ht with
    | ordered n ps k i _ =>
      cases hp
      cases hq
      rw [hwhole (D.mem_of_mem_ordered hy)] at hstart
      cases hsliced : l.isNone && o.isNone with
      | true => rwa [tuples, if_pos hsliced]
      | false => exact hcut hsliced
    | _ => simp [Space.resembles] at h

lemma axes_eq_of_not_axis {t q : Space} (ht : t.IsChain J) (hq : t.base? = some q)
    (h : t.isAxis = false) : t.axes = q.axes := by
  obtain ⟨a, hta, -⟩ | ⟨-, heq⟩ := Space.axes_eq_or ht hq
  · rw [Space.isAxis_of_axis? hta] at h
    cases h
  · exact heq

/-- The steps of a chain that are matched with steps of another chain, and what remains is expanding.
Rows of the other chain start with rows of the matched steps, unless a range cuts them off. -/
theorem exists_matched_of_dominatesSteps {a b : Space} (ha : a.IsChain J) (hb : b.IsChain J)
    {p q : Space} {ss ts : List Space} (hp : Space.Leads p ss a) (hq : Space.Leads q ts b)
    (haxes : p.axes = q.axes)
    (h : dominatesSteps (ss.map Space.lastStep) (ts.map Space.lastStep)) :
    ∃ p' ss', Space.Leads p' ss' a ∧ (∀ s ∈ ss', s.lastStep.expanding) ∧ p'.axes <+: b.axes ∧
      ∀ y ∈ D.tuples b, y.take p.axes.length ∈ D.tuples p →
        (∀ s ∈ ss, s.isCommutative = false → y.take s.axes.length ∈ D.tuples s) →
          y.take p'.axes.length ∈ D.tuples p' := by
  induction ts generalizing p q ss with
  | nil =>
    refine ⟨p, ss, hp, ?_, haxes ▸ hq.axes_start hb, fun _ _ hstart _ => hstart⟩
    cases ss <;> simp_all [dominatesSteps]
  | cons t ts ih =>
    cases ss with
    | nil => exact ⟨p, [], hp, nofun, haxes ▸ hq.axes_start hb, fun _ _ hstart _ => hstart⟩
    | cons s ss =>
      cases hp with
      | cons hsp hss =>
      cases hq with
      | cons htq hts =>
      have hs := hss.isChain ha
      have ht := hts.isChain hb
      rw [map_cons, map_cons, dominatesSteps] at h
      split at h
      · rename_i hres
        simp only [Space.Step.resembles, Space.lastStep_space] at hres
        have heq := axes_eq_of_resembles hs ht hsp htq hres haxes
        obtain ⟨p', ss', hp', hexp, hcommon, hrows⟩ := ih hss hts heq h
        refine ⟨p', ss', hp', hexp, hcommon, fun y hy hstart hcut => hrows y hy ?_
          fun u hu => hcut u (mem_cons_of_mem s hu)⟩
        have hle : q.axes.length ≤ t.axes.length :=
          ((Space.Leads.cons htq (.nil t)).axes_start ht).length_le
        have hstart' : (y.take t.axes.length).take p.axes.length ∈ D.tuples p := by
          rwa [take_take, haxes, min_eq_left hle, ← haxes]
        rw [heq]
        exact mem_of_resembles hs ht hsp htq hres haxes (take_mem_of_leads hts hb hy) hstart'
          (heq ▸ hcut s mem_cons_self)
      · split at h
        · rename_i hskip
          have hnot : t.isAxis = false := by
            simp only [Bool.and_eq_true, Bool.not_eq_true', Space.Step.axis,
              Space.lastStep_space] at hskip
            exact hskip.1
          exact ih (.cons hsp hss) hts (haxes.trans (axes_eq_of_not_axis ht htq hnot).symm) h
        · refine ⟨p, s :: ss, .cons hsp hss, ?_, ?_, fun _ _ hstart _ => hstart⟩
          · rw [Bool.and_eq_true, all_eq_true] at h
            exact fun u hu => h.1 _ (mem_map_of_mem hu)
          · exact haxes ▸ (Space.Leads.cons htq hts).axes_start hb

lemma exists_matched_of_dominates {a b : Space} (ha : a.IsChain J) (hb : b.IsChain J)
    (h : a.dominates b) :
    ∃ p ss, Space.Leads p ss a ∧ (∀ s ∈ ss, s.lastStep.expanding) ∧ p.axes <+: b.axes ∧ ∀ y ∈ D.tuples b,
        (∀ s ∈ a.ancestors, s.isCommutative = false → y.take s.axes.length ∈ D.tuples s) →
          y.take p.axes.length ∈ D.tuples p := by
  obtain ⟨m, ss, hss, hma⟩ := a.exists_leads
  obtain ⟨n, ts, hts, hnb⟩ := b.exists_leads
  rw [dominates, ha.path_eq_map, hb.path_eq_map, hss, hts, map_cons, map_cons,
    dominatesSteps, if_pos (by rfl)] at h
  obtain ⟨p, rest, hp, hexp, hcommon, hrows⟩ :=
    exists_matched_of_dominatesSteps (D := D) ha hb hma hnb rfl h
  refine ⟨p, rest, hp, hexp, hcommon, fun y hy hcut => hrows y hy ?_ fun s hs => hcut s ?_⟩
  · exact take_mem_of_leads hnb hb hy
  · rw [← mem_reverse, ← Space.line, hss]
    exact mem_cons_of_mem _ hs

/-- A tuple that starts with a row of a chain, before expanding steps, converges with a row of it. -/
theorem exists_converge_of_start (hD : D.Expands J) {p : Space} {ss : List Space}
    (ha : a.IsChain J) (hp : Space.Leads p ss a)
    (hexpanding : ∀ s ∈ ss, s.lastStep.expanding) (hcommon : p.axes <+: b.axes) (hy : D.Fits none b.axes y) (hstart : y.take p.axes.length ∈ D.tuples p) :
    ∃ x ∈ D.tuples a, a.Converge b x y := by
  -- The tuple goes on as the given one while the axes are common, then along expanding axes.
  let k := commonRun a.axes b.axes
  have hlength : (y.take k).length = k := by
    rw [length_take, hy.length_eq, min_eq_left (commonRun_le_right _ _)]
  have hle : p.axes.length ≤ k := by
    have hpa := hp.axes_start ha
    exact le_commonRun_iff.2 ⟨hpa.length_le, hcommon.length_le,
      (prefix_iff_eq_take.1 hpa).symm.trans (prefix_iff_eq_take.1 hcommon)⟩
  have hrun : D.Fits none (a.axes.take k) (y.take k) := by
    rw [take_commonRun]
    exact (hy.split k).1
  have hchained := ha.chained
  rw [← take_append_drop k a.axes, chained_append] at hchained
  obtain ⟨z, hz⟩ := Fits.exists_of_expanding hD (hrun.sits (sits_none none)) hchained.2
    fun c hc => hp.expanding ha hexpanding c (drop_subset_drop_left _ hle hc)
  have hfits : D.Fits none a.axes (y.take k ++ z) := by
    rw [← take_append_drop k a.axes, fits_append]
    exact ⟨y.take k, z, rfl, hrun, hz⟩
  refine ⟨y.take k ++ z, mem_of_leads hp ha hexpanding ?_ hfits, ?_⟩
  · rwa [take_append_of_le_length (hlength.symm ▸ hle), take_take, min_eq_left hle]
  · change (y.take k ++ z).take k = y.take k
    rw [take_append_of_le_length hlength.ge, take_take, min_self]

/-- Every row of a chain that no range of a dominating chain cuts off converges with a row of the
dominating chain. -/
theorem exists_converge_of_uncut (hD : D.Expands J) (ha : a.IsChain J)
    (hb : b.IsChain J) (h : a.dominates b) (hy : y ∈ D.tuples b)
    (hcut : ∀ s ∈ a.ancestors, s.isCommutative = false → y.take s.axes.length ∈ D.tuples s) :
    ∃ x ∈ D.tuples a, a.Converge b x y := by
  obtain ⟨p, ss, hp, hexp, hcommon, hrows⟩ := exists_matched_of_dominates (D := D) ha hb h
  exact exists_converge_of_start hD ha hp hexp hcommon (fits_of_mem hb hy) (hrows y hy hcut)

/-- A row that converges with a row of a dominating chain is not cut off by a range of that chain. -/
theorem take_mem_of_converge (ha : a.IsChain J) (hb : b.IsChain J)
    (h : a.dominates b) (hx : x ∈ D.tuples a) (hxy : a.Converge b x y) (hs : s ∈ a.ancestors) (hsliced : s.isCommutative = false) :
    y.take s.axes.length ∈ D.tuples s := by
  obtain ⟨p, ss, hp, hexp, hcommon, -⟩ := exists_matched_of_dominates (D := D) ha hb h
  obtain ⟨us, hsa⟩ := leads_of_mem hs
  have hsp : s ∈ p.ancestors := by
    obtain hsp | hss := hp.mem_ancestors_or hs
    · exact hsp
    · have := hexp s hss
      cases s <;> simp_all [Space.lastStep, isCommutative]
  obtain ⟨vs, hsp⟩ := leads_of_mem hsp
  have hle : s.axes.length ≤ commonRun a.axes b.axes := by
    have hsa := hsa.axes_start ha
    have hsb := (hsp.axes_start (hp.isChain ha)).trans hcommon
    exact le_commonRun_iff.2 ⟨hsa.length_le, hsb.length_le,
      (prefix_iff_eq_take.1 hsa).symm.trans (prefix_iff_eq_take.1 hsb)⟩
  have hxs := take_mem_of_leads hsa ha hx
  rwa [← min_eq_left hle, ← take_take, hxy, take_take, min_eq_left hle] at hxs

/-- A row of a chain converges with a row of a chain that dominates it exactly if no range of the
dominating chain cuts its start off. So none is lost if the other chain has the same ranges of the same
rows. -/
theorem exists_converge_iff_of_dominates (hD : D.Expands J) {a b : Space} (ha : a.IsChain J)
    (hb : b.IsChain J) (h : a.dominates b = true) {y : Tuple R} (hy : y ∈ D.tuples b) :
    ((∃ x ∈ D.tuples a, a.Converge b x y) ↔
      ∀ s ∈ a.ancestors, s.isCommutative = false → y.take s.axes.length ∈ D.tuples s) ∧
    ((∀ s ∈ a.ancestors, s.isCommutative = false → b.concludes s = true) →
      ∃ x ∈ D.tuples a, a.Converge b x y) := by
  refine ⟨⟨?_, exists_converge_of_uncut hD ha hb h hy⟩, fun hcut => ?_⟩
  · rintro ⟨x, hx, hxy⟩ s hs hsliced
    exact take_mem_of_converge ha hb h hx hxy hs hsliced
  · refine exists_converge_of_uncut hD ha hb h hy fun s hs hsliced => ?_
    obtain ⟨u, hu, hus⟩ := any_eq_true.1 (hcut s hs hsliced)
    obtain ⟨us, hub⟩ := leads_of_mem hu
    rw [← D.tuples_of_beq hus, ← axes_of_beq hus]
    exact take_mem_of_leads hub hb hy

/-- The school of the first department is a row behind that department, whatever is filtered after. -/
theorem exists_converge_iff_of_dominates_range :
    let first : Space := .ordered .nowhere Sample.departments [] (some 1) none
    let a : Space := .fiber .nowhere first Sample.home
    let b : Space := .filtered .nowhere first (.literal .nowhere .boolean (.boolean true))
    a.dominates b = true ∧ [none, some (false, false)] ∈ Sample.store.tuples b ∧
      (∀ s ∈ a.ancestors, s.isCommutative = false → b.concludes s = true) ∧
      ∃ x ∈ Sample.store.tuples a, a.Converge b x [none, some (false, false)] := by
  intro first a b
  have hfirst : first.IsChain (· = Sample.home) := .ordered _ _ _ _ Sample.departments_isChain
  have ha : a.IsChain (· = Sample.home) := .fiber _ hfirst rfl rfl
  have hb : b.IsChain (· = Sample.home) := .filtered _ _ hfirst
  have hdominates : a.dominates b = true := by
    decide
  have htuples : Sample.store.tuples first = [[none, some (false, false)]] := by
    rw [tuples, mergeSort_of_pairwise (by decide)]
    rfl
  have hmem : [none, some (false, false)] ∈ Sample.store.tuples b := by
    rw [Sample.store.mem_tuples_filtered, htuples]
    decide
  have hcut : ∀ s ∈ a.ancestors, s.isCommutative = false → b.concludes s = true := by decide
  exact ⟨hdominates, hmem, hcut,
    (exists_converge_iff_of_dominates Sample.expands ha hb hdominates hmem).2 hcut⟩

/-- A range is cut from other rows where a filter stands before it: the first open department is not the
first department, though the one range dominates the other. -/
theorem not_converge_of_dominates_range :
    let a : Space := .ordered .nowhere Sample.departments [] (some 1) none
    let b : Space := .ordered .nowhere Sample.openDepartments [] (some 1) none
    a.IsChain (· = Sample.home) ∧ b.IsChain (· = Sample.home) ∧ a.dominates b = true ∧
      ∃ y ∈ Sample.store.tuples b, ∀ x ∈ Sample.store.tuples a, ¬ a.Converge b x y := by
  intro a b
  have ha : a.IsChain (· = Sample.home) := .ordered _ _ _ _ Sample.departments_isChain
  have hb : b.IsChain (· = Sample.home) :=
    .ordered _ _ _ _ (.filtered _ _ Sample.departments_isChain)
  have htuples : Sample.store.tuples a = [[none, some (false, false)]] := by
    rw [tuples, mergeSort_of_pairwise (by decide)]
    rfl
  have hothers : Sample.store.tuples b = [[none, some (false, true)]] := by
    rw [tuples, mergeSort_of_pairwise (by decide)]
    rfl
  refine ⟨ha, hb, ?_, [none, some (false, true)], by simp [hothers], ?_⟩
  · rw [dominates, ha.path_eq_map, hb.path_eq_map]
    decide
  · rw [htuples]
    decide

end Store

section CommonRun

variable {α β γ : List Axis}

lemma min_commonRun_le (α β γ : List Axis) : min (commonRun α β) (commonRun β γ) ≤ commonRun α γ := by
  obtain ⟨hα, -, hαβ⟩ := le_commonRun_iff.1 (min_le_left (commonRun α β) (commonRun β γ))
  obtain ⟨-, hγ, hβγ⟩ := le_commonRun_iff.1 (min_le_right (commonRun α β) (commonRun β γ))
  exact le_commonRun_iff.2 ⟨hα, hγ, hαβ.trans hβγ⟩

lemma commonRun_eq_length (h : α <+: β) : commonRun α β = α.length :=
  le_antisymm (commonRun_le_left α β) (le_commonRun_iff.2 ⟨le_rfl, h.length_le, by
      rw [take_length]
      exact prefix_iff_eq_take.1 h⟩)

lemma commonRun_le_of_start (h : α <+: β) (γ : List Axis) : commonRun α γ ≤ commonRun β γ := by
  have hmin := min_commonRun_le β α γ
  rw [commonRun_comm β α, commonRun_eq_length h, min_eq_right (commonRun_le_left α γ)] at hmin
  exact hmin

end CommonRun

namespace Store

variable {R V : Type} [DecidableEq V] {D : Store R V} {J : Join → Prop}

/-- Tuples that agree up to contracting axes agree on all common axes. -/
theorem take_commonRun_eq (hD : D.Contracts J) {α β : List Axis} {x y : Tuple R} {k : Nat}
    (hβ : Chained J none β) (hx : D.Fits none α x) (hy : D.Fits none β y)
    (hc : ∀ a ∈ β.drop k, a.contracting)
    (h : x.take (min k (commonRun α β)) = y.take (min k (commonRun α β))) :
    x.take (commonRun α β) = y.take (commonRun α β) := by
  have hchained : Chained J none (β.take (commonRun α β)) := by
    rw [← take_append_drop (commonRun α β) β, chained_append] at hβ
    exact hβ.1
  have hx' : D.Fits none (β.take (commonRun α β)) (x.take (commonRun α β)) := by
    rw [← take_commonRun]
    exact (hx.split _).1
  have hrest : ∀ a ∈ (β.take (commonRun α β)).drop k, a.contracting := by
    intro a ha
    rw [drop_take] at ha
    exact hc a (mem_of_mem_take ha)
  refine hx'.eq_of_take_eq hD hchained hrest (hy.split _).1 ?_
  rwa [take_take, take_take]

end Store

namespace Space

variable {R V : Type} [DecidableEq V] {D : Store R V} {J : Join → Prop} {s t : Space} {x y : Tuple R}

lemma Converge.symm (h : s.Converge t x y) : t.Converge s y x := by
  rw [Converge, commonRun_comm]
  exact Eq.symm h

lemma Converge.start {p : Space} (h : s.Converge t x y)
    (hp : p.axes <+: s.axes) : p.Converge t (x.take p.axes.length) y := by
  have hle := commonRun_le_of_start hp t.axes
  have htake := congrArg (List.take (commonRun p.axes t.axes)) h
  rw [take_take, take_take, min_eq_left hle] at htake
  rw [Converge, take_take, min_eq_left (commonRun_le_left _ _), htake]

lemma Converge.of_spans (hD : D.Contracts J) {u : Space} (hs : s.IsChain J) (hu : u.IsChain J)
    (hsu : s.spans u) {z : Tuple R} (hy : D.Fits none u.axes y)
    (hz : D.Fits none t.axes z) (hxy : s.Converge u x y) (hxz : s.Converge t x z) :
    u.Converge t y z := by
  have hle : min (commonRun s.axes u.axes) (commonRun t.axes u.axes) ≤ commonRun s.axes t.axes := by
    rw [commonRun_comm t.axes]
    exact min_commonRun_le _ _ _
  refine Converge.symm (D.take_commonRun_eq hD hu.chained hz hy ((hs.spans_iff hu).1 hsu) ?_)
  have hxy' := congrArg (List.take (min (commonRun s.axes u.axes) (commonRun t.axes u.axes))) hxy
  have hxz' := congrArg (List.take (min (commonRun s.axes u.axes) (commonRun t.axes u.axes))) hxz
  rw [take_take, take_take, min_eq_left (min_le_left _ _)] at hxy'
  rw [take_take, take_take, min_eq_left hle] at hxz'
  exact hxz'.symm.trans hxy'

lemma Converge.of_start (hD : D.Contracts J) {p u : Space} (hchain : p.IsChain J)
    (hu : u.IsChain J) (hp : p.axes <+: s.axes) (hpu : p.spans u)
    (hx : D.Fits none s.axes x) (hy : D.Fits none u.axes y)
    (h : p.Converge u (x.take p.axes.length) y) : s.Converge u x y := by
  refine D.take_commonRun_eq hD hu.chained hx hy ((hchain.spans_iff hu).1 hpu) ?_
  rw [Converge, take_take, min_eq_left (commonRun_le_left _ _)] at h
  rwa [min_eq_left (commonRun_le_of_start hp _)]

end Space

namespace Store

variable {R V : Type} [DecidableEq R] [DecidableEq V] (D : Store R V) {J : Join → Prop}

/-- The last row of the tuple of a space that converges with a tuple of another space. -/
def rowOf (u s : Space) (x : Tuple R) : Option R := Tuple.pick s x u (D.tuples u)

lemma value_column (m : Mark) (d : Domain) (c : Column) (u s : Space) (x : Tuple R) :
    D.value (.column m d c u) s x = (D.rowOf u s x).elim D.engine.null (D.cell · c) := by
  rw [value, rowOf]

variable {u s : Space} {x : Tuple R}

lemma rowOf_of_beq {v : Space} (h : (u == v)) (s : Space) (x : Tuple R) :
    D.rowOf u s x = D.rowOf v s x := by
  rw [rowOf, rowOf, D.tuples_of_beq h, Tuple.pick_congr rfl (Space.axes_of_beq h)]

variable {D}

lemma rowOf_eq_none (h : ∀ y ∈ D.tuples u, ¬ s.Converge u x y) : D.rowOf u s x = none := by
  have hfind : (D.tuples u).find? (s.Converge u x ·) = none := by
    simpa using h
  rw [rowOf, Tuple.pick, hfind, Option.bind_none]

lemma exists_of_rowOf {r : R} (h : D.rowOf u s x = some r) :
    ∃ y ∈ D.tuples u, s.Converge u x y ∧ y.last = some r := by
  obtain ⟨y, hy, hlast⟩ := Option.bind_eq_some_iff.1 h
  exact ⟨y, mem_of_find?_eq_some hy, by simpa using find?_some hy, hlast⟩

lemma rowOf_eq_last (hD : D.Contracts J) (hs : s.IsChain J) (hu : u.IsChain J)
    (hsu : s.spans u) {y : Tuple R} (hy : y ∈ D.tuples u) (hxy : s.Converge u x y) :
    D.rowOf u s x = y.last := by
  obtain ⟨z, hz⟩ : ∃ z, (D.tuples u).find? (s.Converge u x ·) = some z := by
    rw [← Option.isSome_iff_exists, find?_isSome]
    exact ⟨y, hy, by simpa using hxy⟩
  have hxz : s.Converge u x z := by simpa using find?_some hz
  have hzy : z = y := Fits.eq_of_take_eq hD hu.chained ((hs.spans_iff hu).1 hsu)
    (fits_of_mem hu (mem_of_find?_eq_some hz)) (fits_of_mem hu hy)
    ((Eq.symm hxz).trans hxy)
  rw [rowOf, Tuple.pick, hz, Option.bind_some, hzy]

lemma rowOf_eq (hD : D.Contracts J) {v t : Space} (hs : s.IsChain J) (hu : u.IsChain J)
    (ht : t.IsChain J) (hv : v.IsChain J) (hsu : s.spans u) (htv : t.spans v)
    {z : Tuple R}
    (h : ∀ y, y ∈ D.tuples u ∧ s.Converge u x y ↔ y ∈ D.tuples v ∧ t.Converge v z y) :
    D.rowOf u s x = D.rowOf v t z := by
  by_cases hy : ∃ y, y ∈ D.tuples u ∧ s.Converge u x y
  · obtain ⟨y, hyu, hxy⟩ := hy
    obtain ⟨hyv, hzy⟩ := (h y).1 ⟨hyu, hxy⟩
    rw [rowOf_eq_last hD hs hu hsu hyu hxy, rowOf_eq_last hD ht hv htv hyv hzy]
  · have hu' : ∀ y ∈ D.tuples u, ¬ s.Converge u x y := fun y hyu hxy => hy ⟨y, hyu, hxy⟩
    have hv' : ∀ y ∈ D.tuples v, ¬ t.Converge v z y :=
      fun y hyv hzy => hy ⟨y, (h y).2 ⟨hyv, hzy⟩⟩
    rw [rowOf_eq_none hu', rowOf_eq_none hv']

end Store

end NavQuery
