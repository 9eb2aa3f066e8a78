import NavQuery.Proofs.KeySeams

/-!
Where a trunk does not show the first axis of a shoot, this axis is a join from a space that the trunk
determines. The joints may start from an axis of the trunk instead that is joined to the same space by the
same columns. An axis that neither adds nor drops rows needs no join with its base at all.
-/

namespace NavQuery

open List Tuple

structure Join.IsFormed (j : Join) : Prop where
  origin : j.originColumns ⊆ j.origin.columns
  target : j.targetColumns ⊆ j.target.columns
  nonempty : j.originColumns.zip j.targetColumns ≠ []

def Join.pairs (j : Join) : List (Column × Column) := j.originColumns.zip j.targetColumns

lemma Join.IsFormed.of_mem_pairs {j : Join} (h : j.IsFormed) {p : Column × Column}
    (hp : p ∈ j.pairs) : p.1 ∈ j.origin.columns ∧ p.2 ∈ j.target.columns := by
  obtain ⟨ho, ht⟩ := of_mem_zip hp
  exact ⟨h.origin ho, h.target ht⟩

namespace Space

variable {J : Join → Prop} {s b : Space}

lemma IsChain.root_start (h : s.IsChain J) : [Axis.root] <+: s.axes := by
  induction h with
  | root m => exact prefix_rfl
  | scalar m _ ih | table m t _ _ ih | fiber m _ _ _ ih => exact ih.trans (prefix_append _ _)
  | filtered m f _ ih | ordered m os l o _ ih => exact ih

/-- Behind unit rows there are only unit rows, unless a table comes. -/
theorem tableAfter_none {α : List Axis} (hα : Chained J none α)
    (hc : ∀ a ∈ α, a.contracting) : tableAfter none α = none := by
  induction α with
  | nil => rfl
  | cons a as ih =>
    have ha := hc a mem_cons_self
    have ih' := fun h => ih h fun b hb => hc b (mem_cons_of_mem a hb)
    cases a with
    | root | table _ => cases ha
    | scalar => exact ih' hα.2
    | fiber j => cases hα.1.2

variable {u c : Space} {m : Mark} {j : Join} {js : List Joint}

/-- The first axis of a shoot that the trunk does not show is a join. -/
theorem exists_tie (hs : s.IsChain J) (hu : u.IsChain J) (hb : b.IsBackbone J)
    (hspans : s.spans u) (hcolumns : u.columns ≠ []) (hbu : b.axes <+: u.axes)
    (hbs : ¬ b.axes <+: s.axes) :
    ∃ m c j, b = .fiber m c j ∧ c.IsBackbone J ∧ J j ∧ c.family.table? = some j.origin ∧
      commonRun s.axes u.axes ≤ c.axes.length := by
  cases hb with
  | root m => exact absurd hs.root_start hbs
  | @step _ c a hc hchain ha hbase =>
    have haxes := axes_of_axis? ha hbase
    obtain ⟨β, hβ⟩ := hbu
    have hrun : commonRun s.axes u.axes ≤ c.axes.length := by
      by_contra hlt
      refine hbs ?_
      have hle : b.axes.length ≤ commonRun s.axes u.axes := by
        rw [haxes, length_append, length_singleton]
        omega
      obtain ⟨-, -, htake⟩ := le_commonRun_iff.1 hle
      rw [← hβ, take_left] at htake
      rw [← htake]
      exact take_prefix _ _
    have hrest : ∀ a' ∈ a :: β, a'.contracting := by
      intro a' ha'
      refine (hs.spans_iff hu).1 hspans a' (drop_subset_drop_left _ hrun ?_)
      rwa [← hβ, haxes, append_assoc, drop_left]
    have hcontracting := hrest a mem_cons_self
    cases hchain with
    | root m => cases hbase
    | scalar m hd =>
      cases hbase
      cases ha
      refine absurd ?_ hcolumns
      have hchained := hu.chained
      rw [← hβ, haxes, chained_append, tableAfter_append] at hchained
      rw [columns, hu.table?_eq, ← hβ, haxes, tableAfter_append, tableAfter_append]
      exact congrArg (·.elim [] Table.columns) (tableAfter_none hchained.2
        fun a' ha' => hrest a' (mem_cons_of_mem _ ha'))
    | table m t _ _ =>
      cases ha
      cases hcontracting
    | @fiber m d j hd hj fits =>
      cases hbase
      exact ⟨m, c, j, rfl, hc, hj, table?_of_check fits, hrun⟩
    | filtered _ _ _ | ordered _ _ _ _ _ => cases ha

lemma hidden_fiber (m : Mark) (b : Space) (j : Join) : (fiber m b j).hidden = b.axes.length := by
  rw [hidden, axes, length_append, length_singleton, Nat.add_sub_cancel]

def tieJoints (m : Mark) (b c : Space) (ps : List (Column × Column)) : List Joint :=
  ps.map fun p => ⟨.ofColumn p.1 b m, .ofColumn p.2 c m⟩

lemma baseJoints_fiber (hb : b.IsBackbone J) (h : (fiber m b j).IsBackbone J) :
    (fiber m b j).baseJoints = .ok (tieJoints m b (.fiber m b j) j.pairs) := by
  rw [baseJoints, hb.inflate_eq, h.inflate_eq]
  rfl

lemma inflate_concludes_iff (hs : s.IsChain J) (hc : c.IsBackbone J) :
    s.inflate.concludes c ↔ c.axes <+: s.axes := by
  have hback := hs.axesOnly_isBackbone
  rw [Space.inflate_eq, hback.isChain.concludes_iff hc, inflatedAncestor_of_isInflated hback.isInflated,
    hs.axes_axesOnly]

lemma shortcut_nil (h : js ≠ []) : shortcut [] js = js := by
  cases js with
  | nil => exact absurd rfl h
  | cons j js => rfl

lemma shortcut_tie (m n : Mark) (b c d e : Space) (ps qs : List (Column × Column)) :
    shortcut (tieJoints n d e ps) (tieJoints m b c qs) = tieJoints m b c qs ∨
      ps.length = qs.length ∧ (∀ p ∈ ps.zip qs, p.1.1 = p.2.1) ∧
        shortcut (tieJoints n d e ps) (tieJoints m b c qs) = (ps.zip qs).map fun p =>
          ⟨.ofColumn p.1.2 e n, .ofColumn p.2.2 c m⟩ := by
  rw [shortcut]
  split
  · rename_i hcond
    rw [Bool.and_eq_true, decide_eq_true_eq, tieJoints, tieJoints, zip_map, all_map,
      all_eq_true, length_map, length_map] at hcond
    refine .inr ⟨hcond.1, fun p hp => ?_, ?_⟩
    · obtain ⟨_, _, heq, -⟩ := Store.column_of_beq (hcond.2 p hp)
      exact (Code.column.inj heq).2.2.1.symm
    · rw [tieJoints, tieJoints, zip_map, map_map]
      rfl
  · exact .inl rfl

lemma glue_tie (hs : s.IsChain J) (hb : b.IsBackbone J) (hc : c.IsBackbone J) (hj : j.IsFormed)
    (htie : (fiber m c j).IsBackbone J) (hnot : ¬ (fiber m c j).axes <+: s.axes)
    (h : s.glue b u (.fiber m c j) = .ok js) :
    js = tieJoints m c (.fiber m c j) j.pairs ∨
      ∃ n d k, (fiber n d k).IsBackbone J ∧ (fiber n d k).axes <+: b.axes ∧ d.axes = c.axes ∧
        k.pairs.length = j.pairs.length ∧ (∀ p ∈ k.pairs.zip j.pairs, p.1.1 = p.2.1) ∧
        js = (k.pairs.zip j.pairs).map fun p =>
          ⟨.ofColumn p.1.2 (.fiber n d k) n, .ofColumn p.2.2 (.fiber m c j) m⟩ := by
  rw [glue, if_neg (mt (inflate_concludes_iff hs htie).1 hnot), baseJoints_fiber hc htie] at h
  obtain ⟨joints, hjoints, h⟩ := exists_of_bind_eq_ok h
  cases hjoints
  simp only [base?] at h
  split at h
  · exact .inl (Except.ok.inj h).symm
  · rename_i axis hfind
    obtain ⟨tj, htj, h⟩ := exists_of_bind_eq_ok h
    cases h
    obtain ⟨haxis, hstart⟩ := hb.of_mem_ancestors (mem_of_find?_eq_some hfind)
    obtain ⟨d, hd, hdc⟩ : ∃ d, axis.base? = some d ∧ (d == c) := by
      have := find?_some hfind
      rwa [Option.any_eq_true] at this
    have hjoints : tieJoints m c (.fiber m c j) j.pairs ≠ [] := mt map_eq_nil_iff.1 hj.nonempty
    cases haxis with
    | root n => cases hd
    | step hd' hchain ha hbase =>
      obtain rfl := Option.some.inj (hbase.symm.trans hd)
      cases hchain with
      | root n => cases hbase
      | scalar n _ | table n t _ _ =>
        rw [baseJoints] at htj
        cases htj
        exact .inl (shortcut_nil hjoints)
      | @fiber n e k he hk fits =>
        cases hbase
        have hbackbone : (fiber n _ k).IsBackbone J := .step hd' (.fiber n he hk fits) ha rfl
        rw [baseJoints_fiber hd' hbackbone] at htj
        cases htj
        obtain hone | ⟨hlen, hfst, heq⟩ := shortcut_tie m n c _ _ _ k.pairs j.pairs
        · exact .inl hone
        · exact .inr ⟨n, _, k, hbackbone, hstart, axes_of_beq hdc, hlen, hfst, heq⟩
      | filtered _ _ _ | ordered _ _ _ _ _ => cases ha

end Space

namespace Store

variable {R V : Type} [DecidableEq R] [DecidableEq V] {D : Store R V} {J : Join → Prop} {j : Join} {r w : R}

omit [DecidableEq R] in
/-- A join leads from a row to another if its columns are equal. -/
theorem links_iff_pairs (hj : j.IsFormed) {row : Option R}
    (hw : w ∈ D.rows j.target) : D.Links row (.fiber j) (some w) ↔
      ∀ p ∈ j.pairs, row.elim D.engine.null (D.cell · p.1) ≠ D.engine.null ∧
        row.elim D.engine.null (D.cell · p.1) = D.cell w p.2 := by
  cases row with
  | none =>
    obtain ⟨p, hp⟩ := exists_mem_of_ne_nil _ hj.nonempty
    refine iff_of_false ?_ fun h => (h p hp).1 rfl
    rintro ⟨-, -, -, ⟨⟩⟩
  | some r =>
    constructor
    · rintro ⟨w', -, hww', hmeets⟩
      cases hww'
      exact meets_iff.1 hmeets
    · intro h
      exact ⟨w, hw, rfl, meets_iff.2 h⟩

omit [DecidableEq R] [DecidableEq V] in
/-- Where a row leads to another by the same columns, these may stand for its own. -/
theorem pairs_transfer {ps qs : List (Column × Column)} (hlen : ps.length = qs.length)
    (hfst : ∀ p ∈ ps.zip qs, p.1.1 = p.2.1) {v : R}
    (h : ∀ p ∈ ps, D.cell r p.1 ≠ D.engine.null ∧ D.cell r p.1 = D.cell v p.2) :
    (∀ p ∈ ps.zip qs, D.cell v p.1.2 ≠ D.engine.null ∧ D.cell v p.1.2 = D.cell w p.2.2) ↔
      ∀ q ∈ qs, D.cell r q.1 ≠ D.engine.null ∧ D.cell r q.1 = D.cell w q.2 := by
  induction ps generalizing qs with
  | nil =>
    obtain rfl : qs = [] := length_eq_zero_iff.1 hlen.symm
    simp
  | cons p ps ih =>
    cases qs with
    | nil => cases hlen
    | cons q qs =>
      rw [zip_cons_cons] at hfst ⊢
      have hpq := hfst (p, q) mem_cons_self
      obtain ⟨hnull, heq⟩ := h p mem_cons_self
      have ih := ih (Nat.succ.inj hlen) (fun x hx => hfst x (mem_cons_of_mem _ hx))
        fun x hx => h x (mem_cons_of_mem _ hx)
      simp only [forall_mem_cons, ih]
      rw [← heq, ← hpq]

section Ties

variable {s u bs b : Space} {m : Mark} {j : Join} {r ru : Routes} {ts tu : List Nat}
  {real realu : List (Tuple R × Showing R)} {junk junku : List (Showing R)}

variable {f : Showing R} {z : Tuple R} (shoot : D.Shows J u (.fiber m b j) ru tu realu junku)
include shoot

lemma read_tie (hj : j.IsFormed) {w : R} (hw : D.Enters (.fiber m b j) ru f (some w))
    {p : Column × Column} (hp : p ∈ j.pairs) :
    D.read ru f (.ofColumn p.2 (.fiber m b j) m) = D.cell w p.2 := by
  have hcontains := shoot.covers _ shoot.isBackbone prefix_rfl shoot.start_axes p.2
    (hj.of_mem_pairs hp).2 m
  exact hw.read_column shoot.isBackbone.isInflated rfl hcontains

variable {x : Tuple R × Showing R} {ε : Option R} {w : Tuple R}

/-- The joints of a join hold if it leads from the row that the trunk reads to the entry of the shoot. -/
theorem joins_tie_iff (trunk : D.Shows J s bs r ts real junk) (hj : j.IsFormed)
    (hleft : ∀ p ∈ j.pairs, r.contains (.ofColumn p.1 b m)) (hx : x ∈ real) (hz : z ∈ D.tuples s)
    (hzx : z.drop bs.hidden = x.1) (hε : D.Enters (.fiber m b j) ru f ε) :
    D.joins r ru (Space.tieJoints m b (.fiber m b j) j.pairs) x.2 f ↔
      D.Links (D.rowOf b s z) (.fiber j) ε := by
  obtain ⟨w, hw, rfl⟩ := hε.possible
  rw [links_iff_pairs hj hw, D.joins_iff, Space.tieJoints, forall_mem_map]
  refine forall₂_congr fun p hp => ?_
  rw [read_tie shoot hj hε hp, Code.ofColumn, trunk.read_column (hleft p hp) hx hz hzx, D.value_column]

lemma joins_shortcut_iff (hC : D.Contracts J) (trunk : D.Shows J s bs r ts real junk) (hj : j.IsFormed)
    (hb : b.IsBackbone J) {n : Mark} {d : Space} {k : Join} (hd : (Space.fiber n d k).IsBackbone J)
    (hds : (Space.fiber n d k).axes <+: s.axes) (hdb : d.axes = b.axes)
    (hlen : k.pairs.length = j.pairs.length) (hfst : ∀ p ∈ k.pairs.zip j.pairs, p.1.1 = p.2.1)
    (hleft : ∀ p ∈ k.pairs.zip j.pairs, r.contains (.ofColumn p.1.2 (.fiber n d k) n)) (hx : x ∈ real)
    (hz : z ∈ D.tuples s) (hzx : z.drop bs.hidden = x.1) (hε : D.Enters (.fiber m b j) ru f ε) :
    D.joins r ru ((k.pairs.zip j.pairs).map fun p =>
      ⟨.ofColumn p.1.2 (.fiber n d k) n, .ofColumn p.2.2 (.fiber m b j) m⟩) x.2 f ↔
      D.Links (D.rowOf b s z) (.fiber j) ε := by
  obtain ⟨w, hw, rfl⟩ := hε.possible
  have hfits := fits_of_mem trunk.isChain hz
  have hbs : b.axes <+: s.axes := by
    rw [← hdb]
    exact (prefix_append _ _).trans hds
  -- the tuple goes from the row that it reads at the origin to an entry of the other axis
  obtain ⟨y, δ, hy, hyfits, v, -, rfl, hlink⟩ := fits_append_singleton.1 (hfits.start hds)
  have hlast : lastAfter none (z.take (Space.fiber n d k).axes.length) = some v := by
    change lastAfter none (z.take (d.axes ++ [Axis.fiber k]).length) = some v
    rw [hy, lastAfter_append_singleton]
  have hyz : z.take b.axes.length = y := by
    have htake := congrArg (List.take d.axes.length) hy
    rwa [take_take, length_append, min_eq_left (by omega), take_left' hyfits.length_eq, hdb] at htake
  have hmem : z.take b.axes.length ∈ D.tuples b :=
    (mem_tuples_backbone hb).2 (hfits.start hbs)
  have hrow : D.rowOf b s z = lastAfter none y := by
    rw [rowOf_of_start hC trunk.isChain hb.isChain hbs hmem, hyz, last_eq_lastAfter]
  obtain ⟨o, ho, hmeets⟩ := Option.any_eq_true _ _ |>.1 hlink
  have hcells : (∀ p ∈ k.pairs.zip j.pairs,
      D.read r x.2 (.ofColumn p.1.2 (.fiber n d k) n) ≠ D.engine.null ∧
        D.read r x.2 (.ofColumn p.1.2 (.fiber n d k) n) =
          D.read ru f (.ofColumn p.2.2 (.fiber m b j) m)) ↔
      ∀ p ∈ k.pairs.zip j.pairs, D.cell v p.1.2 ≠ D.engine.null ∧ D.cell v p.1.2 = D.cell w p.2.2 := by
    refine forall₂_congr fun p hp => ?_
    rw [trunk.read_start hC hd hds (hleft p hp) hx hz hzx, hlast, read_tie shoot hj hε (of_mem_zip hp).2]
    rfl
  rw [D.joins_iff, forall_mem_map, hcells, pairs_transfer hlen hfst (meets_iff.1 hmeets), hrow, ho,
    links_iff_pairs hj hw]
  rfl

lemma exists_axes_eq : ∃ β, u.axes = b.axes ++ .fiber j :: β := by
  obtain ⟨β, hβ⟩ := shoot.start_axes
  exact ⟨β, hβ.symm.trans (append_assoc b.axes [.fiber j] β)⟩

/-- A tuple of the shoot goes on from the row that the trunk reads. -/
theorem exists_converge_of_links (hb : b.IsBackbone J) (hrun : commonRun s.axes u.axes ≤ b.axes.length)
    (hw : w ∈ D.tuples u)
    (h : D.Links (D.rowOf b s z) (.fiber j) (lastAfter none (w.take (b.axes.length + 1)))) :
    ∃ v ∈ D.tuples u, v.drop b.axes.length = w.drop b.axes.length ∧ s.Converge u z v := by
  obtain ⟨β, haxes⟩ := exists_axes_eq shoot
  have hwfits := fits_of_mem shoot.isChain hw
  have hlink := h
  obtain ⟨x, -, -, hany⟩ := h
  obtain ⟨o, ho, -⟩ := Option.any_eq_true _ _ |>.1 hany
  obtain ⟨y, hy, hzy, hlast⟩ := exists_of_rowOf ho
  have hyfits := (mem_tuples_backbone hb).1 hy
  rw [ho, ← hlast, last_eq_lastAfter] at hlink
  have hvfits : D.Fits none u.axes (y ++ w.drop b.axes.length) := by
    rw [haxes] at hwfits ⊢
    exact hwfits.relink hyfits hlink
  have hvdrop : (y ++ w.drop b.axes.length).drop b.axes.length = w.drop b.axes.length :=
    drop_left' hyfits.length_eq
  refine ⟨_, ?_, hvdrop, ?_⟩
  · have hhidden := Space.hidden_fiber m b j
    rw [shoot.mem_iff _ hvfits, hhidden, hvdrop, ← hhidden, ← shoot.mem_iff _ hwfits]
    exact hw
  · have hle : commonRun s.axes u.axes ≤ commonRun s.axes b.axes := by
      refine le_commonRun_iff.2 ⟨commonRun_le_left _ _, hrun, ?_⟩
      rw [take_commonRun, haxes, take_append_of_le_length (haxes ▸ hrun)]
    have htake := congrArg (List.take (commonRun s.axes u.axes)) hzy
    rw [take_take, take_take, min_eq_left hle] at htake
    rw [Space.Converge, htake, take_append_of_le_length (hyfits.length_eq.symm ▸ hrun)]

/-- Converging tuples of the shoot go on from the row that the trunk reads. -/
theorem links_of_converge (hC : D.Contracts J) (hs : s.IsChain J) (hb : b.IsBackbone J)
    (hspans : s.spans u) {v : Tuple R} (hv : v ∈ D.tuples u) (hw : w ∈ D.tuples u)
    (hvw : v.drop b.axes.length = w.drop b.axes.length) (hzv : s.Converge u z v) :
    D.Links (D.rowOf b s z) (.fiber j) (lastAfter none (w.take (b.axes.length + 1))) := by
  obtain ⟨β, haxes⟩ := exists_axes_eq shoot
  have hbu : b.axes <+: u.axes := haxes ▸ prefix_append _ _
  have hvfits := fits_of_mem shoot.isChain hv
  have hmem : v.take b.axes.length ∈ D.tuples b :=
    (mem_tuples_backbone hb).2 (hvfits.start hbu)
  have hrow := rowOf_eq_last hC hs hb.isChain (Space.spans_start hb.isChain shoot.isChain hbu hspans)
    hmem (hzv.symm.start hbu).symm
  obtain ⟨y, ε, hy, hyfits, hlink⟩ := fits_append_singleton.1 (hvfits.start shoot.start_axes)
  rw [length_append, length_singleton] at hy
  have hyv : v.take b.axes.length = y := by
    have htake := congrArg (List.take b.axes.length) hy
    rwa [take_take, min_eq_left (Nat.le_succ _), take_left' hyfits.length_eq] at htake
  have hε : lastAfter none (w.take (b.axes.length + 1)) = ε := by
    rw [← lastAfter_take_eq _ hvw (Nat.lt_add_one _), hy, lastAfter_append_singleton]
    · rw [length_of_mem shoot.isChain hw, haxes, length_append, length_cons]
      omega
    · rw [length_of_mem shoot.isChain hv, length_of_mem shoot.isChain hw]
  rwa [hrow, hyv, last_eq_lastAfter, hε]

end Ties

open Space

section Joints

variable {p q x bl br : Space} {rl rr : Routes} {tl tr : List Nat}
  {reall realr : List (Tuple R × Showing R)} {junkl junkr : List (Showing R)} {a : Axis}
  {js : List Joint}

lemma joins_fiber_iff (hC : D.Contracts J) (left : D.Shows J p bl rl tl reall junkl)
    (right : D.Shows J q br rr tr realr junkr) {m : Mark} {j : Join} (hj : j.IsFormed)
    (hx : (Space.fiber m p j).IsChain J) (haxes : br.axes = p.axes ++ [.fiber j])
    {w : Tuple R × Showing R} (hw : w ∈ reall) {y : Tuple R} (hy : y ∈ D.tuples p)
    (hyw : y.drop bl.hidden = w.1) {f : Showing R} {ε : Option R} (hε : D.Enters br rr f ε) :
    D.joins rl rr (j.pairs.map fun o => ⟨.ofColumn o.1 p.inflate m,
      .ofColumn o.2 (Space.fiber m p j).inflate m⟩) w.2 f ↔
      D.Links (lastAfter none y) (.fiber j) ε := by
  have hp := left.isChain.axesOnly_isBackbone
  have hpaxes := left.isChain.axes_axesOnly
  have hback := hx.axesOnly_isBackbone
  have hbackaxes : (Space.fiber m p j).axesOnly.axes = br.axes := hx.axes_axesOnly.trans haxes.symm
  have horigin : p.columns = j.origin.columns := by
    cases hx with
    | fiber _ _ _ fits =>
      rw [columns, table?_of_check fits]
      rfl
  obtain ⟨v, hv, rfl⟩ : D.Possible (Space.fiber m p j) ε :=
    possible_congr right.isBackbone.isChain hx haxes hε.possible
  have hreadl : ∀ o ∈ j.pairs, D.read rl w.2 (.ofColumn o.1 p.inflate m) =
      (lastAfter none y).elim D.engine.null (D.cell · o.1) := by
    intro o ho
    have hcolumn : o.1 ∈ p.axesOnly.columns := by
      rw [columns_of_axes_eq hp.isChain left.isChain hpaxes, horigin]
      exact (hj.of_mem_pairs ho).1
    have hcontains := left.covers _ hp (hpaxes ▸ left.start_axes) (hpaxes ▸ List.prefix_rfl) o.1 hcolumn m
    rw [inflate_eq, left.read_start hC hp (hpaxes ▸ List.prefix_rfl) hcontains hw hy hyw, hpaxes,
      ← length_of_mem left.isChain hy, List.take_length]
  have hreadr : ∀ o ∈ j.pairs,
      D.read rr f (.ofColumn o.2 (Space.fiber m p j).inflate m) = D.cell v o.2 := by
    intro o ho
    have hcolumn : o.2 ∈ (Space.fiber m p j).axesOnly.columns := by
      exact (hj.of_mem_pairs ho).2
    have hcontains := right.covers _ hback (hbackaxes ▸ List.prefix_rfl)
      (hbackaxes ▸ right.start_axes) o.2 hcolumn m
    rw [inflate_eq]
    exact hε.read_column hback.isInflated hbackaxes hcontains
  rw [links_iff_pairs hj hv, D.joins_iff, List.forall_mem_map]
  refine forall₂_congr fun o ho => ?_
  rw [hreadl o ho, hreadr o ho]

lemma joins_baseJoints_iff (hC : D.Contracts J) (hJ : ∀ j, J j → j.IsFormed)
    (left : D.Shows J p bl rl tl reall junkl) (right : D.Shows J q br rr tr realr junkr)
    (hx : x.IsChain J) (ha : x.axis? = some a) (hbase : x.base? = some p) (haxes : br.axes = x.axes)
    (hjs : x.baseJoints = .ok js) :
    ∀ w ∈ reall, ∀ y ∈ D.tuples p, y.drop bl.hidden = w.1 → ∀ f ε, D.Enters br rr f ε →
      (D.joins rl rr js w.2 f ↔ D.Links (lastAfter none y) a ε) := by
  intro w hw y hy hyw f ε hε
  have hpossible := possible_congr right.isBackbone.isChain hx haxes hε.possible
  have hchain := hx
  cases hchain with
  | root m => cases hbase
  | scalar _ _ | table _ _ _ _ =>
    cases ha
    rw [baseJoints] at hjs
    cases hjs
    exact iff_of_true rfl hpossible
  | fiber m _ hj _ =>
    cases ha
    cases hbase
    rw [baseJoints] at hjs
    cases hjs
    exact joins_fiber_iff hC left right (hJ _ hj) hx haxes hw hy hyw hε
  | filtered _ _ _ | ordered _ _ _ _ _ => cases ha

end Joints

lemma baseJoints_left (hJ : ∀ j, J j → j.IsFormed) {x p : Space} {js : List Joint}
    (hp : p.IsBackbone J) (hx : x.IsChain J) (hbase : x.base? = some p) (haxis : x.axis?.isSome)
    (hjs : x.baseJoints = .ok js) :
    ∀ q ∈ js, ∃ o m, q.left = .ofColumn o p m ∧ o ∈ p.columns := by
  cases hx with
  | root m => cases hbase
  | scalar m _ | table m t _ _ =>
    rw [baseJoints] at hjs
    cases hjs
    intro q hq
    cases hq
  | @fiber m b j _ hj fits =>
    cases hbase
    rw [baseJoints, hp.inflate_eq] at hjs
    cases hjs
    intro q hq
    obtain ⟨o, ho, rfl⟩ := List.mem_map.1 hq
    refine ⟨o.1, m, rfl, ?_⟩
    rw [columns, table?_of_check fits]
    exact ((hJ j hj).of_mem_pairs ho).1
  | filtered m f _ | ordered m os l o _ => cases haxis

section Conforming

variable {p x b : Space} {r : Routes} {tags : List Nat} {real : List (Tuple R × Showing R)}
  {junk : List (Showing R)} {a : Axis}

lemma exists_next (hC : D.Contracts J) (hE : D.Expands J) (hp : p.IsChain J) (hx : x.IsChain J)
    (ha : x.axis? = some a) (hbase : x.base? = some p) (hc : a.contracting)
    (he : a.expanding) :
    ∃ next : Option R → Option R, ∀ z ∈ D.tuples p, ∀ ε,
      D.Links (lastAfter none z) a ε ↔ ε = next (lastAfter none z) := by
  have hchained := hx.chained
  rw [axes_of_axis? ha hbase, chained_append] at hchained
  have hsome : ∀ z ∈ D.tuples p, ∃ ε, D.Links (lastAfter none z) a ε := by
    intro z hz
    have hsits := (fits_of_mem hp hz).sits (sits_none none)
    obtain ⟨y, hy⟩ := Fits.exists_of_expanding hE hsits hchained.2 (by simpa using he)
    match y, hy with
    | [ε], hy => exact ⟨ε, hy.1⟩
  classical
  refine ⟨fun e => if h : ∃ ε, D.Links e a ε then h.choose else none, ?_⟩
  intro z hz ε
  beta_reduce
  rw [dif_pos (hsome z hz)]
  constructor
  · intro hε
    exact hε.eq_of_contracting hC ((fits_of_mem hp hz).sits (sits_none none)) hchained.2.1 hc
      (hsome z hz).choose_spec
  · rintro rfl
    exact (hsome z hz).choose_spec

omit [DecidableEq R] [DecidableEq V] in
lemma lastAfter_drop {z : Tuple R} {n : Nat} (h : n < z.length) :
    lastAfter none (z.drop n) = lastAfter none z := by
  rw [lastAfter, lastAfter, List.getLast?_drop, if_neg (by omega)]

/-- Such an axis adds nothing to the rows. -/
theorem Shows.conform (hC : D.Contracts J) (hE : D.Expands J) (h : D.Shows J p b r tags real junk)
    (hx : x.IsChain J) (ha : x.axis? = some a) (hbase : x.base? = some p)
    (hc : a.contracting) (he : a.expanding)
    (hcovers : ∀ c ∈ x.columns, ∀ m, r.contains (.ofColumn c x.inflate m)) :
    ∃ real', D.Shows J x b r tags real' junk ∧ real'.map Prod.snd = real.map Prod.snd := by
  obtain ⟨next, hnext⟩ := exists_next hC hE h.isChain hx ha hbase hc he
  refine ⟨_, h.extend hC hx ha hbase (fun y => next (lastAfter none y)) ?_ hcovers, ?_⟩
  · intro z hz ε
    have hlt := h.hidden_lt
    rw [hnext z hz ε, lastAfter_drop]
    rwa [length_of_mem h.isChain hz]
  · rw [List.map_map]
    rfl

end Conforming

end Store

end NavQuery
