import NavQuery.Proofs.Attaching
import NavQuery.Proofs.PhraseValue

/-!
Where a trunk shows the first axis of a shoot, the joints of the two compare the keys of common axes.
They hold exactly for converging tuples, and unreached rows of the shoot match none.
-/

namespace NavQuery

open List Space Tuple

variable {i : Nat} {α : List Axis} {axes : List Space}

namespace Store

variable {R V : Type} [DecidableEq R] [DecidableEq V] {D : Store R V} {J : Join → Prop}

section Entries

variable {z : Tuple R}

omit [DecidableEq R] [DecidableEq V] in
lemma lastAfter_take (hi : i < z.length) : lastAfter none (z.take (i + 1)) = z[i] := by
  rw [take_succ_eq_append_getElem hi, lastAfter_append_singleton]

omit [DecidableEq R] [DecidableEq V] in
lemma lastAfter_take_eq {y : Tuple R} {n : Nat} (hlen : y.length = z.length)
    (h : y.drop n = z.drop n) (hni : n < i) (hi : i ≤ z.length) :
    lastAfter none (y.take i) = lastAfter none (z.take i) := by
  obtain ⟨i, rfl⟩ : ∃ k, i = k + 1 := ⟨i - 1, by omega⟩
  rw [lastAfter_take (by omega), lastAfter_take (by omega)]
  have hentry := congrArg (fun x => x[i - n]?) h
  simp only [getElem?_drop] at hentry
  rw [show n + (i - n) = i by omega, getElem?_eq_getElem (by omega),
    getElem?_eq_getElem (by omega)] at hentry
  exact Option.some.inj hentry

omit [DecidableEq R] in
/-- Each entry is linked to the one before by its axis. -/
theorem Fits.links_get (h : D.Fits none α z) (hi : i < α.length) :
    D.Links (lastAfter none (z.take i)) (α.get ⟨i, hi⟩) (lastAfter none (z.take (i + 1))) := by
  have hfits := (h.split (i + 1)).1
  rw [take_succ_eq_append_getElem hi, fits_append_singleton] at hfits
  obtain ⟨x, e, hx, -, he⟩ := hfits
  rw [hx, lastAfter_append_singleton]
  rw [take_succ_eq_append_getElem (h.length_eq ▸ hi)] at hx
  rwa [(append_inj' hx rfl).1]

omit [DecidableEq R] in
/-- Tuples over the same axes are equal if they agree where an axis is not contracting. -/
theorem Fits.eq_of_entries (hC : D.Contracts J) {x y : Tuple R} {k : Nat}
    (hα : Chained J none α) (hx : D.Fits none α x) (hy : D.Fits none α y)
    (hxy : x.take k = y.take k)
    (h : ∀ i, k ≤ i → ∀ hi : i < α.length, (α.get ⟨i, hi⟩).contracting = false →
      lastAfter none (x.take (i + 1)) = lastAfter none (y.take (i + 1))) : x = y := by
  have hxn := hx.length_eq
  have hyn := hy.length_eq
  have hstep : ∀ n ≤ α.length, x.take n = y.take n := by
    intro n
    induction n with
    | zero => simp
    | succ n ih =>
      intro hn
      have ih := ih (by omega)
      obtain hle | hlt := le_or_gt (n + 1) k
      · have := congrArg (List.take (n + 1)) hxy
        rwa [take_take, take_take, min_eq_left hle] at this
      · have hentry : lastAfter none (x.take (n + 1)) = lastAfter none (y.take (n + 1)) := by
          cases hc : (α.get ⟨n, hn⟩).contracting with
          | true =>
            have hchained : Chained J none (α.take (n + 1) ++ α.drop (n + 1)) := by
              rwa [take_append_drop]
            rw [take_succ_eq_append_getElem hn, append_assoc, chained_append] at hchained
            have hylinks := hy.links_get hn
            rw [← ih] at hylinks
            exact (hx.links_get hn).eq_of_contracting hC ((hx.split n).1.sits (sits_none none))
              hchained.2.1 hc hylinks
          | false => exact h n (by omega) hn hc
        rw [lastAfter_take (by omega), lastAfter_take (by omega)] at hentry
        rw [take_succ_eq_append_getElem (by omega), take_succ_eq_append_getElem (by omega), ih, hentry]
  have hfull := hstep α.length le_rfl
  rwa [take_of_length_le (by omega), take_of_length_le (by omega)] at hfull

/-- The columns of the space that ends with an axis have the cells of its entry. -/
theorem value_start (hC : D.Contracts J) {s p : Space} (hs : s.IsChain J) (hp : p.IsBackbone J)
    (hps : p.axes <+: s.axes) (hz : z ∈ D.tuples s) (c : Column) (m : Mark) :
    D.value (.ofColumn c p m) s z =
      (lastAfter none (z.take p.axes.length)).elim D.engine.null (D.cell · c) := by
  have hmem : z.take p.axes.length ∈ D.tuples p :=
    (mem_tuples_backbone hp).2 ((fits_of_mem hs hz).start hps)
  rw [Code.ofColumn, D.value_column, rowOf_of_start hC hs hp.isChain hps hmem, last_eq_lastAfter]

lemma Shows.read_start (hC : D.Contracts J) {s b : Space} {r : Routes} {tags : List Nat}
    {real : List (Tuple R × Showing R)} {junk : List (Showing R)}
    (h : D.Shows J s b r tags real junk) {p : Space} (hp : p.IsBackbone J) (hps : p.axes <+: s.axes)
    {c : Column} {m : Mark} (hr : r.contains (.ofColumn c p m)) {x : Tuple R × Showing R}
    (hx : x ∈ real) (hz : z ∈ D.tuples s) (hzx : z.drop b.hidden = x.1) :
    D.read r x.2 (.ofColumn c p m) =
      (lastAfter none (z.take p.axes.length)).elim D.engine.null (D.cell · c) := by
  rw [← value_start hC h.isChain hp hps hz c m]
  exact h.read_column hr hx hz hzx

omit [DecidableEq R] [DecidableEq V] in
lemma Keyed.entry_eq_iff (hK : D.Keyed) {s : Space}
    (hkey : ∀ t ∈ s.family.table?, t.identifyingColumns ≠ []) {ε δ : Option R}
    (hε : D.Possible s ε) (hδ : D.Possible s δ) :
    (∀ c ∈ s.keyColumns, ε.elim D.engine.null (D.cell · c) ≠ D.engine.null ∧
      ε.elim D.engine.null (D.cell · c) = δ.elim D.engine.null (D.cell · c)) ↔ ε = δ := by
  rw [Possible] at hε hδ
  rw [keyColumns]
  cases ht : s.family.table? with
  | none =>
    rw [ht] at hε hδ
    refine iff_of_true ?_ (Eq.trans hε (Eq.symm hδ))
    exact forall_mem_nil _
  | some t =>
    rw [ht] at hε hδ
    obtain ⟨r, hr, rfl⟩ := hε
    obtain ⟨r', hr', rfl⟩ := hδ
    obtain ⟨hnull, hunique⟩ := hK.identifies (hkey t ht)
    constructor
    · intro h
      exact congrArg some (hunique r hr r' hr' fun c hc => (h c hc).2)
    · intro h c hc
      obtain rfl := Option.some.inj h
      exact ⟨hnull r hr c hc, rfl⟩

end Entries

def selfJoint (p : Space) (c : Column) : Joint := ⟨.ofColumn c p p.mark, .ofColumn c p p.mark⟩

omit [DecidableEq R] [DecidableEq V] in
lemma selfJoints_eq (haxes : ∀ p ∈ axes, p.IsBackbone J)
    {jss : List (List Joint)} (h : axes.mapM selfJoints = .ok jss) :
    (∀ p ∈ axes, ∀ t ∈ p.family.table?, t.identifyingColumns ≠ []) ∧
      jss.flatten = axes.flatMap fun p => p.keyColumns.map (selfJoint p) := by
  induction axes generalizing jss with
  | nil =>
    cases h
    exact ⟨(fun p hp => nomatch hp), rfl⟩
  | cons p axes ih =>
    rw [mapM_cons] at h
    obtain ⟨js, hjs, h⟩ := exists_of_bind_eq_ok h
    obtain ⟨jss, hjss, h⟩ := exists_of_bind_eq_ok h
    cases h
    obtain ⟨us, hus, hjs⟩ := exists_of_bind_eq_ok hjs
    cases hjs
    obtain ⟨hkey, rfl⟩ := (haxes p mem_cons_self).keyUnits_eq hus
    obtain ⟨hkeys, hflat⟩ := ih (fun q hq => haxes q (mem_cons_of_mem p hq)) hjss
    refine ⟨?_, ?_⟩
    · intro q hq
      obtain rfl | hq := mem_cons.1 hq
      · exact hkey
      · exact hkeys q hq
    · rw [flatten_cons, hflat, flatMap_cons, map_map]
      rfl

section Keys

variable {s u bs bu : Space} {r ru : Routes} {ts tu : List Nat}
  {real realu : List (Tuple R × Showing R)} {junk junku : List (Showing R)} {js : List Joint}

variable {f : Showing R} {p : Space} {z w : Tuple R} {x : Tuple R × Showing R}

omit [DecidableEq R] in
lemma joins_selfJoints_iff {e : Showing R} :
    D.joins r ru (axes.flatMap fun p => p.keyColumns.map (selfJoint p)) e f ↔
      ∀ p ∈ axes, ∀ c ∈ p.keyColumns, D.read r e (.ofColumn c p p.mark) ≠ D.engine.null ∧
          D.read r e (.ofColumn c p p.mark) = D.read ru f (.ofColumn c p p.mark) := by
  rw [D.joins_iff]
  constructor
  · intro h p hp c hc
    exact h (selfJoint p c) (mem_flatMap.2 ⟨p, hp, mem_map_of_mem hc⟩)
  · intro h j hj
    obtain ⟨p, hp, hj⟩ := mem_flatMap.1 hj
    obtain ⟨c, hc, rfl⟩ := mem_map.1 hj
    exact h p hp c hc

variable (hC : D.Contracts J) (hK : D.Keyed) (trunk : D.Shows J s bs r ts real junk)
  (shoot : D.Shows J u bu ru tu realu junku) (hstart : bu.axes <+: s.axes)
  (hkeys : ∀ p ∈ commonAxes s.inflate u.inflate bu, ∀ t ∈ p.family.table?, t.identifyingColumns ≠ [])
  (hleft : ∀ p ∈ commonAxes s.inflate u.inflate bu, ∀ c ∈ p.keyColumns, r.contains (.ofColumn c p p.mark))
include hC hK trunk shoot hstart hkeys hleft

omit hC hK hkeys hleft in
lemma mem_commonAxes_iff : p ∈ commonAxes s.inflate u.inflate bu ↔
    p ∈ s.axesOnly.ancestors ∧ bu.axes.length ≤ p.axes.length ∧ p.axes <+: u.axes ∧
      (p.lastStep.contracting = false ∨ p.axes = bu.axes) := by
  have hs := trunk.isChain
  have hu := shoot.isChain
  rw [inflate_eq, inflate_eq, mem_commonAxes hs.axesOnly_isBackbone
    hu.axesOnly_isBackbone shoot.isBackbone, hu.axes_axesOnly]
  · rwa [hs.axes_axesOnly]
  · rw [hu.axes_axesOnly]
    exact shoot.start_axes

omit hC hK hkeys hleft in
lemma commonAxes_spec (hp : p ∈ commonAxes s.inflate u.inflate bu) :
    p.IsBackbone J ∧ p.axes <+: s.axes ∧ p.axes <+: u.axes ∧ bu.axes <+: p.axes := by
  obtain ⟨hps, hlen, hpu, -⟩ := (mem_commonAxes_iff trunk shoot hstart).1 hp
  obtain ⟨hbackbone, hstart'⟩ := trunk.isChain.axesOnly_isBackbone.of_mem_ancestors hps
  rw [trunk.isChain.axes_axesOnly] at hstart'
  exact ⟨hbackbone, hstart', hpu, prefix_of_prefix_length_le shoot.start_axes hpu hlen⟩

lemma key_iff (hp : p ∈ commonAxes s.inflate u.inflate bu) (hx : x ∈ real) (hz : z ∈ D.tuples s)
    (hzx : z.drop bs.hidden = x.1) {ε : Option R} (hε : D.Possible p ε)
    (hf : ∀ c ∈ p.keyColumns, D.read ru f (.ofColumn c p p.mark) = ε.elim D.engine.null (D.cell · c)) :
    (∀ c ∈ p.keyColumns, D.read r x.2 (.ofColumn c p p.mark) ≠ D.engine.null ∧
      D.read r x.2 (.ofColumn c p p.mark) = D.read ru f (.ofColumn c p p.mark)) ↔
      lastAfter none (z.take p.axes.length) = ε := by
  obtain ⟨hbackbone, hps, -, -⟩ := commonAxes_spec trunk shoot hstart hp
  have hfits := (fits_of_mem trunk.isChain hz).start hps
  rw [← hK.entry_eq_iff (hkeys p hp) (possible_of_fits hbackbone.isChain hfits) hε]
  refine forall₂_congr fun c hc => ?_
  rw [hf c hc, trunk.read_start hC hbackbone hps (hleft p hp c hc) hx hz hzx]

/-- Rows match if the tuples agree on the common axes. -/
theorem joins_keys_iff {y : Tuple R × Showing R} (hx : x ∈ real)
    (hz : z ∈ D.tuples s) (hzx : z.drop bs.hidden = x.1) (hy : y ∈ realu)
    (hw : w ∈ D.tuples u) (hwy : w.drop bu.hidden = y.1) :
    D.joins r ru ((commonAxes s.inflate u.inflate bu).flatMap fun p =>
      p.keyColumns.map (selfJoint p)) x.2 y.2 ↔
    ∀ p ∈ commonAxes s.inflate u.inflate bu,
      lastAfter none (z.take p.axes.length) = lastAfter none (w.take p.axes.length) := by
  rw [joins_selfJoints_iff]
  refine forall₂_congr fun p hp => ?_
  obtain ⟨hbackbone, hps, hpu, hbp⟩ := commonAxes_spec trunk shoot hstart hp
  refine key_iff hC hK trunk shoot hstart hkeys hleft hp hx hz hzx
    (possible_of_fits hbackbone.isChain ((fits_of_mem shoot.isChain hw).start hpu)) fun c hc => ?_
  exact shoot.read_start hC hbackbone hpu
    (shoot.covers p hbackbone hbp hpu c (p.keyColumns_subset hc) _) hy hw hwy

omit hC hK hkeys hleft in
lemma exists_commonAxis (hi : bu.axes.length ≤ i + 1) (hrun : i + 1 ≤ commonRun s.axes u.axes)
    (hkeep : ∀ h : i < s.axes.length, (s.axes.get ⟨i, h⟩).contracting → bu.axes.length = i + 1) :
    ∃ p ∈ commonAxes s.inflate u.inflate bu, p.axes.length = i + 1 := by
  obtain ⟨his, -, htake⟩ := le_commonRun_iff.1 hrun
  have hbackbone := trunk.isChain.axesOnly_isBackbone
  have haxes := trunk.isChain.axes_axesOnly
  obtain ⟨p, hp, hpaxes⟩ := hbackbone.exists_ancestor (Nat.succ_pos i) (by rwa [haxes])
  rw [haxes] at hpaxes
  have hlen : p.axes.length = i + 1 := by rw [hpaxes, length_take, min_eq_left his]
  refine ⟨p, (mem_commonAxes_iff trunk shoot hstart).2 ⟨hp, by rwa [hlen], ?_, ?_⟩, hlen⟩
  · rw [hpaxes, htake]
    exact take_prefix _ _
  · have hlast : p.axes = s.axes.take i ++ [s.axes.get ⟨i, his⟩] := by
      rw [hpaxes]
      exact take_succ_eq_append_getElem his
    rw [(hbackbone.of_mem_ancestors hp).1.lastStep_contracting hlast]
    cases hc : (s.axes.get ⟨i, his⟩).contracting with
    | false => exact .inl rfl
    | true =>
      refine .inr ?_
      rw [hpaxes, Nat.succ_eq_add_one, ← hkeep his hc]
      exact (prefix_iff_eq_take.1 hstart).symm

omit hC hK hkeys hleft in
lemma graft_start (hz : z ∈ D.tuples s) (hw : w ∈ D.tuples u)
    (hentry : lastAfter none (z.take bu.axes.length) = lastAfter none (w.take bu.axes.length)) :
    z.take bu.axes.length ++ w.drop bu.axes.length ∈ D.tuples u ∧
      (z.take bu.axes.length ++ w.drop bu.axes.length).drop bu.hidden = w.drop bu.hidden := by
  have hwfits := fits_of_mem shoot.isChain hw
  have hzb := (fits_of_mem trunk.isChain hz).start hstart
  have hwb := hwfits.start shoot.start_axes
  have hvfits : D.Fits none u.axes (z.take bu.axes.length ++ w.drop bu.axes.length) := by
    obtain ⟨β, hβ⟩ := shoot.start_axes
    have hrest := (hwfits.split bu.axes.length).2
    rw [← hβ, drop_left, ← hentry] at hrest
    rw [← hβ]
    exact fits_append.2 ⟨_, _, rfl, hzb, hrest⟩
  have hvdrop : (z.take bu.axes.length ++ w.drop bu.axes.length).drop bu.hidden = w.drop bu.hidden := by
    have hpos := shoot.isBackbone.axes_length_pos
    have hhidden : bu.hidden + 1 = bu.axes.length := by
      rw [Space.hidden]
      omega
    have hzlen := hzb.length_eq
    have hwlen := hwfits.length_eq
    have hlen := shoot.start_axes.length_le
    rw [drop_append_of_le_length (by omega), drop_hidden shoot.isBackbone.isChain hzb, hentry,
      ← drop_hidden shoot.isBackbone.isChain hwb]
    exact (drop_eq_append (by omega) (by omega)).symm
  refine ⟨?_, hvdrop⟩
  rw [shoot.mem_iff _ hvfits, hvdrop, ← shoot.mem_iff _ hwfits]
  exact hw

omit hK hkeys hleft in
/-- Tuples that agree on the common axes converge, with other axes before the baseline. -/
theorem exists_converge_of_agree (hz : z ∈ D.tuples s) (hw : w ∈ D.tuples u)
    (h : ∀ p ∈ commonAxes s.inflate u.inflate bu,
      lastAfter none (z.take p.axes.length) = lastAfter none (w.take p.axes.length)) :
    ∃ v ∈ D.tuples u, v.drop bu.hidden = w.drop bu.hidden ∧ s.Converge u z v := by
  have hzfits := fits_of_mem trunk.isChain hz
  have hwfits := fits_of_mem shoot.isChain hw
  have hzb := hzfits.start hstart
  have hpos := shoot.isBackbone.axes_length_pos
  have hhidden : bu.hidden + 1 = bu.axes.length := by
    rw [Space.hidden]
    omega
  have hle : bu.axes.length ≤ commonRun s.axes u.axes := by
    refine le_commonRun_iff.2 ⟨hstart.length_le, shoot.start_axes.length_le, ?_⟩
    rw [← prefix_iff_eq_take.1 hstart, ← prefix_iff_eq_take.1 shoot.start_axes]
  have hentry : lastAfter none (z.take bu.axes.length) = lastAfter none (w.take bu.axes.length) := by
    obtain ⟨p, hp, hlen⟩ := exists_commonAxis trunk shoot hstart (i := bu.hidden) (by omega) (by omega)
      fun _ _ => hhidden.symm
    have := h p hp
    rwa [hlen, hhidden] at this
  -- the axes before the baseline are those of the trunk
  obtain ⟨hv, hvdrop⟩ := graft_start trunk shoot hstart hz hw hentry
  have hvfits := fits_of_mem shoot.isChain hv
  refine ⟨_, hv, hvdrop, ?_⟩
  have hchained : Chained J none (u.axes.take (commonRun s.axes u.axes)) := by
    have := shoot.isChain.chained
    rw [← take_append_drop (commonRun s.axes u.axes) u.axes, chained_append] at this
    exact this.1
  have hzrun := (hzfits.split (commonRun s.axes u.axes)).1
  rw [take_commonRun] at hzrun
  refine Fits.eq_of_entries hC (k := bu.axes.length) hchained hzrun
    (hvfits.split (commonRun s.axes u.axes)).1 ?_ fun i hi hilt hc => ?_
  · rw [take_take, take_take, min_eq_left hle, take_left' hzb.length_eq]
  · have hrun : i + 1 ≤ commonRun s.axes u.axes := by
      rw [length_take] at hilt
      omega
    have hget : (u.axes.take (commonRun s.axes u.axes)).get ⟨i, hilt⟩ =
        s.axes.get ⟨i, (le_commonRun_iff.1 hrun).1⟩ := by
      simp only [get_eq_getElem, ← take_commonRun, getElem_take]
    obtain ⟨p, hp, hlen⟩ := exists_commonAxis trunk shoot hstart (i := i) (by omega) hrun fun hs hs' => by
        rw [hget, hs'] at hc
        cases hc
    rw [take_take, take_take, min_eq_left hrun, ← hlen, h p hp, hlen]
    refine (lastAfter_take_eq ?_ hvdrop (by omega) ?_).symm
    · rw [hvfits.length_eq, hwfits.length_eq]
    · rw [hwfits.length_eq]
      exact (le_commonRun_iff.1 hrun).2.1

omit hC hK hkeys hleft in
lemma agree_of_converge {v : Tuple R} (hv : v ∈ D.tuples u) (hw : w ∈ D.tuples u)
    (hvw : v.drop bu.hidden = w.drop bu.hidden) (hzv : s.Converge u z v) :
    ∀ p ∈ commonAxes s.inflate u.inflate bu,
      lastAfter none (z.take p.axes.length) = lastAfter none (w.take p.axes.length) := by
  intro p hp
  obtain ⟨hbackbone, hps, hpu, hbp⟩ := commonAxes_spec trunk shoot hstart hp
  have hrun : p.axes.length ≤ commonRun s.axes u.axes := by
    refine le_commonRun_iff.2 ⟨hps.length_le, hpu.length_le, ?_⟩
    rw [← prefix_iff_eq_take.1 hps, ← prefix_iff_eq_take.1 hpu]
  have htake := congrArg (List.take p.axes.length) hzv
  rw [take_take, take_take, min_eq_left hrun] at htake
  have hpos := shoot.isBackbone.axes_length_pos
  have hle := hbp.length_le
  rw [htake]
  refine lastAfter_take_eq ?_ hvw ?_ ?_
  · rw [length_of_mem shoot.isChain hv, length_of_mem shoot.isChain hw]
  · rw [Space.hidden]
    omega
  · rw [length_of_mem shoot.isChain hw]
    exact hpu.length_le

lemma not_joins_keys (hx : x ∈ real) (hf : f ∈ junku) :
    D.joins r ru ((commonAxes s.inflate u.inflate bu).flatMap fun p =>
      p.keyColumns.map (selfJoint p)) x.2 f = false := by
  rw [Bool.eq_false_iff, Ne, joins_selfJoints_iff]
  intro hjoins
  obtain ⟨z, hz, hzx⟩ := trunk.exists_tuple x hx
  obtain ⟨ε, hε, hnone⟩ := shoot.unreached f hf
  obtain ⟨p, hcommon, hpaxes⟩ : ∃ p ∈ commonAxes s.inflate u.inflate bu, p.axes = bu.axes := by
    have hbackbone := trunk.isChain.axesOnly_isBackbone
    obtain ⟨p, hp, hpaxes⟩ := hbackbone.exists_ancestor shoot.isBackbone.axes_length_pos
      (by rw [trunk.isChain.axes_axesOnly]; exact hstart.length_le)
    rw [trunk.isChain.axes_axesOnly, ← prefix_iff_eq_take.1 hstart] at hpaxes
    exact ⟨p, (mem_commonAxes_iff trunk shoot hstart).2
      ⟨hp, hpaxes ▸ le_rfl, hpaxes ▸ shoot.start_axes, .inr hpaxes⟩, hpaxes⟩
  obtain ⟨hbackbone, hps, hpu, hbp⟩ := commonAxes_spec trunk shoot hstart hcommon
  have hentry := (key_iff hC hK trunk shoot hstart hkeys hleft hcommon hx hz hzx
    (possible_congr shoot.isBackbone.isChain hbackbone.isChain hpaxes.symm hε.possible) fun c hc =>
      hε.read_column hbackbone.isInflated hpaxes
        (shoot.covers p hbackbone hbp hpu c (p.keyColumns_subset hc) _)).1 (hjoins p hcommon)
  refine hnone (z.take p.axes.length) ?_ hentry
  rw [← hpaxes]
  exact (fits_of_mem trunk.isChain hz).start hps

end Keys

end Store

end NavQuery
