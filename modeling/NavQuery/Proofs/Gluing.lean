import NavQuery.Proofs.Ties

/-!
The joints that `glue` finds hold exactly for converging tuples. A shoot that dominates the nearest
ancestor of the trunk which it spans has a match for every tuple of the trunk.
-/

namespace NavQuery

open List

namespace Space

variable {J : Join → Prop} {u c s b : Space} {js : List Joint}

lemma glue_keys (hs : s.IsChain J) (hu : u.IsChain J)
    (hc : c.IsBackbone J) (hcu : c.axes <+: u.axes) (hcs : c.axes <+: s.axes)
    (h : s.glue b u c = .ok js) :
    (∀ p ∈ commonAxes s.inflate u.inflate c, ∀ t ∈ p.family.table?, t.identifyingColumns ≠ []) ∧
      js = (commonAxes s.inflate u.inflate c).flatMap fun p =>
        p.keyColumns.map (Store.selfJoint p) := by
  have hbackbone := hs.axesOnly_isBackbone
  rw [glue, if_pos ((inflate_concludes_iff hs hc).2 hcs)] at h
  obtain ⟨jss, hjss, h⟩ := exists_of_bind_eq_ok h
  cases h
  refine Store.selfJoints_eq (J := J) (fun p hp => ?_) hjss
  rw [Space.inflate_eq, Space.inflate_eq, mem_commonAxes hbackbone hu.axesOnly_isBackbone hc
    (by rwa [hs.axes_axesOnly]) (by rwa [hu.axes_axesOnly])] at hp
  exact (hbackbone.of_mem_ancestors hp.1).1

lemma glue_left (hJ : ∀ j, J j → j.IsFormed)
    (hs : s.IsChain J) (hb : b.IsBackbone J) (hu : u.IsChain J) (hc : c.IsBackbone J)
    (hspans : s.spans u) (hcolumns : u.columns ≠ []) (hcu : c.axes <+: u.axes)
    (h : s.glue b u c = .ok js) :
    ∀ q ∈ js, ∃ o p m, q.left = .ofColumn o p m ∧ p.IsBackbone J ∧ o ∈ p.columns := by
  intro q hq
  by_cases hcs : c.axes <+: s.axes
  · obtain ⟨-, rfl⟩ := glue_keys hs hu hc hcu hcs h
    obtain ⟨p, hp, hq⟩ := mem_flatMap.1 hq
    obtain ⟨o, ho, rfl⟩ := mem_map.1 hq
    have hbackbone := hs.axesOnly_isBackbone
    rw [Space.inflate_eq, Space.inflate_eq, mem_commonAxes hbackbone hu.axesOnly_isBackbone hc
      (by rwa [hs.axes_axesOnly]) (by rwa [hu.axes_axesOnly])] at hp
    exact ⟨o, p, p.mark, rfl, (hbackbone.of_mem_ancestors hp.1).1, p.keyColumns_subset ho⟩
  · obtain ⟨m, d, j, rfl, hd, hj, hd', -⟩ := exists_tie hs hu hc hspans hcolumns hcu hcs
    obtain rfl | ⟨n, e, k, he, -, -, -, -, rfl⟩ := glue_tie hs hb hd (hJ j hj) hc hcs h
    · obtain ⟨p, hp, rfl⟩ := mem_map.1 hq
      refine ⟨p.1, d, m, rfl, hd, ?_⟩
      rw [columns, hd']
      exact ((hJ j hj).of_mem_pairs hp).1
    · obtain ⟨p, hp, rfl⟩ := mem_map.1 hq
      have hk : J k := by
        cases he.isChain with
        | fiber _ _ hk _ => exact hk
      exact ⟨p.1.2, _, n, rfl, he, ((hJ k hk).of_mem_pairs (of_mem_zip hp).1).2⟩

/-- No common axes lie behind the nearest ancestor that another chain spans. -/
theorem commonRun_le_of_find? {p : Space} (hs : s.IsChain J) (hu : u.IsChain J)
    (h : s.ancestors.find? (u.spans ·) = some p) : commonRun s.axes u.axes ≤ p.axes.length := by
  induction s using baseInduction with
  | root m =>
    rw [ancestors, find?_cons] at h
    split at h
    · cases h
      exact commonRun_le_left _ _
    · cases h
  | step s c hc ih =>
    rw [ancestors_eq_cons hc, find?_cons] at h
    cases hspans : u.spans s with
    | true =>
      rw [hspans] at h
      cases h
      exact commonRun_le_left _ _
    | false =>
      rw [hspans] at h
      refine le_trans ?_ (ih (hs.base hc) h)
      obtain ⟨a, -, haxes⟩ | ⟨-, haxes⟩ := axes_eq_or hs hc
      · have hle := commonRun_le_left s.axes u.axes
        obtain heq | hlt := hle.eq_or_lt
        · -- all axes are common, so the chain is spanned
          refine absurd (spans_of_start_axes hu hs ?_) (by rw [hspans]; exact Bool.false_ne_true)
          have htake := take_commonRun s.axes u.axes
          rw [heq, take_length] at htake
          rw [htake]
          exact take_prefix _ _
        · rw [haxes, length_append, length_singleton, ← haxes] at hlt
          refine le_commonRun_iff.2 ⟨Nat.le_of_lt_succ hlt, commonRun_le_right _ _, ?_⟩
          rw [← take_commonRun, haxes, take_append_of_le_length]
          rw [← haxes]
          exact Nat.le_of_lt_succ hlt
      · rw [haxes]

end Space

namespace Store

variable {R V : Type} [DecidableEq R] [DecidableEq V] {D : Store R V} {J : Join → Prop}

/-- A shoot that dominates what it spans of the trunk has a match for every tuple. -/
theorem exists_converge_of_dominates (hE : D.Expands J) {s u : Space} (hs : s.IsChain J)
    (hu : u.IsChain J) (hcut : ∀ p ∈ u.ancestors, p.isCommutative)
    (h : u.dominates ((s.ancestors.find? (u.spans ·)).getD s)) {z : Tuple R}
    (hz : z ∈ D.tuples s) : ∃ w ∈ D.tuples u, s.Converge u z w := by
  have hwhole : ∀ {p : Space} {y : Tuple R}, p.IsChain J → u.dominates p → y ∈ D.tuples p →
      ∃ w ∈ D.tuples u, p.Converge u y w := by
    intro p y hp hup hy
    obtain ⟨w, hw, hwy⟩ := exists_converge_of_uncut hE hu hp hup hy fun q hq hcut' => by
      rw [hcut q hq] at hcut'
      cases hcut'
    exact ⟨w, hw, hwy.symm⟩
  cases hfind : s.ancestors.find? (u.spans ·) with
  | none =>
    rw [hfind] at h
    exact hwhole hs h hz
  | some p =>
    rw [hfind] at h
    obtain ⟨ss, hleads⟩ := Space.leads_of_mem (mem_of_find?_eq_some hfind)
    have hp := hleads.isChain hs
    obtain ⟨w, hw, hpw⟩ := hwhole hp h (take_mem_of_leads hleads hs hz)
    refine ⟨w, hw, ?_⟩
    have hle := Space.commonRun_le_of_find? hs hu hfind
    obtain ⟨β, hβ⟩ := hleads.axes_start hs
    have hrun : commonRun s.axes u.axes ≤ commonRun p.axes u.axes := by
      refine le_commonRun_iff.2 ⟨hle, commonRun_le_right _ _, ?_⟩
      rw [← take_commonRun, ← hβ, take_append_of_le_length (hβ ▸ hle)]
    have htake := congrArg (List.take (commonRun s.axes u.axes)) hpw
    rwa [take_take, take_take, take_take, min_eq_left hrun, min_eq_left hle] at htake

section Joints

variable {s u bs b bu : Space} {r ru : Routes} {ts tu : List Nat}
  {real realu : List (Tuple R × Showing R)} {junk junku : List (Showing R)} {js : List Joint}

variable (hC : D.Contracts J) (trunk : D.Shows J s bs r ts real junk)
  (shoot : D.Shows J u bu ru tu realu junku) (hjs : s.glue b u bu = .ok js)
  (hleft : ∀ q ∈ js, r.contains q.left)
include hC trunk shoot hjs hleft

lemma glues_of_keys (hK : D.Keyed) (hstart : bu.axes <+: s.axes) :
    D.Glues s u bs bu r ru js real realu junku := by
  obtain ⟨hkeys, rfl⟩ := Space.glue_keys trunk.isChain shoot.isChain shoot.isBackbone
    shoot.start_axes hstart hjs
  have hleft' : ∀ p ∈ Space.commonAxes s.inflate u.inflate bu, ∀ c ∈ p.keyColumns,
      r.contains (.ofColumn c p p.mark) := fun p hp c hc =>
    hleft (selfJoint p c) (mem_flatMap.2 ⟨p, hp, mem_map_of_mem hc⟩)
  refine ⟨?_, fun x hx f hf => not_joins_keys hC hK trunk shoot hstart hkeys hleft' hx hf⟩
  intro x hx z hz hzx y hy
  obtain ⟨w, hw, hwy⟩ := shoot.exists_tuple y hy
  rw [joins_keys_iff hC hK trunk shoot hstart hkeys hleft' hx hz hzx hy hw hwy, ← hwy]
  constructor
  · exact exists_converge_of_agree hC trunk shoot hstart hz hw
  · rintro ⟨v, hv, hvw, hzv⟩
    exact agree_of_converge trunk shoot hstart hv hw hvw hzv

lemma glues_of_tie (hJ : ∀ j, J j → j.IsFormed) (hspans : s.spans u) (hcolumns : u.columns ≠ [])
    (hstart : ¬ bu.axes <+: s.axes) (hb : b.IsBackbone J) (hbs : b.axes <+: s.axes) :
    D.Glues s u bs bu r ru js real realu junku := by
  have hbackbone := shoot.isBackbone
  obtain ⟨m, c, j, rfl, hc, hj, horigin, hrun⟩ :=
    Space.exists_tie trunk.isChain shoot.isChain hbackbone hspans hcolumns shoot.start_axes hstart
  have hlinks : ∀ x ∈ real, ∀ z ∈ D.tuples s, z.drop bs.hidden = x.1 → ∀ f ε,
      D.Enters (.fiber m c j) ru f ε → (D.joins r ru js x.2 f ↔
        D.Links (D.rowOf c s z) (.fiber j) ε) := by
    intro x hx z hz hzx f ε hε
    obtain rfl | ⟨n, d, k, hd, hdb, hdc, hlen, hfst, rfl⟩ :=
      Space.glue_tie trunk.isChain hb hc (hJ j hj) hbackbone hstart hjs
    · exact joins_tie_iff shoot trunk (hJ j hj) (fun p hp => hleft _ (mem_map_of_mem hp)) hx hz hzx hε
    · exact joins_shortcut_iff shoot hC trunk (hJ j hj) hc hd (hdb.trans hbs) hdc hlen hfst
        (fun p hp => hleft _ (mem_map_of_mem hp)) hx hz hzx hε
  constructor
  · intro x hx z hz hzx y hy
    obtain ⟨w, hw, hwy⟩ := shoot.exists_tuple y hy
    have hlen : (Space.fiber m c j).axes.length = c.axes.length + 1 :=
      length_append.trans rfl
    rw [hlinks x hx z hz hzx y.2 _ (shoot.enters hC hy hw hwy), ← hwy, hlen, Space.hidden_fiber]
    constructor
    · exact exists_converge_of_links shoot hc hrun hw
    · rintro ⟨v, hv, hvw, hzv⟩
      exact links_of_converge shoot hC trunk.isChain hc hspans hv hw hvw hzv
  · intro x hx f hf
    obtain ⟨z, hz, hzx⟩ := trunk.exists_tuple x hx
    obtain ⟨ε, hε, hnone⟩ := shoot.unreached f hf
    rw [Bool.eq_false_iff, Ne, hlinks x hx z hz hzx f ε hε]
    intro hlink
    cases hrow : D.rowOf c s z with
    | none =>
      rw [hrow] at hlink
      obtain ⟨-, -, -, ⟨⟩⟩ := hlink
    | some o =>
      obtain ⟨y, hy, -, hlast⟩ := exists_of_rowOf hrow
      rw [hrow, ← hlast, Tuple.last_eq_lastAfter] at hlink
      exact not_links_of_unreached rfl hnone ((mem_tuples_backbone hc).1 hy) hlink

lemma graft_of_glue (hE : D.Expands J) (hK : D.Keyed) (hJ : ∀ j, J j → j.IsFormed)
    (hdisjoint : ts.Disjoint tu) (hspans : s.spans u) (hcolumns : u.columns ≠ []) (hb : b.IsBackbone J)
    (hbs : b.axes <+: s.axes) (hcut : ∀ p ∈ u.ancestors, p.isCommutative)
    (hapart : u.isInflated → ¬ u.axes <+: s.axes) :
    D.Graft J s u bs bu r ru ts tu real realu junk junku js
      (!u.dominates ((s.ancestors.find? (u.spans ·)).getD s)) := by
  have hglues : D.Glues s u bs bu r ru js real realu junku := by
    by_cases hstart : bu.axes <+: s.axes
    · exact glues_of_keys hC trunk shoot hjs hleft hK hstart
    · exact glues_of_tie hC trunk shoot hjs hleft hJ hspans hcolumns hstart hb hbs
  refine ⟨hglues, trunk, shoot, hdisjoint, hspans, ?_, hapart⟩
  intro houter z hz
  rw [Bool.not_eq_false'] at houter
  exact exists_converge_of_dominates hE trunk.isChain shoot.isChain hcut houter hz

end Joints

end Store

end NavQuery
