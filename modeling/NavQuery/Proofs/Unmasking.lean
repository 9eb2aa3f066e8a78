import NavQuery.Proofs.PhraseValue
import NavQuery.Proofs.Pruning
import NavQuery.Proofs.Renewals
import NavQuery.Proofs.Seams

/-!
Behind a mask filters by `true`, filters and sorts that the mask has as well, and columns that a join
copies from its origin are left out or changed. None of this changes which tuples belong to the space,
among those that converge with a row of the mask.
-/

namespace NavQuery

open List Space Store Ensures

variable {p u t v b : Space} {j : Join}

namespace Space

variable {J : Join → Prop}

lemma spans_of_axes_eq {s : Space} (hs : s.IsChain J) (ht : t.IsChain J) (hu : u.IsChain J)
    (hv : v.IsChain J) (hst : t.axes = s.axes) (huv : v.axes = u.axes) (h : s.spans u) :
    t.spans v := by
  rw [ht.spans_iff hv, hst, huv]
  exact (hs.spans_iff hu).1 h

lemma originColumn_fiber (m : Mark) (b : Space) (j : Join) (c : Column) :
    (fiber m b j).originColumn c = (fiber m b j, c) ∨ ∃ o, j.expanding ∧ j.contracting ∧
        (o, c) ∈ j.originColumns.zip j.targetColumns ∧
        (fiber m b j).originColumn c = b.originColumn o := by
  by_cases hkey : (!j.reverse && j.expanding && j.contracting) = true
  · cases hfind : (j.originColumns.zip j.targetColumns).find? (·.2 == c) with
    | none => exact .inl (by rw [originColumn, if_pos hkey, hfind])
    | some p =>
      have hmem := mem_of_find?_eq_some hfind
      obtain rfl : p.2 = c := by simpa using find?_some hfind
      refine .inr ⟨p.1, ?_, ?_, hmem, by rw [originColumn, if_pos hkey, hfind]⟩ <;> simp_all
  · exact .inl (by rw [originColumn, if_neg hkey])

end Space

namespace Store

variable {R V : Type} [DecidableEq R] [DecidableEq V] {D : Store R V} {J : Join → Prop}

variable {s : Space} {x : Tuple R}

lemma last_of_mem (hs : s.IsChain J) {t : Table} (ht : s.family.table? = some t) (hx : x ∈ D.tuples s) :
    ∃ r ∈ D.rows t, x.last = some r := by
  have hsits := (fits_of_mem hs hx).sits (sits_none none)
  rw [← hs.table?_eq, ht] at hsits
  rw [Tuple.last_eq_lastAfter]
  exact hsits t rfl

omit [DecidableEq R] in
lemma cell_of_meets {r s : R} {o t : Column} (h : D.meets j r s)
    (hot : (o, t) ∈ j.originColumns.zip j.targetColumns) : D.cell r o = D.cell s t := by
  have hall := all_eq_true.1 h (o, t) hot
  exact (of_decide_eq_true hall).2

/-- Across a join that loses and repeats no rows a row is found exactly if one is found at the origin,
and the join leads from the one to the other. -/
theorem rowOf_fiber (hC : D.Contracts J) (hE : D.Expands J) {m : Mark}
    (hs : s.IsChain J) (hu : (Space.fiber m b j).IsChain J) (hexpanding : j.expanding)
    (hcontracting : j.contracting) (hsu : s.spans (.fiber m b j))
    (hx : D.Fits none s.axes x) :
    (D.rowOf b s x = none ∧ D.rowOf (.fiber m b j) s x = none) ∨
      ∃ r t, D.rowOf b s x = some r ∧ D.rowOf (.fiber m b j) s x = some t ∧ D.meets j r t := by
  cases hu with
  | fiber m hb hj fits =>
  have hu : (Space.fiber m b j).IsChain J := .fiber m hb hj fits
  have hstart : b.axes <+: (Space.fiber m b j).axes := ⟨[.fiber j], rfl⟩
  have hsb := Space.spans_start hb hu hstart hsu
  by_cases hy : ∃ y ∈ D.tuples b, s.Converge b x y
  · obtain ⟨y, hyb, hxy⟩ := hy
    obtain ⟨r, hr, hlast⟩ := last_of_mem hb (table?_of_check fits) hyb
    obtain ⟨t, ht, hrt⟩ := hE j hj hexpanding r hr
    have hyt : y ++ [some t] ∈ D.tuples (.fiber m b j) :=
      D.mem_tuples_fiber.2 ⟨y, hyb, t, ht, by rw [follows, hlast]; exact hrt, rfl⟩
    have hxyt : s.Converge (.fiber m b j) x (y ++ [some t]) := by
      refine take_commonRun_eq (k := b.axes.length) hC hu.chained hx (fits_of_mem hu hyt) ?_ ?_
      · intro a ha
        rw [axes, drop_left] at ha
        rw [mem_singleton.1 ha]
        exact hcontracting
      · have hlength := length_of_mem hb hyb
        have hmin : min b.axes.length (commonRun s.axes (Space.fiber m b j).axes) ≤
            commonRun s.axes b.axes := by
          rw [← commonRun_eq_length hstart, commonRun_comm b.axes, min_comm]
          exact min_commonRun_le _ _ _
        have htake := congrArg (List.take
          (min b.axes.length (commonRun s.axes (Space.fiber m b j).axes))) hxy
        rw [take_take, take_take, min_eq_left hmin] at htake
        rw [htake, take_append_of_le_length (hlength ▸ min_le_left _ _)]
    refine .inr ⟨r, t, ?_, ?_, hrt⟩
    · rw [rowOf_eq_last hC hs hb hsb hyb hxy, hlast]
    · rw [rowOf_eq_last hC hs hu hsu hyt hxyt, Tuple.last_append_singleton]
  · refine .inl ⟨rowOf_eq_none fun y hyb hxy => hy ⟨y, hyb, hxy⟩, rowOf_eq_none fun y hyu hxy => ?_⟩
    exact hy ⟨y.take b.axes.length, take_mem_base hu rfl hyu, (hxy.symm.start hstart).symm⟩

/-- A column read across such a join is the column of the key at the origin. -/
theorem value_originColumn (hC : D.Contracts J) (hE : D.Expands J)
    (hs : s.IsChain J) (hu : u.IsChain J) (hsu : s.spans u)
    (hx : D.Fits none s.axes x) {c d : Column} (h : u.originColumn c = (v, d)) :
    v.IsChain J ∧ s.spans v ∧ (D.rowOf v s x).elim D.engine.null (D.cell · d) =
        (D.rowOf u s x).elim D.engine.null (D.cell · c) := by
  induction hu generalizing c with
  | @fiber m b j hb hj fits ih =>
    have hu : (Space.fiber m b j).IsChain J := .fiber m hb hj fits
    obtain heq | ⟨o, hexpanding, hcontracting, hoc, heq⟩ := Space.originColumn_fiber m b j c
    · cases heq.symm.trans h
      exact ⟨hu, hsu, rfl⟩
    · obtain ⟨hv, hsv, hvalue⟩ :=
        ih (Space.spans_start hb hu ⟨[.fiber j], rfl⟩ hsu) (heq.symm.trans h)
      refine ⟨hv, hsv, hvalue.trans ?_⟩
      obtain ⟨hnone, hnone'⟩ | ⟨r, t, hr, ht, hrt⟩ :=
        rowOf_fiber hC hE hs hu hexpanding hcontracting hsu hx
      · rw [hnone, hnone']
        rfl
      · rw [hr, ht]
        exact cell_of_meets hrt hoc
  | root m => cases h; exact ⟨.root m, hsu, rfl⟩
  | scalar m hb => cases h; exact ⟨.scalar m hb, hsu, rfl⟩
  | table m t hb fits => cases h; exact ⟨.table m t hb fits, hsu, rfl⟩
  | filtered m f hb => cases h; exact ⟨.filtered m f hb, hsu, rfl⟩
  | ordered m os l o hb => cases h; exact ⟨.ordered m os l o hb, hsu, rfl⟩

end Store

mutual

/-- Chains without ranges whose conditions and sorts are built from literals, parameters and columns of
such chains, each spanned by the base of the step; the conditions have a given property. -/
def Space.IsLocal (J : Join → Prop) (P : Code → Prop) : Space → Prop
  | .root _ => True
  | .scalar _ b => b.IsLocal J P
  | .table m b t => (Space.table m b t).check = .ok () ∧ b.IsLocal J P
  | .fiber m b j => J j ∧ (Space.fiber m b j).check = .ok () ∧ b.IsLocal J P
  | .filtered _ b f => P f ∧ b.IsLocal J P ∧ f.IsLocal J P b
  | .ordered _ b os l o => l = none ∧ o = none ∧ b.IsLocal J P ∧ Code.IsLocalOrder J P os b
  | .quotient _ _ _ _ _ | .complement _ _ _ | .moniker _ _ _ _ | .forked _ _ _ _ _ | .linked _ _ _ _ _ =>
    False
termination_by structural s => s

/-- Codes of literals, parameters and columns that a space spans. -/
def Code.IsLocal (J : Join → Prop) (P : Code → Prop) : Code → Space → Prop
  | .literal _ _ _, _ | .parameter _ _ _, _ => True
  | .cast _ _ c, s => c.IsLocal J P s
  | .formula _ _ _ as, s => Code.AreLocal J P as s
  | .column _ _ _ u, s => s.spans u ∧ u.IsLocal J P
  | .missing, _ | .correlation _ _, _ | .single _ _ _ _, _ | .aggregate _ _ _ _ _, _
  | .correlated _ _ _ _, _ | .kernel _ _ _, _ | .covering _ _ _, _ => False
termination_by structural c => c

def Code.AreLocal (J : Join → Prop) (P : Code → Prop) : List Code → Space → Prop
  | [], _ => True
  | c :: cs, s => c.IsLocal J P s ∧ Code.AreLocal J P cs s
termination_by structural cs => cs

def Code.IsLocalOrder (J : Join → Prop) (P : Code → Prop) : List (Code × Direction) → Space → Prop
  | [], _ => True
  | o :: os, s => Code.IsLocalItem J P o s ∧ Code.IsLocalOrder J P os s
termination_by structural os => os

def Code.IsLocalItem (J : Join → Prop) (P : Code → Prop) : Code × Direction → Space → Prop
  | (c, _), s => c.IsLocal J P s
termination_by structural o => o

end

section Local

variable {J : Join → Prop} {P : Code → Prop}

lemma Space.IsLocal.isChain : ∀ {s : Space}, s.IsLocal J P → s.IsChain J
  | .root m, _ => .root m
  | .scalar m _, h => .scalar m (isChain h)
  | .table m _ t, h => .table m t (isChain h.2) h.1
  | .fiber m _ _, h => .fiber m (isChain h.2.2) h.1 h.2.1
  | .filtered m _ f, h => .filtered m f (isChain h.2.1)
  | .ordered m _ os l o, h => .ordered m os l o (isChain h.2.2.1)
termination_by structural s => s

lemma Space.IsLocal.base {s : Space} (h : s.IsLocal J P) (hb : s.base? = some b) : b.IsLocal J P := by
  cases s <;> cases hb <;> first | exact h | exact h.2 | exact h.2.1 | exact h.2.2 | exact h.2.2.1 | exact h.elim

lemma Space.isCommutative_of_isLocal (s : Space) (h : s.IsLocal J P) :
    ∀ a ∈ s.ancestors, a.isCommutative = true := by
  intro a ha
  have hlocal : a.IsLocal J P := forall_mem_ancestors (fun _ _ hb h => h.base hb) h a ha
  cases a <;> first | rfl | simp [isCommutative, hlocal.1, hlocal.2.1]

variable {R V : Type} [DecidableEq R] [DecidableEq V] (D : Store R V)

lemma Store.value_of_isTrue {c : Code} (h : c.isTrue = .ok true) (s : Space) (x : Tuple R) :
    D.engine.isTrue (D.value c s x) := by
  unfold Code.isTrue at h
  split at h
  · split at h <;> cases h
    rw [Interpretation.isTrue_iff]
    rfl
  · cases h

lemma Code.areLocal_iff {cs : List Code} {s : Space} :
    Code.AreLocal J P cs s ↔ ∀ c ∈ cs, c.IsLocal J P s := by
  induction cs with
  | nil => simp [AreLocal]
  | cons c cs ih => rw [AreLocal, ih, forall_mem_cons]

lemma Code.isLocalOrder_iff {os : List OrderItem} {s : Space} :
    Code.IsLocalOrder J P os s ↔ ∀ o ∈ os, o.1.IsLocal J P s := by
  induction os with
  | nil => simp [IsLocalOrder]
  | cons o os ih => rw [IsLocalOrder, ih, forall_mem_cons, IsLocalItem]

section Tidy

variable [Discipline] (hP : ∀ f, P f → Passes f.isTrue)
include hP

variable (J P) in
/-- Tidying keeps the rows of a space and the values of a code. It can end in an error only where a
condition is no condition. -/
def Part.Tidied : Part → Prop
  | .space s => s.IsLocal J P → Ensures (fun t => t.IsLocal J (fun _ => True) ∧ t.axes = s.axes ∧
      t.family = s.family ∧ D.tuples t = D.tuples s) (s.rebuild .tidy)
  | .code c => ∀ {s t : Space}, c.IsLocal J P s → s.IsChain J → t.IsChain J → t.axes = s.axes →
      Ensures (fun d => d.IsLocal J (fun _ => True) t ∧ d.isTrue = c.isTrue ∧
        ∀ x, D.value d t x = D.value c s x) (c.rebuild .tidy)

theorem Part.tidied (a : Part) : a.Tidied J P D := by
  refine Part.recursion (fun a hmade => ?_) a
  rcases a with s | c
  · intro hs
    cases s with
    | root => exact ⟨trivial, rfl, rfl, rfl⟩
    | scalar m b =>
      refine (hmade hs).bind ?_
      rintro c ⟨hlocal, haxes, -, htuples⟩
      exact ⟨hlocal, by simp [axes, haxes], rfl, by simp [tuples, htuples]⟩
    | table m b t =>
      refine (hmade hs.2).bind ?_
      rintro c ⟨hlocal, haxes, hfamily, htuples⟩
      refine ⟨⟨?_, hlocal⟩, by simp [axes, haxes], rfl, by simp [tuples, htuples]⟩
      simpa [check, hfamily] using hs.1
    | fiber m b j =>
      refine (hmade hs.2.2).bind ?_
      rintro c ⟨hlocal, haxes, hfamily, htuples⟩
      refine ⟨⟨hs.1, ?_, hlocal⟩, by simp [axes, haxes], rfl, by simp [tuples, htuples]⟩
      simpa [check, hfamily] using hs.2.1
    | filtered m b f =>
      obtain ⟨hf, hb, hlocal⟩ := hs
      refine (hmade.1 hb).bind ?_
      rintro c ⟨hc, haxes, hfamily, htuples⟩
      refine (hmade.2 hlocal hb.isChain hc.isChain haxes).bind ?_
      rintro g ⟨hg, htrue, hvalue⟩
      have hrows : D.tuples (.filtered m c g) = D.tuples (.filtered m b f) := by
        simp only [tuples, htuples, hvalue]
      change Ensures _ (Space.filtered m c g).withoutTrue
      rw [withoutTrue, htrue]
      refine (hP f hf).and_eq.bind ?_
      rintro always ⟨-, halways⟩
      cases always with
      | true =>
        refine ⟨hc, haxes, hfamily, ?_⟩
        rw [← hrows, tuples, filter_eq_self.2 fun x _ => D.value_of_isTrue (htrue.trans halways) c x]
        rfl
      | false => exact ⟨⟨trivial, hc, hg⟩, haxes, hfamily, hrows⟩
    | ordered m b os l o =>
      obtain ⟨rfl, rfl, hb, hos⟩ := hs
      rw [Space.rebuild, Code.rebuildOrder_eq]
      refine (hmade.1 hb).bind ?_
      rintro c ⟨hlocal, haxes, hfamily, htuples⟩
      refine (mapM (Q := fun o => o.1.IsLocal J (fun _ => True) c) fun o ho => ?_).bind fun ps hps => ?_
      · cases o
        exact (hmade.2 _ ho (Code.isLocalOrder_iff.1 hos _ ho) hb.isChain hlocal.isChain haxes).bind
          fun _ hk => hk.1
      · exact ⟨⟨rfl, rfl, hlocal, Code.isLocalOrder_iff.2 hps⟩, haxes, hfamily, by simp [tuples, htuples]⟩
    | quotient | complement | moniker | forked | linked => exact hs.elim
  · intro s t hc hs ht haxes
    cases c with
    | literal | parameter => exact ⟨trivial, rfl, fun x => by simp [value]⟩
    | cast m d c =>
      refine (hmade hc hs ht haxes).bind ?_
      rintro k ⟨hlocal, -, hvalue⟩
      exact ⟨hlocal, rfl, fun x => by simp [value, hvalue x]⟩
    | formula m d f as =>
      rw [Code.rebuild, Code.rebuildAll_eq]
      refine (mapM_forall₂ fun a ha => hmade a ha (Code.areLocal_iff.1 hc a ha) hs ht haxes).bind
        fun bs hbs => ⟨Code.areLocal_iff.2 ?_, rfl, fun x => ?_⟩
      · exact forall_mem_of_forall₂ hbs fun _ _ h => h.1
      · rw [value, value, values_eq_map, values_eq_map]
        rw [map_eq_map_of_forall₂ hbs fun _ _ h => (h.2.2 x).symm]
    | column m d c u =>
      refine (hmade hc.2).bind ?_
      rintro v ⟨hlocal, huaxes, -, htuples⟩
      have hspans : t.spans v :=
        Space.spans_of_axes_eq hs ht hc.2.isChain hlocal.isChain haxes huaxes hc.1
      refine ⟨⟨hspans, hlocal⟩, rfl, fun x => ?_⟩
      rw [value, value, htuples, Tuple.pick_congr haxes huaxes]
    | missing | correlation | single | aggregate | correlated | kernel | covering => exact hc.elim

end Tidy

/-- Whether a tuple over the axes of a space converges with a row of a mask. -/
def Store.Masked (m s : Space) (x : Tuple R) : Prop :=
  D.Fits none s.axes x ∧ ∃ y ∈ D.tuples m, s.Converge m x y

variable {D} {s m : Space} {x : Tuple R}

lemma Store.Masked.start (h : D.Masked m s x)
    (hp : p.axes <+: s.axes) : D.Masked m p (x.take p.axes.length) := by
  obtain ⟨hx, y, hy, hxy⟩ := h
  refine ⟨?_, y, hy, hxy.start hp⟩
  have := (hx.split p.axes.length).1
  rwa [← prefix_iff_eq_take.1 hp] at this

lemma Store.masked_self (hs : s.IsChain J) (hx : x ∈ D.tuples s) : D.Masked s s x :=
  ⟨fits_of_mem hs hx, x, hx, rfl⟩

lemma Store.mem_iff_of_axis {c : Space} {a : Axis} (hs : s.axis? = some a)
    (ht : t.axis? = some a) (hb : s.base? = some b) (hc : t.base? = some c)
    (haxes : c.axes = b.axes)
    (h : ∀ x, D.Masked m b x → (x ∈ D.tuples b ↔ x ∈ D.tuples c))
    (hx : D.Masked m s x) : x ∈ D.tuples s ↔ x ∈ D.tuples t := by
  have haxes' : t.axes = s.axes := by
    rw [axes_of_axis? hs hb, axes_of_axis? ht hc, haxes]
  have hstart := hx.start (p := b) ⟨[a], (axes_of_axis? hs hb).symm⟩
  rw [mem_tuples_axis_iff_take hs hb hx.1, mem_tuples_axis_iff_take ht hc (haxes' ▸ hx.1), haxes]
  exact h _ hstart

/-- What a space reads in a unit depends only on those rows of the unit that are behind the mask. -/
theorem Store.rowOf_eq_of_masked (hC : D.Contracts J) (hs : s.IsChain J)
    (hu : u.IsChain J) (hv : v.IsChain J) (hm : m.IsChain J) (hsu : s.spans u)
    (haxes : v.axes = u.axes)
    (hrows : ∀ y, D.Masked m u y → (y ∈ D.tuples u ↔ y ∈ D.tuples v))
    (hx : D.Masked m s x) : D.rowOf v s x = D.rowOf u s x := by
  have hsv : s.spans v := Space.spans_of_axes_eq hs hs hu hv rfl haxes hsu
  obtain ⟨-, z, hz, hxz⟩ := hx
  have hmasked : ∀ y, D.Fits none u.axes y → s.Converge u x y → D.Masked m u y :=
    fun y hy hxy => ⟨hy, z, hz, .of_spans hC hs hu hsu hy (fits_of_mem hm hz) hxy hxz⟩
  refine rowOf_eq hC hs hv hs hu hsv hsu fun y => ?_
  simp only [Converge, haxes]
  refine and_congr_left fun hxy => ⟨fun hy => ?_, fun hy => ?_⟩
  · exact (hrows y (hmasked y (haxes ▸ fits_of_mem hv hy) hxy)).2 hy
  · exact (hrows y (hmasked y (fits_of_mem hu hy) hxy)).1 hy

/-- A tuple behind a mask meets the conditions that the mask makes superfluous. -/
theorem Store.isTrue_of_isMasked {k : Mark} {f : Code} (hb : b.IsChain J)
    (hm : m.IsChain J) (hcomm : ∀ a ∈ b.ancestors, a.isCommutative)
    (h : isMasked m (.filtered k b f) b) (hx : D.Masked m b x) :
    D.engine.isTrue (D.value f b x) := by
  obtain ⟨n, v, g, vs, hfg, hv, hvs⟩ := exists_filter_of_isMasked hb hm hcomm h
  obtain ⟨hfits, y, hy, hxy⟩ := hx
  have hstart : b.axes <+: m.axes := hv ▸ hvs.axes_start hm
  have hxy' : x = y.take v.axes.length := by
    rw [Converge, commonRun_eq_length hstart, ← hfits.length_eq, take_length] at hxy
    rw [hxy, hv, hfits.length_eq]
  have hmem := (D.mem_tuples_filtered.1 (take_mem_of_leads hvs hm hy)).2
  rw [D.value_of_beq hfg, D.value_congr hv.symm, hxy']
  exact hmem

lemma Space.isChain_codeMask (hm : m.IsChain J) (hb : b.IsChain J) :
    (codeMask m b).IsChain J := by
  rw [codeMask]
  split
  · exact hm
  · exact hb

lemma Store.masked_codeMask (hb : b.IsChain J) (hx : D.Masked m b x)
    (hxb : x ∈ D.tuples b) : D.Masked (codeMask m b) b x := by
  rw [codeMask]
  split
  · exact hx
  · exact masked_self hb hxb

section Unmask

variable [Discipline] (hC : D.Contracts J) (hE : D.Expands J) {root : Space}
include hC hE

variable (D J P root) in
/-- Unmasking keeps the rows that are behind the mask, and the values that a code has there. -/
def Part.Uncovered : Part → Prop
  | .space s => ∀ {m : Space}, s.IsLocal J P → m.IsChain J →
      Ensures (fun r => r.IsChain J ∧ r.axes = s.axes ∧ r.family = s.family ∧
        ∀ x, D.Masked m s x → (x ∈ D.tuples s ↔ x ∈ D.tuples r)) (unmask root s m)
  | .code c => ∀ {s m : Space}, c.IsLocal J P s → s.IsChain J → m.IsChain J →
      Ensures (fun d => ∀ x, D.Masked m s x → D.value d s x = D.value c s x) (c.unmask root m)

theorem Part.uncovered (a : Part) : a.Uncovered J P D root := by
  refine Part.recursion (fun a hmade => ?_) a
  rcases a with s | c
  · intro m hs hm
    cases s with
    | root k => exact ⟨.root k, rfl, rfl, fun _ _ => Iff.rfl⟩
    | scalar k b =>
      refine (hmade hs hm).bind ?_
      rintro c ⟨hchain, haxes, -, hrows⟩
      exact ⟨.scalar k hchain, by simp [axes, haxes], rfl,
        fun x hx => mem_iff_of_axis rfl rfl rfl rfl haxes hrows hx⟩
    | table k b t =>
      refine (hmade hs.2 hm).bind ?_
      rintro c ⟨hchain, haxes, hfamily, hrows⟩
      refine ⟨.table k t hchain ?_, by simp [axes, haxes], rfl,
        fun x hx => mem_iff_of_axis rfl rfl rfl rfl haxes hrows hx⟩
      simpa [check, hfamily] using hs.1
    | fiber k b j =>
      refine (hmade hs.2.2 hm).bind ?_
      rintro c ⟨hchain, haxes, hfamily, hrows⟩
      refine ⟨.fiber k hchain hs.1 ?_, by simp [axes, haxes], rfl,
        fun x hx => mem_iff_of_axis rfl rfl rfl rfl haxes hrows hx⟩
      simpa [check, hfamily] using hs.2.1
    | filtered k b f =>
      obtain ⟨_, hb, hf⟩ := hs
      rw [unmask]
      split
      · rename_i hmasked
        refine (hmade.1 hb hm).imp ?_
        rintro r ⟨hchain, haxes, hfamily, hrows⟩
        refine ⟨hchain, haxes, hfamily, fun x hx => ?_⟩
        rw [D.mem_tuples_filtered, ← hrows x hx]
        exact and_iff_left (isTrue_of_isMasked hb.isChain hm
          (Space.isCommutative_of_isLocal b hb) hmasked hx)
      · refine (hmade.2 hf hb.isChain (isChain_codeMask hm hb.isChain)).bind fun g hg => ?_
        refine (hmade.1 hb hm).bind ?_
        rintro c ⟨hchain, haxes, hfamily, hrows⟩
        refine ⟨.filtered k g hchain, haxes, hfamily, fun x hx => ?_⟩
        rw [D.mem_tuples_filtered, D.mem_tuples_filtered, ← hrows x hx]
        refine and_congr_right fun hxb => ?_
        rw [D.value_congr haxes, hg x (masked_codeMask hb.isChain hx hxb)]
    | ordered k b os l o =>
      obtain ⟨rfl, rfl, hb, hos⟩ := hs
      rw [unmask, Code.unmaskOrder_eq]
      have hsame (c : Space) (ps : List OrderItem) :
          D.tuples (.ordered k c ps none none) = D.tuples c := by simp [tuples]
      split
      · refine (hmade.1 hb hm).imp ?_
        rintro r ⟨hchain, haxes, hfamily, hrows⟩
        exact ⟨hchain, haxes, hfamily, fun x hx => by rw [hsame]; exact hrows x hx⟩
      · refine (mapM (Q := fun _ => True) fun o ho => ?_).bind fun ps _ => ?_
        · cases o
          exact (hmade.2 _ ho (Code.isLocalOrder_iff.1 hos _ ho) hb.isChain
            (isChain_codeMask hm hb.isChain)).bind fun _ _ => trivial
        · refine (hmade.1 hb hm).bind ?_
          rintro c ⟨hchain, haxes, hfamily, hrows⟩
          exact ⟨.ordered k ps none none hchain, haxes, hfamily,
            fun x hx => by rw [hsame]; exact hrows x hx⟩
    | quotient | complement | moniker | forked | linked => exact hs.elim
  · intro s m hc hs hm
    cases c with
    | literal | parameter => exact fun _ _ => rfl
    | cast => exact (hmade hc hs hm).bind fun k hk x hx => by simp only [value, hk x hx]
    | formula _ _ _ as =>
      rw [Code.unmask, Code.unmaskAll_eq]
      refine (mapM_forall₂ fun a ha => hmade a ha (Code.areLocal_iff.1 hc a ha) hs hm).bind
        fun bs hbs x hx => ?_
      rw [value, value, values_eq_map, values_eq_map, map_eq_map_of_forall₂ hbs fun _ _ h => (h x hx).symm]
    | column _ _ c u =>
      obtain ⟨hsu, hu⟩ := hc
      refine (hmade hu hm).bind ?_
      rintro v ⟨hchain, haxes, -, hrows⟩ x hx
      have hsv : s.spans v := Space.spans_of_axes_eq hs hs hu.isChain hchain rfl haxes hsu
      obtain ⟨-, -, horigin⟩ :=
        Store.value_originColumn hC hE hs hchain hsv hx.1 (rfl : v.originColumn c = (_, _))
      rw [value_column, value_column, horigin]
      rw [rowOf_eq_of_masked hC hs hu.isChain hchain hm hsu haxes hrows hx]
    | missing | correlation | single | aggregate | correlated | kernel | covering => exact hc.elim

end Unmask

/-- Behind the rows of a mask, a space and what simplifying leaves of it have the same tuples. A space is
left wherever each condition that is a boolean literal holds a truth value or null. -/
theorem Store.mem_simplify_iff (hC : D.Contracts J) (hE : D.Expands J) {s m : Space}
    (hs : s.IsLocal J P) (hm : m.IsLocal J P) :
    (∀ r, s.simplify (some m) = .ok r → r.axes = s.axes ∧
      ∀ x ∈ D.tuples s.axesOnly, (∃ y ∈ D.tuples m, s.Converge m x y) →
        (x ∈ D.tuples s ↔ x ∈ D.tuples r)) ∧
    ((∀ f, P f → ∃ always, f.isTrue = .ok always) → ∃ r, s.simplify (some m) = .ok r) := by
  rw [simplify_eq]
  refine ⟨fun r h => ?_, fun hP => ?_⟩
  · let : Discipline := Discipline.anything.toDiscipline
    have hany (f : Code) (_ : P f) : Passes f.isTrue := .any _
    obtain ⟨t, ht, h⟩ := exists_of_bind_eq_ok h
    obtain ⟨n, hn, h⟩ := exists_of_bind_eq_ok h
    obtain ⟨htlocal, htaxes, -, httuples⟩ := (Part.tidied D hany (.space s) hs).of_ok ht
    obtain ⟨hnlocal, hnaxes, -, hntuples⟩ := (Part.tidied D hany (.space m) hm).of_ok hn
    obtain ⟨-, hraxes, -, hrows⟩ := (Part.uncovered hC hE (.space t) htlocal hnlocal.isChain).of_ok h
    refine ⟨hraxes.trans htaxes, fun x hx hmask => ?_⟩
    have hmasked : D.Masked n t x := by
      rw [Masked, hntuples]
      simp only [Converge, htaxes, hnaxes]
      exact ⟨(mem_tuples_axesOnly hs.isChain).1 hx, hmask⟩
    rw [← httuples]
    exact hrows x hmasked
  · let : Discipline := Discipline.total
    have htrue (f : Code) (hf : P f) : Passes f.isTrue := by
      obtain ⟨always, halways⟩ := hP f hf
      exact .of_eq_ok halways trivial
    obtain ⟨t, ht, htlocal, -⟩ := (Part.tidied D htrue (.space s) hs).exists_eq_ok
    obtain ⟨n, hn, hnlocal, -⟩ := (Part.tidied D htrue (.space m) hm).exists_eq_ok
    simp only [Option.elim_some, tidy, ht, hn]
    obtain ⟨r, hr, -⟩ := (Part.uncovered hC hE (.space t) htlocal hnlocal.isChain).exists_eq_ok
    exact ⟨r, hr⟩

/-- The schools of open departments need no condition where a department is known to be open. -/
theorem Store.mem_simplify_iff_open :
    let s : Space := .fiber .nowhere Sample.openDepartments Sample.home
    [none, some (false, true), some (true, true)] ∈ Sample.store.tuples s.axesOnly ∧
    (∃ y ∈ Sample.store.tuples Sample.openDepartments,
      s.Converge Sample.openDepartments [none, some (false, true), some (true, true)] y) ∧
    ∃ r, s.simplify (some Sample.openDepartments) = .ok r ∧
      [none, some (false, true), some (true, true)] ∈ Sample.store.tuples r := by
  intro s
  have hspans : Sample.departments.spans Sample.departments = true :=
    (Sample.departments_isChain.spans_iff Sample.departments_isChain).2 (by decide)
  have hdepartments :
      Sample.departments.IsLocal (· = Sample.home) fun f => ∃ always, f.isTrue = .ok always :=
    ⟨rfl, trivial⟩
  have hopen : Sample.openDepartments.IsLocal (· = Sample.home)
      fun f => ∃ always, f.isTrue = .ok always :=
    ⟨⟨false, rfl⟩, hdepartments, hspans, hdepartments⟩
  have hs : s.IsLocal (· = Sample.home) fun f => ∃ always, f.isTrue = .ok always :=
    ⟨rfl, rfl, hopen⟩
  have haxes : [none, some (false, true), some (true, true)] ∈ Sample.store.tuples s.axesOnly := by
    decide
  have hmask : ∃ y ∈ Sample.store.tuples Sample.openDepartments,
      s.Converge Sample.openDepartments [none, some (false, true)] y :=
    ⟨[none, some (false, true)], by decide, by decide⟩
  obtain ⟨hrows, hreturns⟩ := mem_simplify_iff Sample.contracts Sample.expands hs hopen
  obtain ⟨r, hr⟩ := hreturns fun _ hf => hf
  exact ⟨haxes, hmask, r, hr, ((hrows r hr).2 _ haxes hmask).1 (by decide)⟩

end Local

end NavQuery
