import NavQuery.Proofs.Shows

/-!
Rows that go on from a baseline are attached to rows that end before it by joints that unreached rows
never match. The joints of a shoot with the trunk hold exactly for converging tuples, so a row of the trunk
finds one match or none.
-/

namespace NavQuery

open List Tuple

namespace Store

variable {R V : Type} [DecidableEq R] [DecidableEq V] {D : Store R V} {J : Join → Prop}

variable {a : Axis} {α β : List Axis} {y : Tuple R}

omit [DecidableEq R] in
lemma not_links_of_unreached {ε : Option R} (hβ : β = α ++ [a])
    (hnone : ∀ y, D.Fits none β y → lastAfter none y ≠ ε)
    (hy : D.Fits none α y) : ¬ D.Links (lastAfter none y) a ε := by
  intro hlink
  refine hnone (y ++ [ε]) ?_ (lastAfter_append_singleton _ _ _)
  rw [hβ, fits_append_singleton]
  exact ⟨y, ε, rfl, hy, hlink⟩

omit [DecidableEq R] in
lemma Fits.relink {z : Tuple R} (hz : D.Fits none (α ++ a :: β) z) (hy : D.Fits none α y)
    (hlink : D.Links (lastAfter none y) a (lastAfter none (z.take (α.length + 1)))) :
    D.Fits none (α ++ a :: β) (y ++ z.drop α.length) := by
  obtain ⟨x, w, rfl, hx, hw⟩ := fits_append.1 hz
  rw [← hx.length_eq] at hlink ⊢
  rw [drop_left]
  refine fits_append.2 ⟨y, w, rfl, hy, ?_⟩
  match w, hw with
  | ε :: w, hw =>
    rw [take_length_add_append, take_succ_cons, take_zero, lastAfter_append_singleton] at hlink
    exact ⟨hlink, hw.2⟩

section Rows

variable (D)

/-- Rows that stand for tuples, put together where they match. -/
def joined (left right : Routes) (joints : List Joint) (xs ys : List (Tuple R × Showing R)) :
    List (Tuple R × Showing R) :=
  xs.flatMap fun x => (ys.filter fun y => D.joins left right joints x.2 y.2).map fun y =>
    (x.1 ++ y.1, x.2.merge y.2)

variable {D}
variable {rl rr : Routes} {js : List Joint} {xs ys : List (Tuple R × Showing R)}
  {junk more es fs : List (Showing R)}

omit [DecidableEq R] in
lemma mem_joined {w : Tuple R × Showing R} : w ∈ D.joined rl rr js xs ys ↔
    ∃ x ∈ xs, ∃ y ∈ ys, D.joins rl rr js x.2 y.2 ∧ w = (x.1 ++ y.1, x.2.merge y.2) := by
  simp only [joined, mem_flatMap, mem_map, mem_filter, and_assoc]
  simp only [eq_comm]

omit [DecidableEq R] in
lemma nodup_joined {n : Nat} (hxs : (xs.map Prod.fst).Nodup) (hys : (ys.map Prod.fst).Nodup)
    (hn : ∀ x ∈ xs, x.1.length = n) : ((D.joined rl rr js xs ys).map Prod.fst).Nodup := by
  induction xs with
  | nil => exact nodup_nil
  | cons x xs ih =>
    rw [map_cons, nodup_cons] at hxs
    have ih := ih hxs.2 fun w hw => hn w (mem_cons_of_mem x hw)
    have hfirst : ((ys.filter fun y => D.joins rl rr js x.2 y.2).map fun y => x.1 ++ y.1).Nodup := by
      rw [show (fun y : Tuple R × Showing R => x.1 ++ y.1) = (x.1 ++ ·) ∘ Prod.fst from rfl, ← map_map]
      exact (hys.sublist (filter_sublist.map _)).map (append_right_injective x.1)
    rw [joined, flatMap_cons, map_append, map_map]
    refine hfirst.append ih ?_
    intro w hw hw'
    obtain ⟨y, -, rfl⟩ := mem_map.1 hw
    obtain ⟨v, hv, hvw⟩ := mem_map.1 hw'
    obtain ⟨x', hx', y', -, -, rfl⟩ := mem_joined.1 hv
    have hlen : x'.1.length = x.1.length := by
      rw [hn x mem_cons_self, hn x' (mem_cons_of_mem x hx')]
    exact hxs.1 (mem_map.2 ⟨x', hx', (append_inj hvw hlen).1⟩)

omit [DecidableEq R] in
/-- Evaluating a join of two terms, if unreached rows on the right find no match. -/
theorem flatMap_matched_perm (hes : es.Perm (xs.map Prod.snd ++ junk))
    (hfs : fs.Perm (ys.map Prod.snd ++ more))
    (hnone : ∀ x ∈ xs, ∀ f ∈ more, D.joins rl rr js x.2 f = false) :
    (es.flatMap (D.matched rl rr js fs)).Perm ((D.joined rl rr js xs ys).map Prod.snd ++
      junk.flatMap (D.matched rl rr js (ys.map Prod.snd ++ more))) := by
  have hright : (es.flatMap (D.matched rl rr js fs)).Perm
      (es.flatMap (D.matched rl rr js (ys.map Prod.snd ++ more))) :=
    List.Perm.flatMap_left es fun e _ => (hfs.filter _).map _
  have hreal : (xs.map Prod.snd).flatMap (D.matched rl rr js (ys.map Prod.snd ++ more)) =
      (D.joined rl rr js xs ys).map Prod.snd := by
    rw [joined, flatMap_map, map_flatMap]
    refine flatMap_congr fun x hx => ?_
    have hmore : more.filter (D.joins rl rr js x.2) = [] := by
      simpa using hnone x hx
    rw [matched, filter_append, hmore, append_nil, filter_map, map_map, map_map]
    rfl
  refine hright.trans ((hes.flatMap_right _).trans ?_)
  rw [flatMap_append, hreal]

end Rows

section Attach

variable {k n : Nat} {z : Tuple R}

omit [DecidableEq R] [DecidableEq V] in
lemma drop_eq_append (hnk : n ≤ k) (hk : k ≤ z.length) : z.drop n = (z.take k).drop n ++ z.drop k := by
  have hlen : (z.take k).length = k := by rw [length_take, min_eq_left hk]
  conv_lhs => rw [← take_append_drop k z]
  exact drop_append_of_le_length (by omega)

omit [DecidableEq R] [DecidableEq V] in
lemma drop_inj {x y : Tuple R} (hnk : n ≤ k) (hk : k ≤ z.length)
    (hx : x.length = k - n) (h : z.drop n = x ++ y) : (z.take k).drop n = x ∧ z.drop k = y := by
  rw [drop_eq_append hnk hk] at h
  refine append_inj h ?_
  rw [length_drop, length_take, hx, min_eq_left hk]

variable (D J)

/-- Rows of a space `p` beside rows that go on from the next axis `a`, with joints that link the entries.
Together they show a space `s`. -/
structure Attachment (p q s bl br : Space) (rl rr : Routes) (tl tr : List Nat)
    (reall realr : List (Tuple R × Showing R)) (junkl junkr : List (Showing R)) (a : Axis)
    (js : List Joint) : Prop where
  left : D.Shows J p bl rl tl reall junkl
  right : D.Shows J q br rr tr realr junkr
  disjoint : tl.Disjoint tr
  axes_baseline : br.axes = p.axes ++ [a]
  isChain : s.IsChain J
  axes_eq : s.axes = q.axes
  start : bl.axes <+: s.inflatedAncestor.axes
  mem_iff : ∀ z, D.Fits none s.axes z →
    (z ∈ D.tuples s ↔ z.take p.axes.length ∈ D.tuples p ∧ z ∈ D.tuples q)
  joins_iff : ∀ x ∈ reall, ∀ y ∈ D.tuples p, y.drop bl.hidden = x.1 → ∀ f ε,
    D.Enters br rr f ε → (D.joins rl rr js x.2 f ↔ D.Links (lastAfter none y) a ε)

variable {D J}

omit [DecidableEq R] in
/-- Rows of trees without common tags, put together. -/
theorem merge_spec {tl tr : List Nat} {e f : Showing R} (hdisj : tl.Disjoint tr)
    (he : ∀ k, k ∉ tl → e k = none) (hf : ∀ k, k ∉ tr → f k = none) :
    (∀ k ∈ tl, e.merge f k = e k) ∧ (∀ k ∈ tr, e.merge f k = f k) ∧
      ∀ k, k ∉ tl ++ tr → e.merge f k = none := by
  refine ⟨fun k hk => ?_, fun k hk => ?_, fun k hk => ?_⟩
  · rw [Showing.merge, hf k fun h => hdisj hk h, Option.or_none]
  · rw [Showing.merge, he k fun h => hdisj h hk, Option.none_or]
  · rw [mem_append, not_or] at hk
    rw [Showing.merge, he k hk.1, hf k hk.2, Option.none_or]

namespace Attachment

variable {p q s bl br : Space} {rl rr : Routes} {tl tr : List Nat}
  {reall realr : List (Tuple R × Showing R)} {junkl junkr : List (Showing R)} {a : Axis}
  {js : List Joint}
  (h : D.Attachment J p q s bl br rl rr tl tr reall realr junkl junkr a js)
include h

lemma axes_start : p.axes <+: s.axes := by
  rw [h.axes_eq]
  refine List.IsPrefix.trans ?_ h.right.start_axes
  rw [h.axes_baseline]
  exact prefix_append _ _

lemma hidden_eq : br.hidden = p.axes.length := by
  rw [Space.hidden, h.axes_baseline, length_append]
  rfl

variable {x y : Tuple R × Showing R} {z : Tuple R}

lemma length_left (hx : x ∈ reall) : x.1.length = p.axes.length - bl.hidden := by
  obtain ⟨w, hw, hwx⟩ := h.left.exists_tuple x hx
  rw [← hwx, length_drop, length_of_mem h.left.isChain hw]

/-- A tuple that goes on as two rows together consists of tuples of both. -/
theorem split (hz : D.Fits none s.axes z) (hx : x ∈ reall) (hzxy : z.drop bl.hidden = x.1 ++ y.1) :
    (z.take p.axes.length).drop bl.hidden = x.1 ∧ z.drop br.hidden = y.1 := by
  rw [h.hidden_eq]
  refine drop_inj h.left.hidden_lt.le ?_ (h.length_left hx) hzxy
  rw [hz.length_eq]
  exact h.axes_start.length_le

lemma merge (hx : x ∈ reall) (hy : y ∈ realr) :
    (∀ k ∈ tl, x.2.merge y.2 k = x.2 k) ∧ (∀ k ∈ tr, x.2.merge y.2 k = y.2 k) ∧
      ∀ k, k ∉ tl ++ tr → x.2.merge y.2 k = none :=
  merge_spec h.disjoint (h.left.supported _ (.inl (mem_map_of_mem hx)))
    (h.right.supported _ (.inl (mem_map_of_mem hy)))

lemma exists_tuple (hC : D.Contracts J) (hx : x ∈ reall) (hy : y ∈ realr)
    (hxy : D.joins rl rr js x.2 y.2) : ∃ z ∈ D.tuples s, z.drop bl.hidden = x.1 ++ y.1 := by
  obtain ⟨u, hu, hux⟩ := h.left.exists_tuple x hx
  obtain ⟨z, hz, hzy⟩ := h.right.exists_tuple y hy
  have hufits := fits_of_mem h.left.isChain hu
  have hlink := (h.joins_iff x hx u hu hux y.2 _ (h.right.enters hC hy hz hzy)).1 hxy
  have hfits : D.Fits none s.axes (u ++ y.1) := by
    obtain ⟨β, hβ⟩ := h.right.start_axes
    have hzfits := fits_of_mem h.right.isChain hz
    rw [h.axes_baseline, length_append] at hlink
    rw [h.axes_eq, ← hβ, h.axes_baseline, append_assoc, ← hzy, h.hidden_eq]
    rw [← hβ, h.axes_baseline, append_assoc] at hzfits
    exact hzfits.relink hufits hlink
  have htake : (u ++ y.1).take p.axes.length = u := by rw [← hufits.length_eq, take_left]
  have hdrop : (u ++ y.1).drop br.hidden = y.1 := by
    rw [h.hidden_eq, ← hufits.length_eq, drop_left]
  have hlt := h.left.hidden_lt
  refine ⟨u ++ y.1, (h.mem_iff _ hfits).2 ⟨?_, ?_⟩, ?_⟩
  · rwa [htake]
  · rw [h.right.mem_iff _ (h.axes_eq ▸ hfits), hdrop]
    exact mem_map_of_mem hy
  · rw [drop_append_of_le_length (by rw [hufits.length_eq]; exact hlt.le), hux]

lemma joins_of_mem (hC : D.Contracts J) (hzp : z.take p.axes.length ∈ D.tuples p) (hzq : z ∈ D.tuples q)
    (hx : x ∈ reall) (hy : y ∈ realr) (hxz : (z.take p.axes.length).drop bl.hidden = x.1)
    (hyz : z.drop br.hidden = y.1) : D.joins rl rr js x.2 y.2 := by
  rw [h.joins_iff x hx _ hzp hxz y.2 _ (h.right.enters hC hy hzq hyz)]
  have hfits := (fits_of_mem h.right.isChain hzq).start h.right.start_axes
  rw [h.axes_baseline, fits_append_singleton] at hfits
  obtain ⟨w, ε, hw, hwfits, hlink⟩ := hfits
  have hwz : z.take p.axes.length = w := by
    have htake := congrArg (List.take p.axes.length) hw
    rwa [take_take, length_append, min_eq_left (by omega), ← hwfits.length_eq,
      take_left, hwfits.length_eq] at htake
  rw [h.axes_baseline, hw, lastAfter_append_singleton, hwz]
  exact hlink

lemma mem_tuples_iff (hC : D.Contracts J) (hz : D.Fits none s.axes z) :
    z ∈ D.tuples s ↔ z.drop bl.hidden ∈ (D.joined rl rr js reall realr).map Prod.fst := by
  have hp := hz.start h.axes_start
  have hq : D.Fits none q.axes z := h.axes_eq ▸ hz
  rw [h.mem_iff z hz]
  constructor
  · rintro ⟨hzp, hzq⟩
    obtain ⟨x, hx, hxz⟩ := h.left.exists_real hzp
    obtain ⟨y, hy, hyz⟩ := h.right.exists_real hzq
    have hxy := h.joins_of_mem hC hzp hzq hx hy hxz hyz
    refine mem_map.2 ⟨_, mem_joined.2 ⟨x, hx, y, hy, hxy, rfl⟩, ?_⟩
    rw [← hxz, ← hyz, h.hidden_eq]
    refine (drop_eq_append h.left.hidden_lt.le ?_).symm
    rw [hz.length_eq]
    exact h.axes_start.length_le
  · intro hzw
    obtain ⟨w, hw, hwz⟩ := mem_map.1 hzw
    obtain ⟨x, hx, y, hy, -, rfl⟩ := mem_joined.1 hw
    obtain ⟨hzx, hzy⟩ := h.split hz hx hwz.symm
    rw [h.left.mem_iff _ hp, h.right.mem_iff z hq, hzx, hzy]
    exact ⟨mem_map_of_mem hx, mem_map_of_mem hy⟩

variable {k : Nat} {u : Code}

lemma reads_left (hC : D.Contracts J) (hread : D.Reads J p bl tl reall u k) :
    D.Reads J s bl (tl ++ tr) (D.joined rl rr js reall realr) u k := by
  refine ⟨hread.isColumn, mem_append_left _ hread.mem_tags, hread.isChain, ?_, ?_, ?_⟩
  · intro m d c v hv
    exact Space.spans_of_axes_start h.isChain h.left.isChain h.axes_start (hread.spans m d c v hv)
  · intro m d c v hv hi hvs
    obtain hle | hgt := le_or_gt v.axes.length p.axes.length
    · exact hread.length_le m d c v hv hi (prefix_of_prefix_length_le hvs h.axes_start hle)
    · exact h.left.start_axes.length_le.trans hgt.le
  · intro m d c v hv w hw z hz hzw
    obtain ⟨x, hx, y, hy, -, rfl⟩ := mem_joined.1 hw
    have hfits := fits_of_mem h.isChain hz
    calc x.2.merge y.2 k = x.2 k := (h.merge hx hy).1 k hread.mem_tags
      _ = D.rowOf v p (z.take p.axes.length) :=
        hread.row_eq m d c v hv x hx _ ((h.mem_iff z hfits).1 hz).1 (h.split hfits hx hzw).1
      _ = D.rowOf v s z := (rowOf_longer hC h.left.isChain h.isChain (hread.isChain m d c v hv)
        h.axes_start (hread.spans m d c v hv) hfits).symm

lemma reads_right (hread : D.Reads J q br tr realr u k) :
    D.Reads J s bl (tl ++ tr) (D.joined rl rr js reall realr) u k := by
  refine ⟨hread.isColumn, mem_append_right _ hread.mem_tags, hread.isChain, ?_, ?_, ?_⟩
  · intro m d c v hv
    exact Space.spans_of_axes_start h.isChain h.right.isChain (h.axes_eq ▸ prefix_rfl) (hread.spans m d c v hv)
  · intro m d c v hv hi hvs
    have hle := hread.length_le m d c v hv hi (h.axes_eq ▸ hvs)
    have hbl := h.left.start_axes.length_le
    rw [h.axes_baseline, length_append] at hle
    omega
  · intro m d c v hv w hw z hz hzw
    obtain ⟨x, hx, y, hy, -, rfl⟩ := mem_joined.1 hw
    have hfits := fits_of_mem h.isChain hz
    calc x.2.merge y.2 k = y.2 k := (h.merge hx hy).2.1 k hread.mem_tags
      _ = D.rowOf v q z :=
        hread.row_eq m d c v hv y hy z ((h.mem_iff z hfits).1 hz).2 (h.split hfits hx hzw).2
      _ = D.rowOf v s z := (rowOf_congr h.axes_eq z).symm

/-- The columns on the right belong to axes from the right baseline on, so a row that is unreached on the
left stays so. -/
theorem unreached {e f : Showing R} (he : e ∈ junkl) (hf : f ∈ realr.map Prod.snd ++ junkr) :
    D.Unreached bl (rl.update rr) (e.merge f) := by
  obtain ⟨ε, hε, hnone⟩ := h.left.unreached e he
  have hkeep := (merge_spec h.disjoint (h.left.supported e (.inr he))
    (h.right.supported f (mem_append.1 hf))).1
  refine ⟨ε, ⟨hε.possible, ?_⟩, hnone⟩
  refine Routes.forall_update (exchanges_points _ _ _) (fun x hx => ?_) fun x hx => ?_
  · intro m d c v hv hi hvb
    rw [hkeep _ (h.left.reads x hx).mem_tags]
    exact hε.points x hx m d c v hv hi hvb
  · intro m d c v hv hi hvb
    have hvq : v.axes <+: q.axes := by
      rw [hvb, ← h.axes_eq]
      exact h.left.start_axes.trans h.axes_start
    have hle := (h.right.reads x hx).length_le m d c v hv hi hvq
    have hbl := h.left.start_axes.length_le
    rw [h.axes_baseline, hvb, length_append, length_singleton] at hle
    omega

lemma covers {u : Space} (hu : u.IsBackbone J) (hbu : bl.axes <+: u.axes) (hus : u.axes <+: s.axes)
    {c : Column} (hc : c ∈ u.columns) (m : Mark) : (rl.update rr).contains (.ofColumn c u m) := by
  rw [Routes.contains_update]
  obtain hle | hgt := le_or_gt u.axes.length p.axes.length
  · exact .inl (h.left.covers u hu hbu (prefix_of_prefix_length_le hus h.axes_start hle) c hc m)
  · refine .inr (h.right.covers u hu ?_ (h.axes_eq ▸ hus) c hc m)
    refine prefix_of_prefix_length_le (h.axes_eq ▸ h.right.start_axes) hus ?_
    rw [h.axes_baseline, length_append]
    exact hgt

lemma shows (hC : D.Contracts J) :
    D.Shows J s bl (rl.update rr) (tl ++ tr) (D.joined rl rr js reall realr)
      (junkl.flatMap (D.matched rl rr js (realr.map Prod.snd ++ junkr))) := by
  refine ⟨h.isChain, h.left.isBackbone, h.start, ?_, ?_, fun z hz => h.mem_tuples_iff hC hz, ?_,
    fun u hu hbu hus c hc m => h.covers hu hbu hus hc m, ?_, ?_⟩
  · exact nodup_joined h.left.nodup h.right.nodup fun x hx => h.length_left hx
  · intro w hw
    obtain ⟨x, hx, y, hy, hxy, rfl⟩ := mem_joined.1 hw
    exact h.exists_tuple hC hx hy hxy
  · exact Routes.forall_update (exchanges_reads _ _ _ _)
      (fun e he => h.reads_left hC (h.left.reads e he)) fun e he => h.reads_right (h.right.reads e he)
  · intro g hg
    obtain ⟨e, he, hg⟩ := mem_flatMap.1 hg
    obtain ⟨f, hf, rfl⟩ := mem_map.1 hg
    exact h.unreached he (mem_filter.1 hf).1
  · rintro g (hg | hg)
    · obtain ⟨w, hw, rfl⟩ := mem_map.1 hg
      obtain ⟨x, hx, y, hy, -, rfl⟩ := mem_joined.1 hw
      exact (h.merge hx hy).2.2
    · obtain ⟨e, he, hg⟩ := mem_flatMap.1 hg
      obtain ⟨f, hf, rfl⟩ := mem_map.1 hg
      exact (merge_spec h.disjoint (h.left.supported e (.inr he))
        (h.right.supported f (mem_append.1 (mem_filter.1 hf).1))).2.2

lemma perm {es fs : List (Showing R)} (hes : es.Perm (reall.map Prod.snd ++ junkl))
    (hfs : fs.Perm (realr.map Prod.snd ++ junkr)) :
    (es.flatMap (D.matched rl rr js fs)).Perm ((D.joined rl rr js reall realr).map Prod.snd ++
      junkl.flatMap (D.matched rl rr js (realr.map Prod.snd ++ junkr))) := by
  refine flatMap_matched_perm hes hfs fun x hx f hf => ?_
  obtain ⟨y, hy, hyx⟩ := h.left.exists_tuple x hx
  obtain ⟨ε, hε, hnone⟩ := h.right.unreached f hf
  rw [Bool.eq_false_iff, Ne, h.joins_iff x hx y hy hyx f ε hε]
  exact not_links_of_unreached h.axes_baseline hnone (fits_of_mem h.left.isChain hy)

end Attachment

end Attach

end Store

lemma filter_eq_singleton {α β : Type} {f : α → β} {keep : α → Bool} {xs : List α} {x : α}
    (hnodup : (xs.map f).Nodup) (hx : x ∈ xs) (hkeep : keep x)
    (h : ∀ y ∈ xs, keep y → f y = f x) : xs.filter keep = [x] := by
  induction xs with
  | nil => cases hx
  | cons y ys ih =>
    rw [map_cons, nodup_cons] at hnodup
    obtain rfl | hx' := mem_cons.1 hx
    · have hnone : ys.filter keep = [] := by
        rw [filter_eq_nil_iff]
        intro z hz hzkeep
        refine hnodup.1 (mem_map.2 ⟨z, hz, h z (mem_cons_of_mem x hz) hzkeep⟩)
      rw [filter_cons_of_pos hkeep, hnone]
    · have hy : ¬ keep y := by
        intro hy
        exact hnodup.1 (mem_map.2 ⟨x, hx', (h y mem_cons_self hy).symm⟩)
      rw [filter_cons_of_neg hy]
      exact ih hnodup.2 hx' fun z hz => h z (mem_cons_of_mem y hz)

namespace Store

variable {R V : Type} [DecidableEq R] [DecidableEq V] (D : Store R V) (J : Join → Prop)

/-- Joints of a trunk `s` and a shoot `u` that hold for converging tuples, and for no unreached row. -/
structure Glues (s u bs bu : Space) (r ru : Routes) (js : List Joint)
    (real realu : List (Tuple R × Showing R)) (junku : List (Showing R)) : Prop where
  joins_iff : ∀ x ∈ real, ∀ z ∈ D.tuples s, z.drop bs.hidden = x.1 → ∀ y ∈ realu,
    (D.joins r ru js x.2 y.2 ↔ ∃ w ∈ D.tuples u, w.drop bu.hidden = y.1 ∧ s.Converge u z w)
  not_joins : ∀ x ∈ real, ∀ f ∈ junku, D.joins r ru js x.2 f = false

/-- Rows of a trunk beside rows of a shoot, with such joints. -/
structure Graft (s u bs bu : Space) (r ru : Routes) (ts tu : List Nat)
    (real realu : List (Tuple R × Showing R)) (junk junku : List (Showing R)) (js : List Joint)
    (outer : Bool) : Prop extends D.Glues s u bs bu r ru js real realu junku where
  trunk : D.Shows J s bs r ts real junk
  shoot : D.Shows J u bu ru tu realu junku
  disjoint : ts.Disjoint tu
  spans : s.spans u = true
  exists_converge : outer = false → ∀ z ∈ D.tuples s, ∃ w ∈ D.tuples u, s.Converge u z w
  apart : u.isInflated → ¬ u.axes <+: s.axes

variable {D J}

namespace Graft

variable {s u bs bu : Space} {r ru extra : Routes} {ts tu : List Nat}
  {real realu : List (Tuple R × Showing R)} {junk junku fs : List (Showing R)} {js : List Joint}
  {outer : Bool}

variable {x : Tuple R × Showing R}

def rows (D : Store R V) (r ru : Routes) (js : List Joint) (outer : Bool) (fs : List (Showing R))
    (real : List (Tuple R × Showing R)) : List (Tuple R × Showing R) :=
  real.flatMap fun x => (D.grown r ru js outer fs x.2).map fun e => (x.1, e)

omit [DecidableEq R] in
lemma mem_rows : x ∈ rows D r ru js outer fs real ↔
    ∃ y ∈ real, x.1 = y.1 ∧ x.2 ∈ D.grown r ru js outer fs y.2 := by
  simp only [rows, mem_flatMap, mem_map]
  constructor
  · rintro ⟨y, hy, e, he, rfl⟩
    exact ⟨y, hy, rfl, he⟩
  · rintro ⟨y, hy, hxy, he⟩
    exact ⟨y, hy, x.2, he, by rw [← hxy]⟩

omit [DecidableEq R] in
lemma perm {es : List (Showing R)} (hes : es.Perm (real.map Prod.snd ++ junk)) :
    (es.flatMap (D.grown r ru js outer fs)).Perm ((rows D r ru js outer fs real).map Prod.snd ++
      junk.flatMap (D.grown r ru js outer fs)) := by
  refine (hes.flatMap_right _).trans ?_
  rw [flatMap_append, flatMap_map, rows, map_flatMap]
  simp only [map_map, Function.comp_def, map_id']
  exact .refl _

variable (hC : D.Contracts J) (h : D.Graft J s u bs bu r ru ts tu real realu junk junku js outer)
  (hfs : fs.Perm (realu.map Prod.snd ++ junku))
include h hfs

lemma filter_joins (hx : x ∈ real) : (fs.filter (D.joins r ru js x.2)).Perm
      ((realu.filter fun y => D.joins r ru js x.2 y.2).map Prod.snd) := by
  have hnone : junku.filter (D.joins r ru js x.2) = [] := by
    simpa using h.not_joins x hx
  refine (hfs.filter _).trans ?_
  rw [filter_append, hnone, append_nil, filter_map]
  rfl

lemma merge_eq {e g : Showing R} (he : e ∈ real.map Prod.snd ∨ e ∈ junk)
    (hg : g ∈ D.grown r ru js outer fs e) : (∀ k ∈ ts, g k = e k) ∧ ∀ k, k ∉ ts ++ tu → g k = none := by
  rw [grown] at hg
  split at hg
  · obtain rfl := mem_singleton.1 hg
    refine ⟨fun _ _ => rfl, fun k hk => ?_⟩
    exact h.trunk.supported g he k fun hmem => hk (mem_append_left _ hmem)
  · obtain ⟨f, hf, rfl⟩ := mem_map.1 hg
    have hmem := hfs.mem_iff.1 (mem_filter.1 hf).1
    have hspec := merge_spec h.disjoint (h.trunk.supported e he) (h.shoot.supported f (mem_append.1 hmem))
    exact ⟨hspec.1, hspec.2.2⟩

lemma reads_trunk {c : Code} {k : Nat} (hread : D.Reads J s bs ts real c k) :
    D.Reads J s bs (ts ++ tu) (rows D r ru js outer fs real) c k := by
  refine { hread with mem_tags := mem_append_left _ hread.mem_tags, row_eq := ?_ }
  intro m d c v hv x hx z hz hzx
  obtain ⟨y, hy, hxy, hgrown⟩ := mem_rows.1 hx
  rw [(h.merge_eq hfs (.inl (mem_map_of_mem hy)) hgrown).1 k hread.mem_tags]
  exact hread.row_eq m d c v hv y hy z hz (hzx.trans hxy)

include hC

/-- A row of the trunk with the row that the shoot has for it, or alone if there is none. -/
theorem grown_eq (hx : x ∈ real) {z : Tuple R} (hz : z ∈ D.tuples s) (hzx : z.drop bs.hidden = x.1) :
    (∃ w ∈ D.tuples u, s.Converge u z w ∧ ∃ y ∈ realu, w.drop bu.hidden = y.1 ∧
      D.grown r ru js outer fs x.2 = [x.2.merge y.2]) ∨
    (∀ w ∈ D.tuples u, ¬ s.Converge u z w) ∧ D.grown r ru js outer fs x.2 = [x.2] := by
  have hperm := h.filter_joins hfs hx
  by_cases hw : ∃ w ∈ D.tuples u, s.Converge u z w
  · obtain ⟨w, hw, hzw⟩ := hw
    obtain ⟨y, hy, hwy⟩ := h.shoot.exists_real hw
    have hunique : ∀ y' ∈ realu, D.joins r ru js x.2 y'.2 → y'.1 = y.1 := by
      intro y' hy' hxy'
      obtain ⟨w', hw', hwy', hzw'⟩ := (h.joins_iff x hx z hz hzx y' hy').1 hxy'
      have heq : w' = w := Fits.eq_of_take_eq hC h.shoot.isChain.chained
        ((h.trunk.isChain.spans_iff h.shoot.isChain).1 h.spans) (fits_of_mem h.shoot.isChain hw')
        (fits_of_mem h.shoot.isChain hw) ((Eq.symm hzw').trans hzw)
      rw [← hwy', heq, hwy]
    have hjoins := (h.joins_iff x hx z hz hzx y hy).2 ⟨w, hw, hwy, hzw⟩
    rw [filter_eq_singleton h.shoot.nodup hy hjoins hunique, map_singleton, perm_singleton] at hperm
    refine .inl ⟨w, hw, hzw, y, hy, hwy, ?_⟩
    rw [grown, matched, hperm]
    simp
  · have hnone : ∀ w ∈ D.tuples u, ¬ s.Converge u z w := fun w hwu hzw => hw ⟨w, hwu, hzw⟩
    have hempty : (realu.filter fun y => D.joins r ru js x.2 y.2) = [] := by
      rw [filter_eq_nil_iff]
      intro y hy hxy
      obtain ⟨w, hwu, -, hzw⟩ := (h.joins_iff x hx z hz hzx y hy).1 hxy
      exact hnone w hwu hzw
    have houter : outer := by
      by_contra hinner
      exact hw (h.exists_converge (by simpa using hinner) z hz)
    rw [hempty, map_nil, perm_nil] at hperm
    refine .inr ⟨hnone, ?_⟩
    rw [grown, matched, hperm, houter]
    rfl

lemma map_fst_rows : (rows D r ru js outer fs real).map Prod.fst = real.map Prod.fst := by
  rw [rows, map_flatMap, map_eq_flatMap]
  refine flatMap_congr fun x hx => ?_
  obtain ⟨z, hz, hzx⟩ := h.trunk.exists_tuple x hx
  obtain ⟨-, -, -, y, -, -, hgrown⟩ | ⟨-, hgrown⟩ := h.grown_eq hC hfs hx hz hzx <;>
    rw [hgrown] <;> rfl

lemma reads_shoot {c : Column} {m : Mark} {k : Nat} (hk : ru.find? (.ofColumn c u m) = some k) :
    D.Reads J s bs (ts ++ tu) (rows D r ru js outer fs real) (.ofColumn c u m) k := by
  obtain ⟨b, hb, hbeq⟩ := Routes.contains_of_find? hk
  obtain ⟨n, v, rfl, huv⟩ := column_of_beq (BEq.symm hbeq)
  have hread := h.shoot.reads _ hb
  refine ⟨rfl, mem_append_right _ hread.mem_tags, ?_, ?_, ?_, ?_⟩
  · rintro _ _ _ _ ⟨⟩
    exact h.shoot.isChain
  · rintro _ _ _ _ ⟨⟩
    exact h.spans
  · rintro _ _ _ _ ⟨⟩ hi hstart
    exact absurd hstart (h.apart hi)
  · rintro _ _ _ _ ⟨⟩ x hx z hz hzx
    obtain ⟨y, hy, hxy, hgrown⟩ := mem_rows.1 hx
    have hnone : y.2 k = none := h.trunk.supported _ (.inl (mem_map_of_mem hy)) k
      fun hmem => h.disjoint hmem hread.mem_tags
    obtain ⟨w, hw, hzw, y', hy', hwy, heq⟩ | ⟨hw, heq⟩ := h.grown_eq hC hfs hy hz (hzx.trans hxy)
    · rw [heq, mem_singleton] at hgrown
      have htake : w.take u.axes.length = w := by
        rw [← length_of_mem h.shoot.isChain hw, take_length]
      calc x.2 k = y'.2 k := by rw [hgrown, Showing.merge, hnone, Option.none_or]
        _ = D.rowOf v u w := hread.row_eq _ _ _ _ rfl y' hy' w hw hwy
        _ = D.rowOf u u w := (D.rowOf_of_beq huv u w).symm
        _ = w.last := by
          rw [rowOf_of_start hC h.shoot.isChain h.shoot.isChain prefix_rfl (htake.symm ▸ hw), htake]
        _ = D.rowOf u s z :=
          (rowOf_eq_last hC h.trunk.isChain h.shoot.isChain h.spans hw hzw).symm
    · rw [heq, mem_singleton] at hgrown
      rw [hgrown, hnone, rowOf_eq_none hw]

/-- A trunk with a shoot still shows its tuples, and the columns of the shoot besides. -/
theorem shows (hextra : ∀ q ∈ extra.entries, (∃ c m, q.1 = .ofColumn c u m) ∧ ru.find? q.1 = some q.2) :
    D.Shows J s bs (r.update extra) (ts ++ tu) (rows D r ru js outer fs real)
      (junk.flatMap (D.grown r ru js outer fs)) := by
  have hfst := h.map_fst_rows hC hfs
  refine ⟨h.trunk.isChain, h.trunk.isBackbone, h.trunk.start, ?_, ?_, ?_, ?_, ?_, ?_, ?_⟩
  · rw [hfst]
    exact h.trunk.nodup
  · intro x hx
    obtain ⟨y, hy, hxy, -⟩ := mem_rows.1 hx
    rw [hxy]
    exact h.trunk.exists_tuple y hy
  · rw [hfst]
    exact h.trunk.mem_iff
  · refine Routes.forall_update (exchanges_reads _ _ _ _)
      (fun q hq => h.reads_trunk hfs (h.trunk.reads q hq)) fun q hq => ?_
    obtain ⟨⟨c, m, hcm⟩, hfind⟩ := hextra q hq
    rw [hcm] at hfind ⊢
    exact h.reads_shoot hC hfs hfind
  · intro q hq hbq hqs c hc m
    exact Routes.contains_update.2 (.inl (h.trunk.covers q hq hbq hqs c hc m))
  · intro g hg
    obtain ⟨e, he, hg⟩ := mem_flatMap.1 hg
    obtain ⟨ε, hε, hnone⟩ := h.trunk.unreached e he
    have hkeep := (h.merge_eq hfs (.inr he) hg).1
    refine ⟨ε, ⟨hε.possible, ?_⟩, hnone⟩
    refine Routes.forall_update (exchanges_points _ _ _) (fun x hx => ?_) fun x hx => ?_
    · intro m d c v hv hi hvb
      rw [hkeep _ (h.trunk.reads x hx).mem_tags]
      exact hε.points x hx m d c v hv hi hvb
    · obtain ⟨⟨c, m, hcm⟩, -⟩ := hextra x hx
      rw [hcm]
      rintro _ _ _ _ ⟨⟩ hi hvb
      exact absurd (hvb ▸ h.trunk.start_axes) (h.apart hi)
  · rintro g (hg | hg)
    · obtain ⟨x, hx, rfl⟩ := mem_map.1 hg
      obtain ⟨y, hy, -, hgrown⟩ := mem_rows.1 hx
      exact (h.merge_eq hfs (.inl (mem_map_of_mem hy)) hgrown).2
    · obtain ⟨e, he, hg⟩ := mem_flatMap.1 hg
      exact (h.merge_eq hfs (.inr he) hg).2

end Graft

end Store

end NavQuery
