import NavQuery.Proofs.Compilation
import NavQuery.Proofs.Gluing

/-!
A term that `inject` grows still shows the tuples of its space, and routes the columns that were asked
for. With what `compile` does, this holds of compilers to any depth.
-/

namespace NavQuery

open List Space Routes

namespace Term

variable {R V : Type} [DecidableEq R] [DecidableEq V] {D : Store R V} {J : Join → Prop}

lemma Grown.refl {t : Term} (h : t.Sound D J) (i : Nat) : Grown D J t i i t :=
  ⟨h, rfl, le_rfl, fun _ hk => .inl hk, prefix_rfl, fun _ hu => hu⟩

lemma Grown.trans {t t' t'' : Term} {i k i' : Nat} (h : Grown D J t i k t')
    (h' : Grown D J t' k i' t'') : Grown D J t i i' t'' := by
  refine ⟨h'.sound, h'.space_eq.trans h.space_eq, h.le.trans h'.le, ?_, h'.start.trans h.start,
    fun u hu => h'.contains u (h.contains u hu)⟩
  intro l hl
  have hle := h.le
  have hle' := h'.le
  obtain hl | hl := h'.tags l hl
  · obtain hl | hl := h.tags l hl
    · exact .inl hl
    · exact .inr (by omega)
  · exact .inr (by omega)

lemma Grown.tags_lt {t t' : Term} {i i' : Nat} (h : Grown D J t i i' t')
    (ht : ∀ l ∈ t.tags, l < i) : ∀ l ∈ t'.tags, l < i' := by
  intro l hl
  have hle := h.le
  obtain hl | hl := h.tags l hl
  · have := ht l hl
    omega
  · exact hl.2

section Above

variable {s b : Space} {r : Routes} {tags : List Nat} {real : List (Tuple R × Showing R)}
  {junk : List (Showing R)} {c : Compiler} {t t' : Term} {u : Space} {i i' : Nat}

/-- A space with axes only that a term does not route ends before the baseline, unless it leaves the axes
of the term. -/
theorem lt_baseline (h : D.Shows J s b r tags real junk) (hu : u.IsBackbone J) (hus : u.axes <+: s.axes)
    (hnew : ¬ ∀ o ∈ u.columns, ∀ m, r.contains (.ofColumn o u m)) :
    u.axes.length < b.axes.length := by
  by_contra hge
  exact hnew (h.covers u hu (prefix_of_prefix_length_le h.start_axes hus (Nat.le_of_not_lt hge)) hus)

lemma exists_base_of_lt (hb : b.IsBackbone J) (hu : u.IsBackbone J)
    (hlt : u.axes.length < b.axes.length) :
    ∃ p a, p.IsBackbone J ∧ b.axis? = some a ∧ b.base? = some p := by
  cases hb with
  | root m =>
    have hpos := hu.axes_length_pos
    rw [axes, length_singleton] at hlt
    omega
  | step hp _ ha hbase => exact ⟨_, _, hp, ha, hbase⟩

lemma injectAbove_spec (hC : D.Contracts J) (hJ : ∀ j, J j → j.IsFormed) (hc : c.Correct D J)
    (ht : t.Sound D J) (hbelow : ∀ l ∈ t.tags, l < i) (hu : u.IsPlain J)
    (hnew : ¬ ∀ o ∈ u.columns, ∀ m, t.routes.contains (.ofColumn o u m))
    (hconcludes : t.space.concludes u)
    (h : (do
      let left ← c.compile (t.baseline.base?.getD t.baseline) u
      let joints ← t.baseline.baseJoints
      let left ← injectJoints c left joints
      attach left t joints false t.space (left.routes.update t.routes) : Tagged Term) i = .ok (t', i')) :
    Grown D J t i i' t' ∧ ∀ o ∈ u.columns, ∀ m, t'.routes.contains (.ofColumn o u m) := by
  obtain ⟨start, k, hstart, h⟩ := exists_of_run_bind_eq_ok h
  obtain ⟨js, hjs, h⟩ := exists_of_lift_bind_eq_ok h
  obtain ⟨left, k', hleft, h⟩ := exists_of_run_bind_eq_ok h
  cases h
  obtain ⟨real, junk, hshows, hperm⟩ := ht
  have hplain : (t.baseline.base?.getD t.baseline).IsPlain J := by
    cases hbase : t.baseline.base? with
    | none => exact hshows.isBackbone.isPlain
    | some p => exact hshows.isBackbone.isPlain.base hbase
  obtain ⟨hi, hcompiled⟩ := hc.compile hplain hu.isChain hstart
  have hback := hu.isChain.isBackbone hi
  have hnear := (hshows.isChain.concludes_iff hback).1 hconcludes
  have hus := hnear.trans hshows.isChain.axes_inflatedAncestor
  have hlt := lt_baseline hshows hback hus hnew
  have hub := prefix_of_prefix_length_le hus hshows.start_axes hlt.le
  obtain ⟨p, a, hp, ha, hbase⟩ := exists_base_of_lt hshows.isBackbone hback hlt
  have haxes := axes_of_axis? ha hbase
  have hpb : p.axes <+: t.baseline.axes := haxes ▸ prefix_append _ _
  rw [hbase] at hcompiled
  obtain ⟨hgrown, -⟩ := hc.inject hcompiled.sound (hcompiled.space_eq ▸ hp.isPlain)
    (fun l hl => (hcompiled.tags l hl).2) (fun f hf => by
      obtain ⟨q, hq, rfl⟩ := mem_map.1 hf
      obtain ⟨o, m, hleft, ho⟩ := Store.baseJoints_left hJ hp hshows.isBackbone.isChain hbase (ha ▸ rfl)
        hjs q hq
      rw [hleft]
      exact ⟨hp.isPlain, rfl, ho⟩) hleft
  have hbuilt := hcompiled.toBuilt.grown hgrown
  obtain ⟨reall, junkl, hshowl, hperml⟩ := hbuilt.sound
  rw [hbuilt.space_eq] at hshowl
  have hleftu : left.baseline.axes <+: u.axes := hgrown.start.trans hcompiled.start
  have hattached : D.Attachment J p t.space t.space left.baseline t.baseline left.routes t.routes
      left.tags t.tags reall real junkl junk a js := by
    refine ⟨hshowl, hshows, ?_, haxes, hshows.isChain, rfl, hleftu.trans hnear, ?_, ?_⟩
    · intro l hl hl'
      exact absurd (hbelow l hl') (hbuilt.tags l hl).1.not_gt
    · intro z hz
      exact (and_iff_right ((Store.mem_tuples_backbone hp).2
        (hz.start (hpb.trans hshows.start_axes)))).symm
    · exact Store.joins_baseJoints_iff hC hJ hshowl hshows hshows.isBackbone.isChain ha hbase rfl hjs
  refine ⟨⟨sound_attached hC hattached hperml hperm fun h => h, rfl, Nat.le_succ_of_le hbuilt.le, ?_,
    hleftu.trans hub, ?_⟩, ?_⟩
  · intro l hl
    have hle := hbuilt.le
    obtain rfl | hl := mem_cons.1 hl
    · exact .inr (by omega)
    · obtain hl | hl := mem_append.1 hl
      · have := hbuilt.tags l hl
        exact .inr (by omega)
      · exact .inl hl
  · exact fun v hv => contains_update.2 (.inr hv)
  · intro o ho m
    have hup : u.axes <+: p.axes := by
      rw [haxes, length_append] at hlt
      exact prefix_of_prefix_length_le hub hpb (Nat.le_of_lt_succ hlt)
    exact contains_update.2 (.inl (hshowl.covers u hback hleftu hup o ho m))

/-- A space with axes only that a term neither routes nor concludes leaves the axes of the term. -/
theorem apart_of_not_concludes (h : D.Shows J s b r tags real junk) (hu : u.IsChain J)
    (hnew : ¬ ∀ o ∈ u.columns, ∀ m, r.contains (.ofColumn o u m))
    (hconcludes : ¬ s.concludes u) (hi : u.isInflated) : ¬ u.axes <+: s.axes := by
  intro hus
  have hback := hu.isBackbone hi
  have hlt := lt_baseline h hback hus hnew
  have hub := prefix_of_prefix_length_le hus h.start_axes hlt.le
  exact hconcludes ((h.isChain.concludes_iff hback).2 (hub.trans h.start))

end Above

section Shoots

variable {c : Compiler} {t shoot t' : Term} {u : Space} {extra : Routes} {i i' k : Nat}

lemma joinShoot_spec (hC : D.Contracts J) (hE : D.Expands J) (hK : D.Keyed)
    (hJ : ∀ j, J j → j.IsFormed) (hc : c.Correct D J) (ht : t.Sound D J) (hplain : t.space.IsPlain J)
    (hu : u.IsPlain J) (hcolumns : u.columns ≠ [])
    (hapart : u.isInflated → ¬ u.axes <+: t.space.axes)
    (hshoot : Built D J u i k shoot) (hbelow : ∀ l ∈ t.tags, l < i)
    (hextra : ∀ q ∈ extra.entries, (∃ o m, q.1 = .ofColumn o u m) ∧ shoot.routes.find? q.1 = some q.2)
    (h : joinShoot c t shoot extra k = .ok (t', i')) :
    Grown D J t i i' t' ∧ ∀ v, extra.contains v → t'.routes.contains v := by
  obtain ⟨_, hspans, h⟩ := exists_of_lift_bind_eq_ok h
  obtain ⟨js, hjs, h⟩ := exists_of_lift_bind_eq_ok h
  obtain ⟨trunk, k', htrunk, h⟩ := exists_of_run_bind_eq_ok h
  cases h
  have hspans := eq_true_of_ensure hspans
  have hle := hshoot.le
  have ⟨_, _, hshows, _⟩ := ht
  obtain ⟨realu, junku, hshowu, hpermu⟩ := hshoot.sound
  rw [glueTo] at hjs
  rw [hshoot.space_eq] at hjs hspans hshowu
  have hleft := glue_left hJ hplain.isChain hshows.isBackbone hu.isChain hshowu.isBackbone hspans
    hcolumns hshowu.start_axes hjs
  obtain ⟨hgrown, hunits⟩ := hc.inject ht hplain (fun l hl => (hbelow l hl).trans_le hle) (fun f hf => by
      obtain ⟨q, hq, rfl⟩ := mem_map.1 hf
      obtain ⟨o, p, m, hleft, hp, ho⟩ := hleft q hq
      rw [hleft]
      exact ⟨hp.isPlain, rfl, ho⟩) htrunk
  obtain ⟨real, junk, hshow, hperm⟩ := hgrown.sound
  rw [hgrown.space_eq] at hshow
  have hdisjoint : trunk.tags.Disjoint shoot.tags := by
    intro l hl hl'
    have := hshoot.tags l hl'
    obtain hl | hl := hgrown.tags l hl
    · have := hbelow l hl
      omega
    · omega
  have hcontains : ∀ q ∈ js, trunk.routes.contains q.left := by
    intro q hq
    obtain ⟨o, p, m, hleft, -⟩ := hleft q hq
    refine hunits q.left (mem_map_of_mem hq) q.left ?_
    rw [hleft]
    exact mem_singleton.2 rfl
  have hgraft := Store.graft_of_glue hC hshow hshowu hjs hcontains hE hK hJ hdisjoint hspans hcolumns
    hshows.isBackbone hshows.start_axes hu.isCommutative hapart
  rw [hgrown.space_eq, hshoot.space_eq]
  refine ⟨⟨⟨_, _, (hgraft.shows hC hpermu hextra).mono_tags (subset_cons_self _ _), ?_⟩, rfl, ?_, ?_,
    hgrown.start, ?_⟩, ?_⟩
  · exact Store.Graft.perm hperm
  · exact hle.trans (Nat.le_succ_of_le hgrown.le)
  · intro l hl
    have hle' := hgrown.le
    obtain rfl | hl := mem_cons.1 hl
    · exact .inr (by omega)
    · obtain hl | hl := mem_append.1 hl
      · exact (hgrown.tags l hl).imp_right fun hl => by omega
      · have := hshoot.tags l hl
        exact .inr (by omega)
  · exact fun v hv => contains_update.2 (.inl (hgrown.contains v hv))
  · exact fun v hv => contains_update.2 (.inr hv)

lemma shootBaseline_isChain (hu : u.IsChain J) (trunk : Space) : (u.shootBaseline trunk).IsChain J := by
  obtain ⟨hnear, -⟩ := hu.inflatedAncestor_spec
  rw [shootBaseline]
  split
  · exact hnear.isChain
  · cases hfirst : firstShootAxis trunk u.inflatedAncestor.ancestors with
    | none => exact hnear.isChain
    | some p => exact (hnear.of_mem_ancestors (firstShootAxis_mem hfirst)).1.isChain

lemma compileShoot_spec (hc : c.Correct D J) (hu : u.IsPlain J) {trunk : Space}
    (h : compileShoot c u trunk [] i = .ok (shoot, k)) : Built D J u i k shoot := by
  obtain ⟨start, k', hstart, h⟩ := exists_of_run_bind_eq_ok h
  have hcompiled := (hc.compile hu (shootBaseline_isChain hu.isChain trunk) hstart).2
  obtain ⟨hgrown, -⟩ := hc.inject hcompiled.sound (hcompiled.space_eq ▸ hu)
    (fun l hl => (hcompiled.tags l hl).2) (forall_mem_nil _) h
  exact hcompiled.toBuilt.grown hgrown

lemma shootRoutes_spec {r ru : Routes} {us : List Code}
    (hr : ∀ q ∈ r.entries, q.1 ∈ us ∧ ru.find? q.1 = some q.2) {vs : List Code} (hvs : vs ⊆ us)
    (h : vs.foldlM (fun (r : Routes) (v : Code) => (do return r.set v (← ru.tag v) : Tagged Routes)) r i =
      .ok (extra, k)) :
    k = i ∧ (∀ q ∈ extra.entries, q.1 ∈ us ∧ ru.find? q.1 = some q.2) ∧
      ∀ v, r.contains v ∨ v ∈ vs → extra.contains v := by
  induction vs generalizing r with
  | nil =>
    cases h
    exact ⟨rfl, hr, fun v hv => hv.resolve_right fun hv => nomatch hv⟩
  | cons w vs ih =>
    obtain ⟨r', l, hr', h⟩ := exists_of_run_bind_eq_ok h
    obtain ⟨n, hn, hr'⟩ := exists_of_lift_bind_eq_ok hr'
    cases hr'
    have hexchanges : Exchanges fun v l => v ∈ us ∧ ru.find? v = some l := by
      intro v v' l l' hv hv' hbeq
      refine ⟨hv'.1, ?_⟩
      have hsame : ru.find? v' = ru.find? v := by
        rw [Routes.find?]
        congr 2
        funext q
        exact BEq.congr_right hbeq
      rw [hsame]
      exact hv.2
    obtain ⟨hk, hentries, hcontains⟩ := ih (forall_set hexchanges hr ⟨hvs mem_cons_self, find?_of_tag hn⟩)
      (fun v hv => hvs (mem_cons_of_mem w hv)) h
    refine ⟨hk, hentries, fun v hv => hcontains v ?_⟩
    obtain hv | hv := hv
    · exact .inl (contains_set.2 (.inl hv))
    · obtain rfl | hv := mem_cons.1 hv
      · exact .inl (contains_set.2 (.inr BEq.rfl))
      · exact .inr hv

end Shoots

section Injecting

variable {c : Compiler} {t t' : Term} {u : Space} {i i' : Nat}

section Codes

variable (hC : D.Contracts J) (hE : D.Expands J) (hK : D.Keyed) (hJ : ∀ j, J j → j.IsFormed)
  (hc : c.Correct D J)
include hC hE hK hJ hc

lemma injectSpace_spec (ht : t.Sound D J) (hplain : t.space.IsPlain J) (hbelow : ∀ l ∈ t.tags, l < i)
    (hu : u.IsPlain J) (h : injectSpace c t u i = .ok (t', i')) :
    Grown D J t i i' t' ∧ ∀ o ∈ u.columns, ∀ m, t'.routes.contains (.ofColumn o u m) := by
  obtain ⟨us, hus, h⟩ := exists_of_lift_bind_eq_ok h
  obtain ⟨n, hn⟩ := hu.isChain.exports_eq
  obtain rfl := Except.ok.inj (hus.symm.trans hn)
  have hmarks : ∀ {r : Routes} {o : Column} {m : Mark},
      r.contains (.ofColumn o u m) = r.contains (.ofColumn o u n) := fun {r o m} =>
    Routes.contains_congr (ofColumn_beq BEq.rfl o m n)
  split at h
  · rename_i hall
    cases h
    refine ⟨.refl ht i, fun o ho m => ?_⟩
    rw [hmarks]
    exact all_eq_true.1 hall _ (mem_map_of_mem ho)
  · rename_i hall
    have hnew : ¬ ∀ o ∈ u.columns, ∀ m, t.routes.contains (.ofColumn o u m) := by
      intro hrouted
      refine hall (all_eq_true.2 fun v hv => ?_)
      obtain ⟨o, ho, rfl⟩ := mem_map.1 hv
      exact hrouted o ho n
    split at h
    · rename_i hconcludes
      exact injectAbove_spec hC hJ hc ht hbelow hu hnew hconcludes h
    · rename_i hconcludes
      obtain ⟨shoot, k, hshoot, h⟩ := exists_of_run_bind_eq_ok h
      obtain ⟨extra, k', hextra, hjoin⟩ := exists_of_run_bind_eq_ok h
      have hbuilt := compileShoot_spec hc hu hshoot
      obtain ⟨rfl, hentries, hcontains⟩ :=
        shootRoutes_spec (r := .empty) (fun q hq => nomatch hq) (List.Subset.refl _) hextra
      have ⟨_, _, hshows, _⟩ := ht
      have hapart := apart_of_not_concludes hshows hu.isChain hnew hconcludes
      have hcolumns : u.columns ≠ [] := by
        intro hnil
        exact hnew (by simp [hnil])
      obtain ⟨hgrown, hrouted⟩ := joinShoot_spec hC hE hK hJ hc ht hplain hu hcolumns hapart hbuilt hbelow
        (fun q hq => by
          obtain ⟨hmem, hfind⟩ := hentries q hq
          obtain ⟨o, -, hq⟩ := mem_map.1 hmem
          exact ⟨⟨o, n, hq.symm⟩, hfind⟩) hjoin
      refine ⟨hgrown, fun o ho m => ?_⟩
      rw [hmarks]
      exact hrouted _ (hcontains _ (.inr (mem_map_of_mem ho)))

lemma injectCode_spec {f : Code} (ht : t.Sound D J) (hplain : t.space.IsPlain J)
    (hbelow : ∀ l ∈ t.tags, l < i) (hf : f.IsPlain J)
    (h : (if t.routes.contains f then pure t
      else match f.space? with
        | some s => injectUnit c t f s
        | none => c.inject t f.units : Tagged Term) i = .ok (t', i')) :
    Grown D J t i i' t' ∧ ∀ v ∈ f.units, t'.routes.contains v := by
  split at h
  · rename_i hcontains
    cases h
    refine ⟨.refl ht _, ?_⟩
    obtain ⟨w, l, hw, hbeq, -⟩ := exists_of_contains hcontains
    have ⟨_, _, hshows, _⟩ := ht
    have hcolumn := (hshows.reads _ hw).isColumn
    cases w <;> cases hcolumn
    obtain ⟨m, v, rfl, -⟩ := Store.column_of_beq hbeq
    intro v hv
    obtain rfl := mem_singleton.1 hv
    exact hcontains
  · rename_i hcontains
    have hunits : ∀ {t'}, c.inject t f.units i = .ok (t', i') →
        Grown D J t i i' t' ∧ ∀ v ∈ f.units, t'.routes.contains v := by
      intro t' h
      have hplainUnits := Code.units_plain f hf
      obtain ⟨hgrown, hrouted⟩ := hc.inject ht hplain hbelow (fun v hv => (hplainUnits v hv).1) h
      refine ⟨hgrown, fun v hv => hrouted v hv v ?_⟩
      have hcolumn := (hplainUnits v hv).2
      cases v <;> cases hcolumn
      exact mem_singleton.2 rfl
    cases f with
    | column m d o u =>
      obtain ⟨hu, rfl, ho⟩ := hf
      replace h : injectUnit c t (.column m o.domain o u) u i = .ok (t', i') := h
      unfold injectUnit at h
      rw [if_neg hcontains] at h
      split at h
      · cases h
      · obtain ⟨hgrown, hrouted⟩ := injectSpace_spec hC hE hK hJ hc ht hplain hbelow hu h
        refine ⟨hgrown, fun v hv => ?_⟩
        obtain rfl := mem_singleton.1 hv
        exact hrouted o ho m
    | literal | parameter | cast | formula => exact hunits h
    | missing | correlation | single | aggregate | correlated | kernel | covering => exact hf.elim

lemma injectCodes_spec {codes : List Code} (ht : t.Sound D J) (hplain : t.space.IsPlain J)
    (hbelow : ∀ l ∈ t.tags, l < i) (hcodes : ∀ f ∈ codes, f.IsPlain J)
    (h : injectCodes c t codes i = .ok (t', i')) :
    Grown D J t i i' t' ∧ ∀ f ∈ codes, ∀ v ∈ f.units, t'.routes.contains v := by
  induction codes generalizing t i with
  | nil =>
    cases h
    exact ⟨.refl ht _, fun f hf => nomatch hf⟩
  | cons f codes ih =>
    obtain ⟨kid, k, hkid, h⟩ := exists_of_run_bind_eq_ok h
    obtain ⟨hgrown, hrouted⟩ := injectCode_spec hC hE hK hJ hc ht hplain hbelow
      (hcodes f mem_cons_self) hkid
    obtain ⟨hrest, hunits⟩ := ih hgrown.sound (hgrown.space_eq ▸ hplain) (hgrown.tags_lt hbelow)
      (fun g hg => hcodes g (mem_cons_of_mem f hg)) h
    refine ⟨hgrown.trans hrest, fun g hg v hv => ?_⟩
    obtain rfl | hg := mem_cons.1 hg
    · exact hrest.contains v (hrouted v hv)
    · exact hunits g hg v hv

end Codes

lemma compilerTo_correct (hC : D.Contracts J) (hE : D.Expands J) (hK : D.Keyed)
    (hJ : ∀ j, J j → j.IsFormed) (root : Space) (n : Nat) : (compilerTo root n).Correct D J := by
  induction n with
  | zero => exact ⟨(fun _ _ h => nomatch h), fun _ _ _ _ h => nomatch h⟩
  | succ n ih =>
    exact ⟨fun hs hb h => compileSpace_spec hC hE hJ ih hs hb h,
      fun ht hplain hbelow hcodes h => injectCodes_spec hC hE hK hJ ih ht hplain hbelow hcodes h⟩

end Injecting

end Term

end NavQuery
