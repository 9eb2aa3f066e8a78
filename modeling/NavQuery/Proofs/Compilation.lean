import NavQuery.Proofs.Ties
import NavQuery.Term.OfSpace

/-!
The rows of the term that `compile` makes of a plain space show the tuples of the space, if the compiler
that it is written over does as much.
-/

namespace NavQuery

open List Space Store Routes

namespace Term

variable {R V : Type} [DecidableEq R] [DecidableEq V] (D : Store R V) (J : Join → Prop)

/-- A term whose rows show the tuples of its space. -/
def Sound (t : Term) : Prop :=
  ∃ real junk, D.Shows J t.space t.baseline t.routes t.tags real junk ∧
    (D.showings t).Perm (real.map Prod.snd ++ junk)

structure Built (s : Space) (i i' : Nat) (t : Term) : Prop where
  sound : t.Sound D J
  space_eq : t.space = s
  le : i ≤ i'
  tags : ∀ k ∈ t.tags, i ≤ k ∧ k < i'

structure Compiled (s b : Space) (i i' : Nat) (t : Term) : Prop extends Built D J s i i' t where
  start : t.baseline.axes <+: b.axes
  whole : s.isInflated → t.baseline.axes = b.axes

structure Grown (t : Term) (i i' : Nat) (t' : Term) : Prop where
  sound : t'.Sound D J
  space_eq : t'.space = t.space
  le : i ≤ i'
  tags : ∀ k ∈ t'.tags, k ∈ t.tags ∨ i ≤ k ∧ k < i'
  start : t'.baseline.axes <+: t.baseline.axes
  contains : ∀ u, t.routes.contains u → t'.routes.contains u = true

structure Compiler.Correct (c : Compiler) : Prop where
  compile : ∀ {s b : Space} {i i' : Nat} {t : Term}, s.IsPlain J → b.IsChain J →
    c.compile s b i = .ok (t, i') → b.isInflated ∧ Compiled D J s b i i' t
  inject : ∀ {t t' : Term} {codes : List Code} {i i' : Nat}, t.Sound D J → t.space.IsPlain J →
    (∀ k ∈ t.tags, k < i) → (∀ f ∈ codes, f.IsPlain J) → c.inject t codes i = .ok (t', i') →
    Grown D J t i i' t' ∧ ∀ f ∈ codes, ∀ u ∈ f.units, t'.routes.contains u = true

variable {D J} {k i : Nat}

lemma Built.grown {s : Space} {t t' : Term} {i' : Nat} (h : Built D J s i k t)
    (h' : Grown D J t k i' t') : Built D J s i i' t' := by
  refine ⟨h'.sound, h'.space_eq.trans h.space_eq, h.le.trans h'.le, ?_⟩
  intro l hl
  have hle := h.le
  have hle' := h'.le
  obtain hl | hl := h'.tags l hl
  · have := h.tags l hl
    omega
  · omega

lemma tags_cons {tags : List Nat} (hle : i ≤ k) (h : ∀ l ∈ tags, i ≤ l ∧ l < k) :
    ∀ l ∈ k :: tags, i ≤ l ∧ l < k + 1 := by
  intro l hl
  obtain rfl | hl := mem_cons.1 hl
  · omega
  · have := h l hl
    omega

lemma freshTag_bind {α : Type} (f : Nat → Tagged α) (i : Nat) : (freshTag >>= f) i = f i (i + 1) := rfl

lemma eq_true_of_ensure {x : Bool} {rule : Invariant} {u : Unit} (h : ensure x rule = .ok u) :
    x := by
  cases x with
  | true => rfl
  | false => cases h

section Routing

lemma find?_of_tag {r : Routes} {u : Code} {k : Nat} (h : r.tag u = .ok k) : r.find? u = some k := by
  rw [Routes.tag] at h
  cases hfind : r.find? u with
  | none =>
    rw [hfind] at h
    cases h
  | some l =>
    rw [hfind] at h
    cases h
    rfl

variable {s b : Space} {r r' : Routes} {tags : List Nat} {real : List (Tuple R × Showing R)}
  {junk : List (Showing R)}

lemma foldlM_set_spec (hC : D.Contracts J) {m : Mark} {cs : List Column}
    (h : D.Shows J s b r tags real junk)
    (hr : (cs.map fun c => Code.ofColumn c s m).foldlM (fun r u => do
      return r.set u (← r.tag (u.withSpace s.inflate))) r = .ok r') :
    D.Shows J s b r' tags real junk ∧ ∀ u, r.contains u → r'.contains u := by
  induction cs generalizing r with
  | nil =>
    cases hr
    exact ⟨h, fun u hu => hu⟩
  | cons o cs ih =>
    obtain ⟨r'', hr'', hr⟩ := exists_of_bind_eq_ok hr
    obtain ⟨k, hk, hr''⟩ := exists_of_bind_eq_ok hr''
    cases hr''
    obtain ⟨hshows, hkeep⟩ := ih (h.set hC (n := m) (find?_of_tag hk)) hr
    exact ⟨hshows, fun u hu => hkeep u (contains_set.2 (.inl hu))⟩

lemma routeExports_spec (hC : D.Contracts J) (h : D.Shows J s b r tags real junk)
    (hr : routeExports r s s.inflate = .ok r') :
    D.Shows J s b r' tags real junk ∧ ∀ u, r.contains u → r'.contains u := by
  obtain ⟨us, hus, hr⟩ := exists_of_bind_eq_ok hr
  obtain ⟨m, hm⟩ := h.isChain.exports_eq
  obtain rfl := Except.ok.inj (hus.symm.trans hm)
  exact foldlM_set_spec hC h hr

end Routing

section Leaves

variable {s b : Space} {i : Nat}

lemma compiled_scalar (hC : D.Contracts J) (hs : s.IsBackbone J) (hnone : s.family.table? = none)
    (haxes : s.axes = b.axes) : Compiled D J s b i (i + 1) (.scalar ⟨i, s, s, .empty⟩) := by
  have hentries : ∀ ε : Option R, D.Possible s ε ↔
      ε ∈ ([(none, fun _ => none)] : List (Option R × Showing R)).map Prod.fst := by
    intro ε
    rw [Possible, hnone]
    exact mem_singleton.symm
  have hnodup : (([(none, fun _ => none)] : List (Option R × Showing R)).map Prod.fst).Nodup :=
    nodup_singleton _
  have hcolumns : s.columns = [] := by
    rw [columns, hnone]
    rfl
  obtain ⟨real, junk, hshows, hperm⟩ : ∃ real junk, D.Shows J s s .empty [i] real junk ∧
      ([fun _ => none] : List (Showing R)).Perm (real.map Prod.snd ++ junk) := by
    refine exists_shows_leaf hC hs hs rfl hnodup hentries
      (forall_mem_nil _) (fun c hc => ?_) (fun x hx k hk => ?_)
    · rw [hcolumns] at hc
      cases hc
    · rw [mem_singleton.1 hx]
  refine ⟨⟨⟨real, junk, hshows, hperm⟩, rfl, Nat.le_succ i, ?_⟩, haxes ▸ prefix_rfl, fun _ => haxes⟩
  intro k hk
  obtain rfl := mem_singleton.1 hk
  exact ⟨le_rfl, Nat.lt_succ_self k⟩

lemma compiled_table (hC : D.Contracts J) (hs : s.IsBackbone J) (hb : b.IsBackbone J)
    (haxes : s.axes = b.axes) {t : Table} (ht : s.family.table? = some t) {us : List Code}
    (hus : s.exports = .ok us) :
    Compiled D J s b i (i + 1) (.table ⟨i, s, b, empty.setAll us i⟩) := by
  obtain ⟨m, hm⟩ := hs.isChain.exports_eq
  obtain rfl := Except.ok.inj (hus.symm.trans hm)
  let entry (r : R) : Option R × Showing R := (some r, fun k => if k = i then some r else none)
  have hnodup : (((D.rows t).map entry).map Prod.fst).Nodup := by
    rw [map_map]
    exact (D.nodup_rows t).map fun _ _ h => Option.some.inj h
  have hentries : ∀ ε, D.Possible s ε ↔ ε ∈ ((D.rows t).map entry).map Prod.fst := by
    intro ε
    rw [Possible, ht, map_map, mem_map]
    exact exists_congr fun r => and_congr_right fun _ => eq_comm
  have hroutes : ∀ q ∈ (empty.setAll (s.columns.map fun c => Code.ofColumn c s m) i).entries,
      (∃ c m, q.1 = .ofColumn c s m) ∧ q.2 = i := by
    have hexchanges : Exchanges fun u k => (∃ c m, u = Code.ofColumn c s m) ∧ k = i :=
      fun u v k l hu hv _ => ⟨hv.1, hu.2⟩
    refine forall_foldl_set (f := id) (g := fun _ => i) hexchanges (forall_mem_nil _) ?_
    intro u hu
    obtain ⟨c, -, rfl⟩ := mem_map.1 hu
    exact ⟨⟨c, m, rfl⟩, rfl⟩
  obtain ⟨real, junk, hshows, hperm⟩ : ∃ real junk, D.Shows J s b
      (empty.setAll (s.columns.map fun c => Code.ofColumn c s m) i) [i] real junk ∧
      (((D.rows t).map entry).map Prod.snd).Perm (real.map Prod.snd ++ junk) := by
    refine exists_shows_leaf hC hs hb haxes.symm hnodup hentries ?_ ?_ ?_
    · intro q hq
      obtain ⟨hcolumn, htag⟩ := hroutes q hq
      refine ⟨hcolumn, mem_singleton.2 htag, fun x hx => ?_⟩
      obtain ⟨r, -, rfl⟩ := mem_map.1 hx
      exact if_pos htag
    · intro c hc n
      refine (contains_foldl_set _ _ _).2 (.inr ⟨_, mem_map_of_mem hc, ?_⟩)
      exact ofColumn_beq BEq.rfl c m n
    · intro x hx k hk
      obtain ⟨r, -, rfl⟩ := mem_map.1 hx
      exact if_neg fun h => hk (mem_singleton.2 h)
  refine ⟨⟨⟨real, junk, hshows, ?_⟩, rfl, Nat.le_succ i, ?_⟩, haxes ▸ prefix_rfl, fun _ => rfl⟩
  · rw [map_map] at hperm
    rw [showings, ht]
    exact hperm
  · intro k hk
    obtain rfl := mem_singleton.1 hk
    exact ⟨le_rfl, Nat.lt_succ_self k⟩

end Leaves

section Steps

variable {s p b : Space} {kid : Term} {r : Routes} {i k : Nat}

/-- A wrapper around a term whose rows show another space. -/
theorem compiled_wrapper (hkid : Compiled D J p b i k kid) {real : List (Tuple R × Showing R)}
    {junk : List (Showing R)} (hs : D.Shows J s kid.baseline r kid.tags real junk)
    (hperm : (D.showings kid).Perm (real.map Prod.snd ++ junk))
    (hp : s.isInflated → p.isInflated) :
    Compiled D J s b i (k + 1) (.wrapper ⟨k, s, kid.baseline, r⟩ kid) := by
  refine ⟨⟨⟨real, junk, hs.mono_tags (subset_cons_self _ _), hperm⟩, rfl,
    Nat.le_succ_of_le hkid.le, tags_cons hkid.le hkid.tags⟩, hkid.start,
    fun hi => hkid.whole (hp hi)⟩

lemma sound_attached (hC : D.Contracts J) {left right : Term} {q : Space} {a : Axis} {js : List Joint}
    {reall realr : List (Tuple R × Showing R)} {junkl junkr : List (Showing R)}
    (h : D.Attachment J p q s left.baseline right.baseline left.routes right.routes left.tags right.tags
      reall realr junkl junkr a js)
    (hl : (D.showings left).Perm (reall.map Prod.snd ++ junkl))
    (hr : (D.showings right).Perm (realr.map Prod.snd ++ junkr))
    (hroutes : ∀ {real junk}, D.Shows J s left.baseline (left.routes.update right.routes)
        (left.tags ++ right.tags) real junk →
      D.Shows J s left.baseline r (left.tags ++ right.tags) real junk) :
    (Term.join ⟨k, s, left.baseline, r⟩ left right js false).Sound D J := by
  refine ⟨_, _, (hroutes (h.shows hC)).mono_tags (subset_cons_self _ _), ?_⟩
  exact h.perm hl hr

end Steps

section Kinds

variable {c : Compiler} {s p b : Space} {i i' : Nat} {t : Term}

lemma isInflated_base (hs : s.IsChain J) (hbase : s.base? = some p) (hi : s.isInflated) :
    p.isInflated := by
  cases hs.isBackbone hi with
  | root m => cases hbase
  | step hb _ _ hbase' =>
    obtain rfl := Option.some.inj (hbase.symm.trans hbase')
    exact hb.isInflated

lemma compileScalar_spec (hC : D.Contracts J) (hE : D.Expands J) (hc : c.Correct D J)
    (hs : s.IsPlain J) (hb : b.IsChain J) (hi : b.isInflated) (ha : s.axis? = some .scalar)
    (hbase : s.base? = some p) (h : compileScalar c s p b i = .ok (t, i')) :
    Compiled D J s b i i' t := by
  have hnone : s.family.table? = none := by
    cases s <;> cases ha
    rfl
  rw [compileScalar] at h
  split at h
  · rename_i hsb
    cases h
    exact compiled_scalar hC (hs.isChain.isBackbone ((isInflated_of_beq hsb).trans hi)) hnone
      (axes_of_beq hsb)
  · obtain ⟨kid, k, hkid, h⟩ := exists_of_run_bind_eq_ok h
    cases h
    have hcompiled := (hc.compile (hs.base hbase) hb hkid).2
    obtain ⟨real, junk, hshows, hperm⟩ := hcompiled.sound
    rw [hcompiled.space_eq] at hshows
    obtain ⟨real', hshows', hsnd⟩ := hshows.conform hC hE hs.isChain ha hbase rfl rfl fun c hc => by
      rw [columns, hnone] at hc
      cases hc
    exact compiled_wrapper hcompiled hshows' (hsnd ▸ hperm) (isInflated_base hs.isChain hbase)

variable {a : Axis} {m : Mark} {root : Space}

lemma compiled_join (hC : D.Contracts J) (hJ : ∀ j, J j → j.IsFormed) (hs : s.IsChain J)
    (ha : s.axis? = some a) (hbase : s.base? = some p) {kid right : Term} {k k' : Nat}
    (hkid : Compiled D J p b i k kid) (hright : Compiled D J s.axesOnly s.axesOnly k k' right)
    {js : List Joint} (hjs : s.baseJoints = .ok js) {r : Routes}
    (hr : routeExports (kid.routes.update right.routes) s s.inflate = .ok r) :
    Compiled D J s b i (k' + 1) (.join ⟨k', s, kid.baseline, r⟩ kid right js false) := by
  have hbackaxes := hs.axes_axesOnly
  obtain ⟨reall, junkl, hshowl, hperml⟩ := hkid.sound
  obtain ⟨realr, junkr, hshowr, hpermr⟩ := hright.sound
  rw [hkid.space_eq] at hshowl
  rw [hright.space_eq] at hshowr
  have haxes : right.baseline.axes = s.axes :=
    (hright.whole hs.axesOnly_isBackbone.isInflated).trans hbackaxes
  have hattached : D.Attachment J p s.axesOnly s kid.baseline right.baseline kid.routes right.routes
      kid.tags right.tags reall realr junkl junkr a js := by
    refine ⟨hshowl, hshowr, ?_, haxes.trans (axes_of_axis? ha hbase), hs, hbackaxes.symm,
      hshowl.start.trans (inflatedAncestor_start hs hbase), ?_, ?_⟩
    · intro l hl hl'
      exact absurd (hkid.tags l hl).2 (hright.tags l hl').1.not_gt
    · intro z hz
      rw [mem_tuples_axis_iff_take ha hbase hz, mem_tuples_axesOnly hs]
      exact (and_iff_left hz).symm
    · exact joins_baseJoints_iff hC hJ hshowl hshowr hs ha hbase haxes hjs
  have hle := hkid.le
  have hle' := hright.le
  have hnew : ∀ l ∈ kid.tags ++ right.tags, i ≤ l ∧ l < k' := by
    intro l hl
    obtain hl | hl := mem_append.1 hl
    · have := hkid.tags l hl
      omega
    · have := hright.tags l hl
      omega
  exact ⟨⟨sound_attached hC hattached hperml hpermr fun h => (routeExports_spec hC h hr).1, rfl, by omega,
    tags_cons (hle.trans hle') hnew⟩, hkid.start, fun hi => hkid.whole (isInflated_base hs hbase hi)⟩

lemma compileTable_spec (hC : D.Contracts J) (hE : D.Expands J) (hJ : ∀ j, J j → j.IsFormed)
    (hc : c.Correct D J) (hs : s.IsPlain J) (hb : b.IsChain J) (hi : b.isInflated)
    (ha : s.axis? = some a) (hbase : s.base? = some p) {x : Table} (hx : s.family.table? = some x)
    (h : compileTable c s p b i = .ok (t, i')) : Compiled D J s b i i' t := by
  have hchain := hs.isChain
  rw [compileTable] at h
  split at h
  · rename_i hsb
    rw [freshTag_bind] at h
    obtain ⟨us, hus, h⟩ := exists_of_lift_bind_eq_ok h
    cases h
    exact compiled_table hC (hchain.isBackbone ((isInflated_of_beq hsb).trans hi))
      (hb.isBackbone hi) (axes_of_beq hsb) hx hus
  · obtain ⟨kid, k, hkid, h⟩ := exists_of_run_bind_eq_ok h
    obtain ⟨us, hus, h⟩ := exists_of_lift_bind_eq_ok h
    have hcompiled := (hc.compile (hs.base hbase) hb hkid).2
    obtain ⟨real, junk, hshows, hperm⟩ := hcompiled.sound
    rw [hcompiled.space_eq] at hshows
    have hback := hchain.axesOnly_isBackbone
    have hbackaxes := hchain.axes_axesOnly
    have hcolumns := columns_of_axes_eq hback.isChain hchain hbackaxes
    simp only at h
    split at h
    · -- the rows of the base are those of the space
      rename_i hconforms
      rw [Bool.and_eq_true, hcompiled.space_eq] at hconforms
      obtain ⟨routes, hroutes, h⟩ := exists_of_lift_bind_eq_ok h
      cases h
      obtain ⟨hexpanding, hcontracting⟩ := hchain.lastStep_of_conforms hbase hconforms.1
      rw [expanding_of_axis? ha] at hexpanding
      rw [contracting_of_axis? ha] at hcontracting
      obtain ⟨real', hshows', hsnd⟩ := hshows.conform hC hE hchain ha hbase hcontracting hexpanding
        fun o ho m => by
          rw [inflate_eq] at hus ⊢
          obtain ⟨n, hn⟩ := hback.isChain.exports_eq
          obtain rfl := Except.ok.inj (hus.symm.trans hn)
          rw [Routes.contains_congr (ofColumn_beq BEq.rfl o m n)]
          exact all_eq_true.1 hconforms.2 _ (mem_map_of_mem (hcolumns ▸ ho))
      exact compiled_wrapper hcompiled (routeExports_spec hC hshows' hroutes).1 (hsnd ▸ hperm)
        (isInflated_base hchain hbase)
    · obtain ⟨right, k', hright, h⟩ := exists_of_run_bind_eq_ok h
      obtain ⟨routes, hroutes, h⟩ := exists_of_lift_bind_eq_ok h
      obtain ⟨js, hjs, h⟩ := exists_of_lift_bind_eq_ok h
      cases h
      rw [inflate_eq] at hright
      have hcompiled' := (hc.compile hback.isPlain hback.isChain hright).2
      exact compiled_join hC hJ hchain ha hbase hcompiled hcompiled' hjs hroutes

lemma compileFiltered_spec (hC : D.Contracts J) (hc : c.Correct D J) {f : Code}
    (hs : (Space.filtered m p f).IsPlain J) (hb : b.IsChain J)
    (h : compileFiltered c (.filtered m p f) p b f i = .ok (t, i')) :
    Compiled D J (.filtered m p f) b i i' t := by
  have hchain := hs.isChain
  obtain ⟨start, k, hstart, h⟩ := exists_of_run_bind_eq_ok h
  obtain ⟨kid, k', hkid, h⟩ := exists_of_run_bind_eq_ok h
  obtain ⟨routes, hroutes, h⟩ := exists_of_lift_bind_eq_ok h
  obtain ⟨_, -, h⟩ := exists_of_lift_bind_eq_ok h
  cases h
  have hcompiled := (hc.compile hs.1 hb hstart).2
  obtain ⟨hgrown, hunits⟩ := hc.inject hcompiled.sound (hcompiled.space_eq ▸ hs.1)
    (fun l hl => (hcompiled.tags l hl).2) (by simpa using hs.2) hkid
  have hbuilt := hcompiled.toBuilt.grown hgrown
  obtain ⟨real, junk, hshows, hperm⟩ := hbuilt.sound
  rw [hbuilt.space_eq] at hshows
  let keep (e : Showing R) : Bool := D.engine.isTrue (D.read kid.routes e f)
  have hnarrow := hshows.narrow hchain rfl rfl (fun z hz => ((mem_tuples_filtered D).1 hz).1) keep
    fun w hw z hz hzw => by
      rw [mem_tuples_filtered, and_iff_right hz,
        ← hshows.read_plain hw hz hzw f hs.2 (hunits f mem_cons_self)]
  refine ⟨⟨⟨_, _, (routeExports_spec hC hnarrow hroutes).1.mono_tags (subset_cons_self _ _), ?_⟩,
    rfl, Nat.le_succ_of_le hbuilt.le, ?_⟩, hgrown.start.trans hcompiled.start, ?_⟩
  · have hkept := hperm.filter keep
    rw [filter_append, filter_map] at hkept
    exact hkept
  · exact tags_cons hbuilt.le hbuilt.tags
  · intro hi
    cases hi

lemma compileOrdered_spec (hC : D.Contracts J) (hc : c.Correct D J)
    {os : List OrderItem} {l o : Option Int} (hs : (Space.ordered m p os l o).IsPlain J)
    (hb : b.IsChain J) (h : compileOrdered c root (.ordered m p os l o) p b l o i = .ok (t, i')) :
    Compiled D J (.ordered m p os l o) b i i' t := by
  have hchain := hs.isChain
  obtain ⟨rfl, rfl, hp⟩ := hs
  obtain ⟨kid, k, hkid, h⟩ := exists_of_run_bind_eq_ok h
  obtain ⟨routes, hroutes, h⟩ := exists_of_lift_bind_eq_ok h
  cases h
  have hcompiled := (hc.compile hp hb hkid).2
  obtain ⟨real, junk, hshows, hperm⟩ := hcompiled.sound
  rw [hcompiled.space_eq] at hshows
  have hsame : D.tuples (.ordered m p os none none) = D.tuples p := by
    rfl
  have hnarrow := hshows.narrow hchain rfl rfl (fun z hz => hsame ▸ hz) (fun _ => true)
    fun w _ z hz _ => iff_of_true (hsame ▸ hz) rfl
  rw [filter_true, filter_true] at hnarrow
  exact compiled_wrapper hcompiled (routeExports_spec hC hnarrow hroutes).1 hperm fun hi => nomatch hi

lemma compileSpace_spec (hC : D.Contracts J) (hE : D.Expands J) (hJ : ∀ j, J j → j.IsFormed)
    (hc : c.Correct D J) (hs : s.IsPlain J) (hb : b.IsChain J)
    (h : compileSpace c root s b i = .ok (t, i')) :
    b.isInflated ∧ Compiled D J s b i i' t := by
  obtain ⟨_, hinflated, h⟩ := exists_of_lift_bind_eq_ok h
  obtain ⟨_, hconcludes, h⟩ := exists_of_lift_bind_eq_ok h
  have hi := eq_true_of_ensure hinflated
  refine ⟨hi, ?_⟩
  cases s with
  | root m =>
    -- the only baseline is the root itself
    have hsame : (Space.root m == b) := by
      simpa [concludes, ancestors] using eq_true_of_ensure hconcludes
    rw [compileScalar, if_pos hsame] at h
    cases h
    exact compiled_scalar hC (.root m) rfl (axes_of_beq hsame)
  | scalar m p => exact compileScalar_spec hC hE hc hs hb hi rfl rfl h
  | table _ _ _ | fiber _ _ _ => exact compileTable_spec hC hE hJ hc hs hb hi rfl rfl rfl h
  | filtered m p f => exact compileFiltered_spec hC hc hs hb h
  | ordered m p os l o => exact compileOrdered_spec hC hc hs hb h
  | quotient | complement | moniker | forked | linked => exact hs.elim

end Kinds

end Term

end NavQuery
