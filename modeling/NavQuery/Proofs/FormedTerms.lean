import NavQuery.Proofs.FormedSeams
import NavQuery.Proofs.TermTrees
import NavQuery.Term.OfSpace

/-!
A formed term has formed codes and spaces, and its routes lead to terms whose rows it shows. `Made` and
`Extended` say what compilation and injection make of a term with fresh tags.
-/

namespace NavQuery

open List

namespace Space

lemma isInflated_withCompanions (cs : List Code) (s : Space) :
    (s.withCompanions cs).isInflated = s.isInflated := by
  cases s <;> rfl

end Space

def Routes.Within (r : Routes) (shown : List Nat) : Prop :=
  ∀ e ∈ r.entries, e.2 ∈ shown ∧ e.1.isProper = true

namespace Routes

variable {r other : Routes} {shown : List Nat} {n : Nat}

lemma within_empty : empty.Within shown := nofun

variable (h : r.Within shown)
include h

lemma Within.mono {shown' : List Nat} (hs : shown ⊆ shown') : r.Within shown' :=
  fun e he => ⟨hs (h e he).1, (h e he).2⟩

variable {u : Code} {us : List Code}

lemma Within.set (hs : n ∈ shown) (hu : u.isProper) : (r.set u n).Within shown := by
  obtain ⟨es⟩ := r
  unfold Within Routes.set at *
  induction es with
  | nil => exact forall_mem_singleton.2 ⟨hs, hu⟩
  | cons e es ih =>
    rw [forall_mem_cons] at h
    rw [setEntry]
    split
    next heq => exact forall_mem_cons.2 ⟨⟨hs, h.1.2⟩, h.2⟩
    next => exact forall_mem_cons.2 ⟨h.1, ih h.2⟩

lemma Within.setAll (hs : n ∈ shown) (hu : ∀ u ∈ us, u.isProper) : (r.setAll us n).Within shown := by
  induction us generalizing r with
  | nil => exact h
  | cons u us ih =>
    rw [forall_mem_cons] at hu
    exact ih (h.set hs hu.1) hu.2

lemma Within.update (ho : other.Within shown) : (r.update other).Within shown := by
  obtain ⟨es⟩ := other
  unfold Within at ho
  induction es generalizing r with
  | nil => exact h
  | cons e es ih =>
    rw [forall_mem_cons] at ho
    exact ih (h.set ho.1.1 ho.1.2) ho.2

lemma Within.join {back : List Nat} (ho : other.Within back) : (r.update other).Within (shown ++ back) :=
  (h.mono (subset_append_left _ _)).update (ho.mono (subset_append_right _ _))

lemma Within.find (hn : r.find? u = some n) : n ∈ shown ∧ u.isProper := by
  obtain ⟨e, he, rfl⟩ := Option.map_eq_some_iff.1 hn
  have hu : (e.1 == u) := find?_some (p := fun x : Code × Nat => x.1 == u) he
  rw [← Code.isProper_of_beq hu]
  exact h e (mem_of_find?_eq_some he)

variable [Discipline.Lenient]

lemma Within.tag (u : Code) : Ensures (fun n => n ∈ shown ∧ u.isProper) (r.tag u) :=
  (Ensures.require (r.find? u) rfl).imp fun _ hn => h.find hn

/-- Routing units as other units of the same kind are routed. -/
theorem Within.foldlM (f g : Code → Code) (source : Routes → Routes)
    (hfg : ∀ u, (f u).isProper = (g u).isProper)
    (hsource : ∀ r : Routes, r.Within shown → (source r).Within shown) :
    Ensures (fun r => r.Within shown)
      (us.foldlM (fun r u => do return r.set (f u) (← (source r).tag (g u))) r) := by
  refine Ensures.foldlM h fun r hr u _ => ?_
  exact ((hsource r hr).tag (g u)).bind fun n hn => .pure (hr.set hn.1 ((hfg u).trans hn.2))

lemma Within.routeSeed {seedRoutes : Routes} (s : Space) (hseed : seedRoutes.Within shown) :
    Ensures (fun r => r.Within shown) (Term.routeSeed r seedRoutes us s) :=
  h.foldlM (fun u => u.withSpace s) id (fun _ => seedRoutes) (fun u => Code.isProper_withSpace s u)
    fun _ _ => hseed

lemma Within.routeExports {s : Space} (b : Space) (hs : s.Formed) :
    Ensures (fun r => r.Within shown) (Term.routeExports r s b) :=
  hs.exports.bind fun _ _ => h.foldlM id (fun u => u.withSpace b) id
    (fun u => (Code.isProper_withSpace b u).symm) fun _ hr => hr

end Routes

variable [Discipline.Lenient]

structure Space.Bare (s : Space) : Prop where
  formed : s.Formed
  inflated : s.isInflated = true

lemma Space.Formed.bare_inflate {s : Space} (h : s.Formed) : s.inflate.Bare :=
  ⟨h.inflate, s.inflate_eq ▸ s.isInflated_axesOnly⟩

namespace Term

structure Head.Fits (h : Head) (t : Term) : Prop where
  space : h.space.Formed
  baseline : h.baseline.Bare
  routes : h.routes.Within t.shown

inductive Formed : Term → Prop
  | scalar {h : Head} (hh : h.Fits (.scalar h)) : Formed (.scalar h)
  | table {h : Head} (hh : h.Fits (.table h)) (ht : h.space.family.table?.isSome) :
    Formed (.table h)
  | filter {h : Head} {k : Term} {c : Code} (hh : h.Fits (.filter h k c)) (hk : k.Formed)
    (hs : k.isSource) (hc : c.Formed) (hb : c.domain = .boolean) : Formed (.filter h k c)
  | join {h : Head} {l r : Term} {js : List Joint} {o : Bool} (hh : h.Fits (.join h l r js o))
    (hl : l.Formed) (hls : l.isSource) (hr : r.Formed) (hrs : r.isSource)
    (hjs : ∀ j ∈ js, j.Formed) : Formed (.join h l r js o)
  | embedding {h : Head} {l r : Term} {cs : List Code} (hh : h.Fits (.embedding h l r cs))
    (hl : l.Formed) (hls : l.isSource) (hr : r.Formed) (hrc : r.isCorrelation)
    (hcs : ∀ c ∈ cs, c.Formed) : Formed (.embedding h l r cs)
  | correlation {h : Head} {k : Term} (hh : h.Fits (.correlation h k)) (hk : k.Formed)
    (hs : k.isSource) : Formed (.correlation h k)
  | projection {h : Head} {k : Term} {ks : List Code} (hh : h.Fits (.projection h k ks))
    (hk : k.Formed) (hs : k.isSource) (hks : ∀ c ∈ ks, c.Formed) :
    Formed (.projection h k ks)
  | order {h : Head} {k : Term} {is : List OrderItem} {l o : Option Int}
    (hh : h.Fits (.order h k is l o)) (hk : k.Formed) (hs : k.isSource)
    (his : Space.FormedItems is) : Formed (.order h k is l o)
  | wrapper {h : Head} {k : Term} (hh : h.Fits (.wrapper h k)) (hk : k.Formed)
    (hs : k.isSource) : Formed (.wrapper h k)
  | permanent {h : Head} {k : Term} (hh : h.Fits (.permanent h k)) (hk : k.Formed)
    (hs : k.isSource) : Formed (.permanent h k)
  | segment {h : Head} {k : Term} {cs : List Code} (hh : h.Fits (.segment h k cs)) (hk : k.Formed)
    (hs : k.isSource) (hcs : ∀ c ∈ cs, c.Formed) : Formed (.segment h k cs)

variable {t : Term}

lemma Formed.fits (h : t.Formed) : t.head.Fits t := by
  cases h <;> assumption

lemma Formed.kid {k : Term} (h : t.Formed) (hk : k ∈ t.kids) : k.Formed := by
  cases h with
  | scalar _ | table _ _ => exact absurd hk not_mem_nil
  | filter _ h _ _ _ | correlation _ h _ | projection _ h _ _ | order _ h _ _ | wrapper _ h _
  | permanent _ h _ | segment _ h _ _ => exact mem_singleton.1 hk ▸ h
  | join _ hl _ hr _ _ | embedding _ hl _ hr _ _ =>
    rcases mem_cons.1 hk with rfl | hk
    · exact hl
    · exact mem_singleton.1 hk ▸ hr

lemma Formed.subterm {u : Term} (h : t.Formed) (hu : u ∈ t.subterms) : u.Formed :=
  forall_subterms (fun _ h _ hk => Formed.kid h hk) h u hu

/-- A formed source of rows whose tags are distinct and below a number. -/
structure Numbered (n : Nat) (t : Term) : Prop where
  formed : t.Formed
  source : t.isSource = true
  nodup : t.tags.Nodup
  below : ∀ tag ∈ t.tags, tag < n

structure Made (n : Nat) (p : Term × Nat) : Prop where
  le : n ≤ p.2
  numbered : Numbered p.2 p.1
  fresh : ∀ tag ∈ p.1.tags, n ≤ tag

structure Extended (n : Nat) (t : Term) (p : Term × Nat) : Prop where
  le : n ≤ p.2
  numbered : Numbered p.2 p.1
  fresh : ∀ tag ∈ p.1.tags, tag ∈ t.tags ∨ n ≤ tag
  shown : t.shown ⊆ p.1.shown

section Growth

variable {n m i : Nat} {t u v : Term}

lemma Numbered.space (h : Numbered n t) : t.space.Formed := h.formed.fits.space

lemma Numbered.baseline (h : Numbered n t) : t.baseline.Bare := h.formed.fits.baseline

lemma Numbered.routes (h : Numbered n t) : t.routes.Within t.shown := h.formed.fits.routes

lemma Numbered.mono (h : Numbered n t) (hn : n ≤ m) : Numbered m t :=
  { h with below := fun tag ht => Nat.lt_of_lt_of_le (h.below tag ht) hn }

lemma Extended.refl (h : Numbered n t) : Extended n t (t, n) :=
  ⟨Nat.le_refl n, h, fun _ => .inl, List.Subset.refl _⟩

lemma Extended.trans (h : Extended n t (u, m)) (hg : Extended m u (v, i)) : Extended n t (v, i) where
  le := Nat.le_trans h.le hg.le
  numbered := hg.numbered
  fresh tag ht := by
    have hnm : n ≤ m := h.le
    rcases hg.fresh tag ht with ht | ht
    · exact h.fresh tag ht
    · exact .inr (Nat.le_trans hnm ht)
  shown := List.Subset.trans h.shown hg.shown

lemma Made.grow (h : Made n (u, m)) (hg : Extended m u (v, i)) : Made n (v, i) where
  le := Nat.le_trans h.le hg.le
  numbered := hg.numbered
  fresh tag ht := by
    have hnm : n ≤ m := h.le
    exact (hg.fresh tag ht).elim (h.fresh tag) fun ht => Nat.le_trans hnm ht

lemma Numbered.disjoint (h : Numbered n t) (hu : ∀ tag ∈ u.tags, n ≤ tag) : t.tags.Disjoint u.tags := by
  intro tag ht htu
  have hlt := h.below tag ht
  have hle := hu tag htu
  omega

lemma Extended.disjoint {p : Term × Nat} {tags : List Nat} (h : Extended n t p)
    (ht : t.tags.Disjoint tags) (hn : ∀ tag ∈ tags, tag < n) : p.1.tags.Disjoint tags := by
  intro tag hp htags
  rcases h.fresh tag hp with hp | hp
  · exact ht hp htags
  · exact absurd (hn tag htags) (Nat.not_lt.2 hp)

end Growth

section Nodes

variable {n : Nat} {k l r t : Term}

lemma Numbered.fresh_cons (hk : Numbered n k) :
    (n :: k.tags).Nodup ∧ ∀ tag ∈ n :: k.tags, tag < n + 1 := by
  refine ⟨nodup_cons.2 ⟨fun hn => absurd (hk.below n hn) (Nat.lt_irrefl n), hk.nodup⟩,
    forall_mem_cons.2 ⟨Nat.lt_succ_self n, fun tag h => ?_⟩⟩
  exact Nat.lt_succ_of_lt (hk.below tag h)

lemma Numbered.cons (hk : Numbered n k) (ht : t.Formed) (hs : t.isSource)
    (htags : t.tags = n :: k.tags) : Numbered (n + 1) t where
  formed := ht
  source := hs
  nodup := htags ▸ hk.fresh_cons.1
  below := htags ▸ hk.fresh_cons.2

lemma Numbered.pair (hl : Numbered n l) (hr : r.tags.Nodup) (hb : ∀ tag ∈ r.tags, tag < n)
    (hd : l.tags.Disjoint r.tags) (ht : t.Formed) (hs : t.isSource)
    (htags : t.tags = n :: (l.tags ++ r.tags)) : Numbered (n + 1) t where
  formed := ht
  source := hs
  nodup := by
    have hn : n ∉ l.tags ++ r.tags := fun hm =>
      absurd ((mem_append.1 hm).elim (hl.below n) (hb n)) (Nat.lt_irrefl n)
    rw [htags, nodup_cons]
    exact ⟨hn, nodup_append'.2 ⟨hl.nodup, hr, hd⟩⟩
  below tag h := by
    rw [htags] at h
    rcases mem_cons.1 h with rfl | h
    · exact Nat.lt_succ_self _
    · exact Nat.lt_succ_of_lt ((mem_append.1 h).elim (hl.below tag) (hb tag))

lemma Numbered.grow (hk : Numbered n k) (ht : t.Formed) (hs : t.isSource)
    (htags : t.tags = n :: k.tags) (hshown : k.shown ⊆ t.shown) :
    Extended n k (t, n + 1) where
  le := Nat.le_succ n
  numbered := hk.cons ht hs htags
  fresh tag h := by
    rw [htags] at h
    rcases mem_cons.1 h with rfl | h
    · exact .inr (Nat.le_refl _)
    · exact .inl h
  shown := hshown

variable {space baseline : Space} {routes : Routes}

lemma Numbered.wrap (hk : Numbered n k) (hs : space.Formed) (hb : baseline.Bare)
    (hr : routes.Within k.shown) :
    Ensures (fun p => Extended n k p ∧ p.1.tag ∈ p.1.shown) (wrap k space baseline routes n) := by
  have ht : (Term.wrapper ⟨n, space, baseline, routes⟩ k).Formed :=
    .wrapper ⟨hs, hb, hr.mono (subset_cons_self n k.shown)⟩ hk.formed hk.source
  exact .run_pure ⟨hk.grow ht rfl rfl (subset_cons_self n k.shown), mem_cons_self⟩

lemma Numbered.rewrap (hk : Numbered n k) :
    Ensures (fun p => Extended n k p ∧ p.1.tag ∈ p.1.shown) (rewrap k n) :=
  hk.wrap hk.space hk.baseline hk.routes

lemma Numbered.filterBy {c : Code} (hk : Numbered n k) (hc : c.Formed) (hs : space.Formed)
    (hr : routes.Within k.shown) : Ensures (Extended n k) (filterBy k c space routes n) := by
  have hr := hr.mono (subset_cons_self n k.shown)
  refine (Ensures.ensure _ rfl).lift_bind fun _ hb => .run_pure ?_
  have ht : (Term.filter ⟨n, space, k.baseline, routes⟩ k c).Formed :=
    .filter ⟨hs, hk.baseline, hr⟩ hk.formed hk.source hc (Domain.eq_of_isBoolean hb)
  exact hk.grow ht rfl rfl (subset_cons_self n k.shown)

structure Joined (n : Nat) (l r : Term) (p : Term × Nat) : Prop where
  le : n ≤ p.2
  numbered : Numbered p.2 p.1
  tags : ∀ tag ∈ p.1.tags, tag = n ∨ tag ∈ l.tags ∨ tag ∈ r.tags
  left : l.shown ⊆ p.1.shown
  right : r.shown ⊆ p.1.shown

lemma Numbered.attach {js : List Joint} {outer : Bool} (hl : Numbered n l) (hr : Numbered n r)
    (hd : l.tags.Disjoint r.tags) (hjs : ∀ j ∈ js, j.Formed) (hs : space.Formed)
    (hroutes : routes.Within (l.shown ++ r.shown)) :
    Ensures (Joined n l r) (attach l r js outer space routes n) := by
  have ht : (Term.join ⟨n, space, l.baseline, routes⟩ l r js outer).Formed :=
    .join ⟨hs, hl.baseline, hroutes.mono (subset_cons_self _ _)⟩
      hl.formed hl.source hr.formed hr.source hjs
  refine .run_pure ⟨Nat.le_succ n, hl.pair hr.nodup hr.below hd ht rfl rfl, fun tag h => ?_, ?_, ?_⟩
  · exact (mem_cons.1 h).imp_right mem_append.1
  · exact subset_cons_of_subset _ (subset_append_left _ _)
  · exact subset_cons_of_subset _ (subset_append_right _ _)

/-- A subquery beside the rows that its value is computed for. -/
theorem Numbered.embed {cs : List Code} {unit : Code} (hl : Numbered n l) (hk : Numbered n k)
    (hd : l.tags.Disjoint k.tags) (hcs : ∀ c ∈ cs, c.Formed) (hu : unit.isProper) :
    Numbered (n + 2) (.embedding ⟨n + 1, l.space, l.baseline, l.routes.set unit n⟩ l
      (.correlation ⟨n, k.space, k.baseline, k.routes⟩ k) cs) := by
  have hs : (Term.correlation ⟨n, k.space, k.baseline, k.routes⟩ k).Formed :=
    .correlation ⟨hk.space, hk.baseline, hk.routes.mono (subset_cons_self _ _)⟩ hk.formed hk.source
  have hr := hl.routes.mono (subset_cons_of_subset (n + 1) (subset_cons_self n l.shown))
  have hr := hr.set (u := unit) (n := n) (mem_cons_of_mem _ mem_cons_self) hu
  refine (hl.mono (Nat.le_succ n)).pair (r := .correlation ⟨n, k.space, k.baseline, k.routes⟩ k)
    hk.fresh_cons.1 hk.fresh_cons.2 ?_ ?_ rfl rfl
  · intro tag hx hy
    rcases mem_cons.1 hy with rfl | hy
    · exact absurd (hl.below _ hx) (Nat.lt_irrefl _)
    · exact hd hx hy
  · exact .embedding ⟨hl.space, hl.baseline, hr⟩ hl.formed hl.source hs rfl hcs

end Nodes

section Joins

variable {n m i : Nat} {t l r j : Term}

lemma Joined.grown_left (h : Joined m l r (j, i)) (hl : Extended n t (l, m))
    (hr : ∀ tag ∈ r.tags, n ≤ tag) : Extended n t (j, i) where
  le := Nat.le_trans hl.le h.le
  numbered := h.numbered
  fresh tag ht := by
    have hnm : n ≤ m := hl.le
    rcases h.tags tag ht with rfl | ht | ht
    · exact .inr hnm
    · exact hl.fresh tag ht
    · exact .inr (hr tag ht)
  shown := List.Subset.trans hl.shown h.left

lemma Joined.grown_right (h : Joined m l t (j, i)) (hl : Made n (l, m)) : Extended n t (j, i) where
  le := Nat.le_trans hl.le h.le
  numbered := h.numbered
  fresh tag ht := by
    have hnm : n ≤ m := hl.le
    rcases h.tags tag ht with rfl | ht | ht
    · exact .inr hnm
    · exact .inr (hl.fresh tag ht)
    · exact .inl ht
  shown := h.right

lemma Joined.made (h : Joined m l r (j, i)) (hl : Made n (l, m)) (hr : ∀ tag ∈ r.tags, n ≤ tag) :
    Made n (j, i) where
  le := Nat.le_trans hl.le h.le
  numbered := h.numbered
  fresh tag ht := by
    have hnm : n ≤ m := hl.le
    rcases h.tags tag ht with rfl | ht | ht
    · exact hnm
    · exact hl.fresh tag ht
    · exact hr tag ht

end Joins

end Term

end NavQuery
