import NavQuery.Proofs.FormedTerms

/-!
One lemma for each step of compilation and injection says what it gives with a steady compiler. By
induction on the depth to which calls nest, the term of a formed segment is formed.
-/

namespace NavQuery

open List Space Discipline Routes Ensures

variable {u : Term} {root : Space} {seedUnits : List Code}

namespace Term

variable {s : Space} {cs : List Code}

lemma isProper_ofCovered : ∀ u ∈ cs.map (Code.ofCovered · s), u.isProper := forall_mem_map.2 fun _ _ => rfl

lemma isProper_ofKernel : ∀ u ∈ cs.map (Code.ofKernel · s), u.isProper := forall_mem_map.2 fun _ _ => rfl

lemma isProper_respaced {us : List Code} (h : ∀ u ∈ us, u.isProper) :
    ∀ u ∈ us.map (·.withSpace s), u.isProper :=
  forall_mem_map.2 fun c hc => (Code.isProper_withSpace s c).trans (h c hc)

variable [Lenient]

section Steps

variable {n m : Nat}

lemma ensures_freshTag_bind {β : Type} {P : β × Nat → Prop} {f : Nat → Tagged β}
    (h : Ensures P (f n (n + 1))) : Ensures P ((freshTag >>= f) n) := h

variable {t : Term}

lemma Made.leaf (ht : t.Formed) (hs : t.isSource) (htags : t.tags = [n]) : Made n (t, n + 1) where
  le := Nat.le_succ n
  numbered := by
    refine ⟨ht, hs, htags ▸ nodup_singleton n, fun tag h => ?_⟩
    obtain rfl := mem_singleton.1 (htags ▸ h)
    exact Nat.lt_succ_self tag
  fresh tag h := Nat.le_of_eq (mem_singleton.1 (htags ▸ h)).symm

lemma Extended.weaken {p : Term × Nat} (h : Extended n t p) (hm : m ≤ n) : Extended m t p :=
  { h with
    le := Nat.le_trans hm h.le
    fresh := fun tag ht => (h.fresh tag ht).imp_right fun hn => Nat.le_trans hm hn }

lemma Extended.raise (h : Extended n t (u, m)) {i : Nat} (hi : m ≤ i) : Extended n t (u, i) :=
  { h with
    le := Nat.le_trans h.le hi
    numbered := h.numbered.mono hi }

variable {ks : List Code}

lemma Numbered.project {k : Term} {s : Space} {us : List Code} (hk : Numbered n k) (hs : s.Bare)
    (hus : ∀ u ∈ us, u.isProper) (hks : ∀ c ∈ ks, c.Formed) :
    Numbered (n + 1) (.projection ⟨n, s, s, .setAll .empty us n⟩ k ks) := by
  refine hk.cons (.projection ⟨hs.formed, hs, ?_⟩ hk.formed hk.source hks) rfl rfl
  exact within_empty.setAll mem_cons_self hus

lemma Numbered.glueTo {s : Term} (ht : Numbered n t) (hs : Numbered m s) :
    Ensures (fun js => ∀ j ∈ js, j.Formed) (s.glueTo t) := ht.space.glue ht.baseline.formed hs.baseline.formed

lemma formed_conjunction (mark : Mark) {cs : List Code}
    (h : ∀ c ∈ cs, c.Formed ∧ c.domain = .boolean) : (conjunction mark cs).Formed := by
  unfold conjunction
  split
  · exact (h _ mem_cons_self).1
  · exact .formula (Discipline.conjunction (forall_mem_map.2 fun c hc => (h c hc).2)) fun c hc => (h c hc).1

lemma formed_kernelFilter (mark : Mark) (h : ∀ k ∈ ks, k.Formed) : (kernelFilter mark ks).Formed := by
  refine formed_conjunction mark (forall_mem_map.2 fun k hk => ?_)
  exact ⟨.formula (nullTest _ _) (forall_mem_singleton.2 (h k hk)), rfl⟩

lemma ensures_copiedRoutes {r : Routes} {shown : List Nat} (us : List Code) (h : r.Within shown) :
    Ensures (fun p => p.1.Within shown ∧ p.2 = n)
      ((us.foldlM (fun s u => do return s.set u (← r.tag u)) empty : Tagged Routes) n) := by
  refine run_foldlM ⟨within_empty, rfl⟩ fun s m hs u _ => ?_
  refine (h.tag u).lift_bind fun tag htag => ?_
  exact .run_pure ⟨hs.1.set htag.1 htag.2, hs.2⟩

end Steps

structure Compiler.Steady (c : Compiler) : Prop where
  compile : ∀ {s b : Space} (n : Nat), s.Formed → b.Formed → Ensures (Made n) (c.compile s b n)
  inject : ∀ {t : Term} {codes : List Code} {n : Nat}, Term.Numbered n t → (∀ k ∈ codes, k.Formed) →
    Ensures (Extended n t) (c.inject t codes n)

namespace Compiler.Steady

variable {c : Compiler} (hc : c.Steady) {n m : Nat} {t : Term} {space base baseline : Space}
include hc

lemma injectJoints {js : List Joint} (ht : Term.Numbered n t) (hjs : ∀ j ∈ js, j.Formed) :
    Ensures (Extended n t) (injectJoints c t js n) := by
  exact hc.inject ht (forall_mem_map.2 fun j hj => (hjs j hj).left)

section Compile

variable (hs : space.Formed) (hb : base.Formed) (hl : baseline.Formed)
include hs hl hb

lemma compileScalar (hi : baseline.isInflated) : Ensures (Made n) (compileScalar c space base baseline n) := by
  unfold Term.compileScalar
  split
  next hsb =>
    have hbare : space.Bare := ⟨hs, (isInflated_of_beq hsb).trans hi⟩
    exact .run_pure (.leaf (.scalar ⟨hs, hbare, within_empty⟩) rfl rfl)
  · refine (hc.compile n hb hl).run_bind fun kid m hk => ?_
    exact (hk.numbered.wrap hs hk.numbered.baseline hk.numbered.routes).imp fun p hp => hk.grow hp.1

lemma compileTable (hi : baseline.isInflated) (ht : space.family.table?.isSome) :
    Ensures (Made n) (compileTable c space base baseline n) := by
  unfold Term.compileTable
  dsimp only
  split
  · refine ensures_freshTag_bind (hs.exports.lift_bind fun us hus => .run_pure ?_)
    refine .leaf (.table ⟨hs, ⟨hl, hi⟩, ?_⟩ ht) rfl rfl
    exact within_empty.setAll mem_cons_self fun u hu => (hus u hu).2
  · refine (hc.compile n hb hl).run_bind fun kid m hk => ?_
    refine hs.inflate.exports.lift_bind fun us _ => ?_
    split
    · refine (hk.numbered.routes.routeExports _ hs).lift_bind fun routes hr => ?_
      exact (hk.numbered.wrap hs hk.numbered.baseline hr).imp fun p hp => hk.grow hp.1
    · refine (hc.compile m hs.inflate hs.inflate).run_bind fun right i hright => ?_
      refine ((hk.numbered.routes.join hright.numbered.routes).routeExports _ hs).lift_bind fun routes hroutes => ?_
      refine hs.baseJoints.lift_bind fun js hjs => ?_
      have hle : m ≤ i := hright.le
      refine ((hk.numbered.mono hle).attach hright.numbered (hk.numbered.disjoint hright.fresh) hjs hs
        hroutes).imp fun p hp => ?_
      have hgrown := hp.grown_left (.weaken (.refl (hk.numbered.mono hle)) hle) hright.fresh
      exact hk.grow hgrown

lemma compileFiltered {f : Code} (hf : f.Formed) :
    Ensures (Made n) (compileFiltered c space base baseline f n) := by
  refine (hc.compile n hb hl).run_bind fun kid m hk => ?_
  refine (hc.inject hk.numbered (forall_mem_singleton.2 hf)).run_bind fun kid i hg => ?_
  refine (hg.numbered.routes.routeExports _ hs).lift_bind fun routes hr => ?_
  exact (hg.numbered.filterBy hf hs hr).imp fun p hp => hk.grow (hg.trans hp)

lemma compileOrdered (hroot : root.Formed) (limit offset : Option Int) :
    Ensures (Made n) (compileOrdered c root space base baseline limit offset n) := by
  unfold Term.compileOrdered
  split
  · refine (hc.compile n hb hl).run_bind fun kid m hk => ?_
    refine (hk.numbered.routes.routeExports _ hs).lift_bind fun routes hr => ?_
    exact (hk.numbered.wrap hs hk.numbered.baseline hr).imp fun p hp => hk.grow hp.1
  · have hitems := hs.arrange true true
    refine (hc.compile n hb hroot).run_bind fun kid m hk => ?_
    refine (hc.inject hk.numbered (forall_mem_map.2 hitems)).run_bind fun kid i hg => ?_
    refine (hg.numbered.routes.routeExports _ hs).lift_bind fun routes hr => ?_
    refine ensures_freshTag_bind (.run_pure (hk.grow (hg.trans ?_)))
    have hr := hr.mono (subset_cons_self i _)
    exact hg.numbered.grow (.order ⟨hs, hg.numbered.baseline, hr⟩ hg.numbered.formed
      hg.numbered.source hitems) rfl rfl (subset_cons_self _ _)

end Compile

section Seeds

variable {seed ground : Space} {mark : Mark} {kernels companions : List Code}

lemma compileSeed {codes : List Code} (hs : seed.Formed) (hg : ground.Formed)
    (hcodes : ∀ k ∈ codes, k.Formed) : Ensures (Made n) (compileSeed c seed ground codes n) :=
  (hc.compile n hs hg.inflatedAncestor).run_bind fun _ _ ht =>
    (hc.inject ht.numbered hcodes).imp fun _ hp => ht.grow hp

lemma groupable (ht : Numbered n t) (hks : ∀ k ∈ kernels, k.Formed) :
    Ensures (Extended n t) (groupable c mark kernels t n) := by
  unfold Term.groupable
  split
  · exact .run_pure (.refl ht)
  · refine (hc.inject ht hks).run_bind fun u m hu => ?_
    exact (hu.numbered.filterBy (formed_kernelFilter mark hks) hu.numbered.space
      hu.numbered.routes).imp fun p hp => hu.trans hp

structure Prepared (n : Nat) (t : Term) (p : (Term × List Code) × Nat) : Prop where
  extended : Extended n t (p.1.1, p.2)
  opens : p.1.1.tag ∈ p.1.1.shown
  codes : ∀ k ∈ p.1.2, k.Formed

variable {complement : Space}

lemma prepareAggregates (ht : Numbered n t) (ho : t.tag ∈ t.shown)
    (hs : seed.Formed) (hcomplement : complement.Bare) (hcs : ∀ k ∈ companions, k.Formed) :
    Ensures (Prepared n t) (prepareAggregates c seed complement kernels companions t n) := by
  refine hs.inflate.exports.lift_bind fun us _ => ?_
  have hcovered : Within (.setAll .empty ((t.routes.units ++ kernels).map (Code.ofCovered · complement))
      t.tag) t.shown := within_empty.setAll ho isProper_ofCovered
  refine (hcovered.routeSeed complement ht.routes).lift_bind fun routes hr => ?_
  refine (ht.wrap hcomplement.formed hcomplement hr).run_bind fun u m hu => ?_
  refine (hc.inject hu.1.numbered hcs).run_bind fun u i hg => ?_
  have hg := hu.1.trans hg
  split
  · refine (ensures_copiedRoutes _ hg.numbered.routes).run_bind fun inner j hi => ?_
    obtain ⟨hi, rfl⟩ := hi
    have hr := hi.update (ht.routes.mono hg.shown)
    refine (hg.numbered.wrap ht.space ht.baseline hr).run_bind fun v k hv => .run_pure ?_
    exact ⟨hg.trans hv.1, hv.2, hcs⟩
  · have hle : n ≤ i := hg.le
    refine .run_pure ⟨.weaken (.refl (ht.mono hle)) hle, ho, nofun⟩

lemma seedAggregates {isRegular : Bool} (ht : Numbered n t)
    (ho : t.tag ∈ t.shown) (hs : seed.Formed) (hcomplement : complement.Bare)
    (hcs : ∀ k ∈ companions, k.Formed) :
    Ensures (Prepared n t) (seedAggregates c seed complement kernels companions isRegular t n) := by
  unfold Term.seedAggregates
  split
  · exact hc.prepareAggregates ht ho hs hcomplement hcs
  · exact .run_pure ⟨.refl ht, ho, nofun⟩

end Seeds

section Trunks

omit hc in
lemma formed_zip {js : List Joint} {f : Joint → Code} (hjs : ∀ j ∈ js, j.Formed) (hf : ∀ j ∈ js, (f j).Flat) :
    ∀ j ∈ (js.zip (js.map f)).map (fun (j, u) => (⟨j.left, u⟩ : Joint)), j.Formed := by
  refine forall_mem_map.2 fun ⟨i, u⟩ hiu => ?_
  obtain ⟨hi, hu⟩ := of_mem_zip hiu
  exact ⟨(hjs i hi).left, forall_mem_map.2 hf u hu⟩

structure Trunk (n : Nat) (trunk : Option Term) (m : Nat) : Prop where
  le : n ≤ m
  made : ∀ t, trunk = some t → Made n (t, m)

omit hc in
lemma Trunk.none : Trunk n none n := ⟨Nat.le_refl n, fun _ h => nomatch h⟩

omit hc in
lemma Trunk.some (h : Made n (t, m)) : Trunk n (some t) m := ⟨h.le, fun _ h' => Option.some.inj h' ▸ h⟩

structure Projects (n : Nat) (p : (Option Term × Projection) × Nat) : Prop where
  trunk : Trunk n p.1.1 p.2
  basis : ∀ k ∈ p.1.2.basis, k.Formed
  units : ∀ u ∈ p.1.2.units, u.isProper = true
  joints : ∀ j ∈ p.1.2.joints, j.Formed

lemma quotientTrunk {backbone : Space} {isRegular : Bool} (hs : space.Formed) (hb : base.Formed)
    (hl : baseline.Formed) (hback : backbone.Formed) (ht : Numbered n t) :
    Ensures (Projects n) (quotientTrunk c space base baseline backbone isRegular t n) := by
  have hnil {α : Type} {P : α → Prop} : ∀ a ∈ ([] : List α), P a := nofun
  unfold Term.quotientTrunk
  split
  · split
    · exact .run_pure ⟨.none, hnil, hnil, hnil⟩
    · refine (hc.compile n hb hl).run_bind fun trunk m hm => ?_
      exact hs.baseJoints.lift_bind fun js hjs => .run_pure ⟨.some hm, hnil, hnil, hjs⟩
  · refine (hc.compile n hb (hl.ite hl.base_getD)).run_bind fun trunk m hm => ?_
    refine (hm.numbered.glueTo ht).lift_bind fun js hjs => .run_pure ⟨.some hm, ?_, ?_, ?_⟩
    · exact Joint.Formed.right_of_mem hjs
    · exact forall_mem_map.2 fun _ _ => rfl
    · exact formed_zip hjs fun j hj => (hjs j hj).right.1.flat_ofKernel hback

omit hc in
lemma constantBasis {seed : Space} {mark : Mark} {kernels : List Code} (ht : Numbered n t)
    (ho : t.tag ∈ t.shown) (hs : seed.Formed) :
    Ensures (fun p => Extended n t (p.1.1, p.2) ∧ ∀ k ∈ p.1.2, k.Formed)
      (constantBasis mark seed kernels t n) := by
  unfold Term.constantBasis
  split
  · have hunit : (Code.single mark (.literal mark .boolean (.boolean true)) seed []).Formed :=
      .single (.literal (truth true)) hs (forall_mem_nil _)
    refine ensures_freshTag_bind (.run_pure ⟨?_, forall_mem_singleton.2 hunit⟩)
    have hr := ht.routes.set (u := .single mark (.literal mark .boolean (.boolean true)) seed []) ho rfl
    have hr := hr.mono (subset_cons_self n _)
    exact ht.grow (.permanent ⟨ht.space, ht.baseline, hr⟩ ht.formed ht.source) rfl rfl
      (subset_cons_self _ _)
  · exact .run_pure ⟨.refl ht, forall_mem_nil _⟩

/-- A shoot whose tags lie around those of its trunk. -/
structure Beside (n m i : Nat) (shoot : Term) (j : Nat) : Prop where
  numbered : Numbered j shoot
  start : n ≤ m
  stop : i ≤ j
  fresh : ∀ tag ∈ shoot.tags, n ≤ tag
  around : ∀ tag ∈ shoot.tags, tag < m ∨ i ≤ tag

variable {j i : Nat} {js : List Joint} {shoot : Term}

omit hc in
lemma Beside.of_extended (h : Made n (t, m)) (hm : m ≤ i)
    (hu : Extended i t (u, j)) : Beside n m i u j where
  numbered := hu.numbered
  start := h.le
  stop := hu.le
  fresh tag hx := by
    have hnm : n ≤ m := h.le
    exact (hu.fresh tag hx).elim (h.fresh tag) fun hi => Nat.le_trans hnm (Nat.le_trans hm hi)
  around tag hx := (hu.fresh tag hx).imp_left (h.numbered.below tag)

omit hc in
lemma Beside.made (h : Beside n m i shoot j) (hi : m ≤ i) : Made n (shoot, j) :=
  ⟨Nat.le_trans h.start (Nat.le_trans hi h.stop), h.numbered, h.fresh⟩

omit hc in
lemma Beside.attach {k : Nat} {trunk left : Term} {routes : Routes}
    (h : Beside n m i shoot j) (ht : Made m (trunk, i)) (hleft : Extended j trunk (left, k))
    (hjs : ∀ j ∈ js, j.Formed) (hs : space.Formed)
    (hr : routes.Within (left.shown ++ shoot.shown)) :
    Ensures (Made n) (attach left shoot js false space routes k) := by
  have hle : j ≤ k := hleft.le
  have hd : trunk.tags.Disjoint shoot.tags := by
    intro tag hl hs
    have hlt : tag < i := ht.numbered.below tag hl
    have hfresh : m ≤ tag := ht.fresh tag hl
    rcases h.around tag hs with ha | ha <;> omega
  have hd := hleft.disjoint hd h.numbered.below
  have hmade : Made n (left, k) := by
    refine ⟨?_, hleft.numbered, fun tag hl => ?_⟩
    · have hstart := h.start
      have hstop := h.stop
      have hi : m ≤ i := ht.le
      omega
    · have hstart := h.start
      have hstop := h.stop
      have hi : m ≤ i := ht.le
      rcases hleft.fresh tag hl with hl | hl
      · exact Nat.le_trans hstart (ht.fresh tag hl)
      · omega
  exact (hleft.numbered.attach (h.numbered.mono hle) hd hjs hs hr).imp fun p hp =>
    hp.made hmade h.fresh

variable {trunk : Option Term} {us : List Code}

lemma joinProjection (h : Beside n m i shoot j) (ht : Trunk m trunk i) (hs : space.Formed)
    (hjs : ∀ j ∈ js, j.Formed) (hus : ∀ u ∈ us, u.isProper) (ho : shoot.tag ∈ shoot.shown) :
    Ensures (Made n) (joinProjection c space trunk js us shoot j) := by
  cases trunk with
  | none => exact .run_pure (h.made ht.le)
  | some trunk =>
    have ht := ht.made trunk rfl
    refine (hc.injectJoints (ht.numbered.mono h.stop) hjs).run_bind fun left k hleft => ?_
    refine h.attach ht hleft hjs hs ?_
    exact (hleft.numbered.routes.join h.numbered.routes).setAll (mem_append_right _ ho)
      (isProper_respaced hus)

lemma joinCovering
    {seedTerm : Term} (h : Beside n m i shoot j) (ht : Trunk m trunk i) (hs : space.Formed)
    (hjs : ∀ j ∈ js, j.Formed) (hus : ∀ u ∈ us, u.isProper)
    (ho : seedTerm.tag ∈ shoot.shown) (hseed : seedTerm.routes.Within shoot.shown) :
    Ensures (Made n) (joinCovering c space trunk js us seedUnits seedTerm shoot j) := by
  cases trunk with
  | none => exact .run_pure (h.made ht.le)
  | some trunk =>
    have ht := ht.made trunk rfl
    refine (hc.injectJoints (ht.numbered.mono h.stop) hjs).run_bind fun left k hleft => ?_
    have hr := (hleft.numbered.routes.join h.numbered.routes).setAll (mem_append_right _ ho) hus
    have hseed := hseed.mono (subset_append_right left.shown _)
    exact (hr.routeSeed space hseed).lift_bind fun routes hroutes =>
      h.attach ht hleft hjs hs hroutes

end Trunks

section Quotients

variable {mark : Mark} {seed ground : Space} {kernels companions : List Code}

lemma compileQuotient (hs : (Space.quotient mark base seed kernels companions).Formed)
    (hl : baseline.Formed) :
    Ensures (Made n) (compileQuotient c (.quotient mark base seed kernels companions) baseline mark
      base seed kernels companions n) := by
  obtain ⟨hb, hseed, hks, hcs⟩ : base.Formed ∧ seed.Formed ∧ (∀ k ∈ kernels, k.Formed) ∧
      ∀ k ∈ companions, k.Formed := by
    cases hs with
    | quotient hb hseed hks hcs => exact ⟨hb, hseed, hks, hcs⟩
  have hground := hseed.groundOf base
  have hcomplement : (Space.complement mark
      (withCompanions [] (Space.quotient mark base seed kernels companions).inflate) []).Bare := by
    refine ⟨.complement (hs.inflate.withCompanions (forall_mem_nil _)) (forall_mem_nil _), ?_⟩
    rw [isInflated_eq rfl, isInflated_withCompanions]
    exact hs.bare_inflate.inflated
  refine (hc.compile n hseed hground.inflatedAncestor).run_bind fun t m ht => ?_
  refine (hc.groupable ht.numbered hks).run_bind fun u i hu => ?_
  refine hu.numbered.rewrap.run_bind fun v j hv => ?_
  have hv' := ht.grow (hu.trans hv.1)
  refine (hc.seedAggregates hv'.numbered hv.2 hseed hcomplement hcs).run_bind fun q m1 hq => ?_
  obtain ⟨w, aggregates⟩ := q
  have hw : Made n (w, m1) := hv'.grow hq.extended
  refine (hc.quotientTrunk hs hb hl hs.inflate hw.numbered).run_bind fun q m2 hp => ?_
  obtain ⟨trunk, p⟩ := q
  have hm2 : m1 ≤ m2 := hp.trunk.le
  refine hground.baseJoints.lift_bind fun js hjs => ?_
  refine (constantBasis (hw.numbered.mono hm2) hq.opens hseed).run_bind fun q m3 hx => ?_
  obtain ⟨x, constant⟩ := q
  have hm3 : m2 ≤ m3 := hx.1.le
  have hunits : ∀ u ∈ p.units ++ (js.map (·.right) ++ kernels).map
      (Code.ofKernel · (Space.quotient mark base seed kernels companions).inflate) ++
      aggregates.map fun a => .aggregate a.mark a (.complement mark (withCompanions []
        (Space.quotient mark base seed kernels companions).inflate) [])
        (Space.quotient mark base seed kernels companions).inflate [], u.isProper := by
    refine forall_mem_append.2 ⟨forall_mem_append.2 ⟨hp.units, isProper_ofKernel⟩, ?_⟩
    exact forall_mem_map.2 fun _ _ => rfl
  refine ensures_freshTag_bind (hc.joinProjection (m := m1) (i := m2) ?_ hp.trunk hs hp.joints hunits
    mem_cons_self)
  have hbasis : ∀ k ∈ p.basis ++ (js.map (·.right) ++ kernels) ++ constant, k.Formed :=
    forall_mem_append.2 ⟨forall_mem_append.2 ⟨hp.basis, Joint.Formed.right_append hjs hks⟩, hx.2⟩
  refine ⟨hx.1.numbered.project hs.bare_inflate hunits hbasis, hw.le, Nat.le_succ_of_le hm3, ?_, ?_⟩
  · intro tag h
    have hnm : n ≤ m1 := hw.le
    rcases mem_cons.1 h with rfl | h
    · exact Nat.le_trans hnm (Nat.le_trans hm2 hm3)
    · rcases hx.1.fresh tag h with h | h
      · exact hw.fresh tag h
      · omega
  · intro tag h
    rcases mem_cons.1 h with rfl | h
    · exact .inr hm3
    · exact (hx.1.fresh tag h).imp_left (hw.numbered.below tag)

end Quotients

section Complements

variable {mark : Mark} {seed ground axis : Space} {kernels companions : List Code} {isRegular : Bool}

omit hc in
lemma keptRows {isFiltered : Bool} (ht : Numbered n t) (hks : ∀ k ∈ kernels, k.Formed) :
    Ensures (Extended n t) (keptRows isFiltered mark kernels t n) := by
  unfold Term.keptRows
  split
  · exact ht.filterBy (formed_kernelFilter mark hks) ht.space ht.routes
  · exact .run_pure (.refl ht)

lemma complementTrunk (ha : axis.Formed) (hl : baseline.Formed) :
    Ensures (fun p => Trunk n p.1 p.2) (complementTrunk c axis baseline n) := by
  unfold Term.complementTrunk
  split
  · exact (hc.compile n ha hl).run_bind fun trunk m hm => .run_pure (.some hm)
  · exact .run_pure .none

omit hc in
lemma seedGlue {trunk : Term} (ht : Numbered n t) (htrunk : Numbered m trunk) :
    Ensures (fun js => ∀ j ∈ js, j.Formed) (seedGlue isRegular t trunk) := by
  unfold Term.seedGlue
  split
  · exact .pure (forall_mem_nil _)
  · exact htrunk.glueTo ht

variable {backbone : Space} {i : Nat} {trunk : Option Term}

omit hc in
lemma complementJoints {joined : Space}
    (hj : joined.Formed) (hback : backbone.Formed) (ht : Numbered n t) (htrunk : Trunk m trunk i) :
    Ensures (fun p => (∀ u ∈ p.1, u.isProper) ∧ ∀ j ∈ p.2, j.Formed)
      (complementJoints joined backbone isRegular t trunk) := by
  cases trunk with
  | none => exact .pure ⟨nofun, nofun⟩
  | some trunk =>
    refine (seedGlue ht (htrunk.made trunk rfl).numbered).bind fun js hjs => ?_
    refine hj.baseJoints.bind fun own hown => .pure ⟨forall_mem_map.2 fun _ _ => rfl, ?_⟩
    refine forall_mem_append.2 ⟨formed_zip hjs fun j hj => ?_, hown⟩
    exact (hjs j hj).right.1.flat_ofCovered hback

omit hc in
lemma quotientUnits {hasQuotient : Bool} (hb : base.Formed) :
    Ensures (fun us => ∀ u ∈ us, u.isProper) (quotientUnits hasQuotient base) := by
  unfold Term.quotientUnits
  split
  · exact hb.inflate.exports.imp fun us hus u hu => (hus u hu).2
  · exact .pure (forall_mem_nil _)

lemma joinSeed {us own : List Code}
    {js : List Joint} (h : Made n (t, m)) (ho : t.tag ∈ t.shown) (ht : Trunk m trunk i)
    (hs : space.Formed) (hback : backbone.Formed) (hl : baseline.Bare) (hjs : ∀ j ∈ js, j.Formed)
    (hus : ∀ u ∈ us, u.isProper) (hown : ∀ u ∈ own, u.isProper) :
    Ensures (Made n) ((do
      let routes ← routeSeed (.setAll .empty us t.tag) t.routes seedUnits backbone
      let term ← wrap t backbone baseline routes
      Term.joinCovering c space trunk js own seedUnits t term : Tagged Term) i) := by
  have hr : Within (.setAll .empty us t.tag) t.shown := within_empty.setAll ho hus
  refine (hr.routeSeed backbone h.numbered.routes).lift_bind fun routes hroutes => ?_
  refine ((h.numbered.mono ht.le).wrap hback hl hroutes).run_bind fun u j hu => ?_
  exact hc.joinCovering (.of_extended h ht.le hu.1) ht hs hjs hown (hu.1.shown ho)
    (h.numbered.routes.mono hu.1.shown)

lemma compileComplement (hs : space.Formed) (hl : baseline.Formed) (hb : base.Formed)
    (hseed : seed.Formed) (hg : ground.Formed) (hks : ∀ k ∈ kernels, k.Formed)
    (hcs : ∀ k ∈ companions, k.Formed) :
    Ensures (Made n) (compileComplement c space baseline mark base seed ground kernels companions n) := by
  refine (hc.compileSeed hseed hg (forall_mem_append.2 ⟨hks, hcs⟩)).run_bind fun t m ht => ?_
  generalize (t.baseline == ground) = isRegular
  generalize ((!(baseline == space) || !isRegular) && isPlainQuotient base) = hasQuotient
  refine (keptRows ht.numbered hks).run_bind fun u i hu => ?_
  refine hu.numbered.rewrap.run_bind fun v m1 hv => ?_
  have hmade := ht.grow (hu.trans hv.1)
  have haxis : (if hasQuotient then base.base?.getD base else base).Formed := hb.ite hb.base_getD
  generalize (if hasQuotient then base.base?.getD base else base) = axis at haxis
  have hl' : (if isRegular then baseline
      else (baseline.ancestors.find? (axis.concludes ·)).getD baseline).Formed := by
    refine Formed.ite ?_ hl
    cases hf : baseline.ancestors.find? (axis.concludes ·) with
    | none => exact hl
    | some a => exact hl.of_mem_ancestors (mem_of_find?_eq_some hf)
  refine (hc.complementTrunk haxis hl').run_bind fun trunk m2 htrunk => ?_
  refine (complementJoints (hs.ite hb) hs.inflate hmade.numbered htrunk).lift_bind fun q hq => ?_
  obtain ⟨gluedUnits, joints⟩ := q
  refine (quotientUnits hb).lift_bind fun groupUnits hgroup => ?_
  refine hg.baseJoints.lift_bind fun js _ => ?_
  refine hseed.exports.lift_bind fun seedUnits _ => ?_
  have hcovering : ∀ u ∈ gluedUnits ++ ((v.routes.units ++ js.map (·.right) ++
      (kernels ++ companions)).map (Code.ofCovered · space.inflate)), u.isProper :=
    forall_mem_append.2 ⟨hq.1, isProper_ofCovered⟩
  have hbase : (if hasQuotient then base.inflate else space.inflate).Bare := by
    split
    · exact hb.bare_inflate
    · exact hs.bare_inflate
  exact hc.joinSeed hmade hv.2 htrunk hs hs.inflate hbase hq.2 (forall_mem_append.2 ⟨hgroup, hcovering⟩)
    (forall_mem_append.2 ⟨isProper_respaced hgroup, isProper_respaced hcovering⟩)

end Complements

section Coverings

variable {seed ground : Space} {codes : List Code} {forkGround : Option Space} {isRegular : Bool}

omit hc in
lemma coveringGlue {trunk : Term} (hf : ∀ g, forkGround = some g → g.Formed)
    (ht : Numbered n t) (htrunk : Numbered m trunk) :
    Ensures (fun js => ∀ j ∈ js, j.Formed) (coveringGlue forkGround t trunk) := by
  unfold Term.coveringGlue
  split
  · exact htrunk.space.glue htrunk.baseline.formed ht.baseline.formed
  · exact htrunk.glueTo ht

lemma coveringTrunk (hs : space.Formed) (hb : base.Formed) (hl : baseline.Formed)
    (hf : ∀ g, forkGround = some g → g.Formed) (ht : Numbered n t) :
    Ensures (fun p => Trunk n p.1.1 p.2 ∧ ∀ j ∈ p.1.2, j.Formed)
      (coveringTrunk c space base baseline forkGround isRegular t n) := by
  have hnil : ∀ j ∈ ([] : List Joint), j.Formed := forall_mem_nil _
  unfold Term.coveringTrunk
  split
  · split
    · exact .run_pure ⟨.none, hnil⟩
    · exact (hc.compile n hb hl).run_bind fun trunk m hm => .run_pure ⟨.some hm, hnil⟩
  · refine (hc.compile n hb (hl.ite hl.base_getD)).run_bind fun trunk m hm => ?_
    exact (coveringGlue hf ht hm.numbered).lift_bind fun js hjs =>
      .run_pure ⟨.some hm, Joint.Formed.covered hjs hs.inflate⟩

lemma compileCovering (hs : space.Formed) (hl : baseline.Formed) (hb : base.Formed)
    (hseed : seed.Formed) (hg : ground.Formed) (hf : ∀ g, forkGround = some g → g.Formed)
    (hcodes : ∀ k ∈ codes, k.Formed) :
    Ensures (Made n) (compileCovering c space baseline base seed ground forkGround codes n) := by
  refine (hc.compileSeed hseed hg hcodes).run_bind fun t m ht => ?_
  refine ht.numbered.rewrap.run_bind fun u m1 hu => ?_
  have hmade := ht.grow hu.1
  refine (hc.coveringTrunk hs hb hl hf hmade.numbered).run_bind fun q m2 hq => ?_
  obtain ⟨trunk, glued⟩ := q
  refine hs.baseJoints.lift_bind fun own hown => ?_
  refine hseed.exports.lift_bind fun seedUnits _ => ?_
  have hjoints : ∀ j ∈ glued ++ own, j.Formed := forall_mem_append.2 ⟨hq.2, hown⟩
  have hunits : ∀ k ∈ u.routes.units.map (Code.ofCovered · space.inflate) ++
      (glued ++ own).map (·.right) ++ codes.map (Code.ofCovered · space.inflate),
      k.isProper := by
    refine forall_mem_append.2 ⟨forall_mem_append.2 ⟨isProper_ofCovered, ?_⟩, isProper_ofCovered⟩
    exact forall_mem_map.2 fun j hj => (hjoints j hj).right.2
  exact hc.joinSeed hmade hu.2 hq.1 hs hs.inflate hs.bare_inflate hjoints hunits
    (isProper_respaced hunits)

end Coverings

lemma compileSpace (hroot : root.Formed) (hs : space.Formed) (hl : baseline.Formed) :
    Ensures (Made n) (compileSpace c root space baseline n) := by
  have hspace := hs
  refine (Ensures.ensure _ rfl).lift_bind fun _ hi => ?_
  refine (Ensures.ensure _ rfl).lift_bind fun _ _ => ?_
  cases hs with
  | root => exact hc.compileScalar hspace hspace hl hi
  | scalar hb => exact hc.compileScalar hspace hb hl hi
  | table hb | fiber hb => exact hc.compileTable hspace hb hl hi rfl
  | quotient _ _ _ _ => exact hc.compileQuotient hspace hl
  | @complement _ base _ hb hcs =>
    dsimp only
    cases hf : base.family with
    | quotient s g ks f =>
      obtain ⟨hseed, hg, hks⟩ := hb.of_family hf
      exact hc.compileComplement hspace hl hb hseed hg hks hcs
    | scalar | table _ => exact .run_throw (Tolerant.rule rfl)
  | moniker hb hseed hcs =>
    exact hc.compileCovering hspace hl hb hseed (hseed.monikerGround _) (fun _ h => nomatch h) hcs
  | forked hb hseed hks hcs =>
    refine hc.compileCovering hspace hl hb hseed hseed.lastAxis (fun g h => ?_)
      (forall_mem_append.2 ⟨hks, hcs⟩)
    exact Option.some.inj h ▸ hseed.lastAxis
  | linked hb hseed _ hr hcs =>
    exact hc.compileCovering hspace hl hb hseed (hseed.groundOf _) (fun _ h => nomatch h)
      (forall_mem_append.2 ⟨forall_mem_map.2 hr, hcs⟩)
  | filtered hb hf => exact hc.compileFiltered hspace hb hl hf
  | ordered hb _ => exact hc.compileOrdered hspace hb hl hroot _ _

section Inject

variable {i : Nat} {shoot : Term} {trunk plural : Space} {unit operand : Code} {codes : List Code}

lemma compileShoot (hs : space.Formed) (hcodes : ∀ k ∈ codes, k.Formed) :
    Ensures (Made n) (compileShoot c space trunk codes n) :=
  (hc.compile n hs (hs.shootBaseline trunk)).run_bind fun _ _ ht =>
    (hc.inject ht.numbered hcodes).imp fun _ hp => ht.grow hp

lemma joinShoot {extra : Routes} (ht : Numbered n t) (hs : Made n (shoot, i))
    (he : extra.Within shoot.shown) :
    Ensures (Extended n t) (joinShoot c t shoot extra i) := by
  have hni : n ≤ i := hs.le
  refine (Ensures.ensure _ rfl).lift_bind fun _ _ => ?_
  refine (ht.glueTo hs.numbered).lift_bind fun js hjs => ?_
  refine (hc.injectJoints (ht.mono hni) hjs).run_bind fun u j hu => ?_
  have hij : i ≤ j := hu.le
  have hd := hu.disjoint (ht.disjoint hs.fresh) hs.numbered.below
  exact (hu.numbered.attach (hs.numbered.mono hij) hd hjs hu.numbered.space
    (hu.numbered.routes.join he)).imp fun p hp => hp.grown_left (hu.weaken hni) hs.fresh

lemma injectSpace (ht : Numbered n t) (hs : space.Formed) :
    Ensures (Extended n t) (injectSpace c t space n) := by
  refine hs.exports.lift_bind fun us _ => ?_
  split
  · exact .run_pure (.refl ht)
  split
  · refine (hc.compile n ht.baseline.formed.base_getD hs).run_bind fun left m hm => ?_
    refine ht.baseline.formed.baseJoints.lift_bind fun js hjs => ?_
    refine (hc.injectJoints hm.numbered hjs).run_bind fun left i hi => ?_
    have hleft := hm.grow hi
    have hr := hleft.numbered.routes.join ht.routes
    have hd : left.tags.Disjoint t.tags := fun _ hx hy => ht.disjoint hleft.fresh hy hx
    exact (hleft.numbered.attach (ht.mono hleft.le) hd hjs ht.space hr).imp fun p hp =>
      hp.grown_right hleft
  · refine run_bind (hc.compileShoot hs (forall_mem_nil _)) fun shoot m hm => ?_
    refine (ensures_copiedRoutes us hm.numbered.routes).run_bind fun extra j he => ?_
    obtain ⟨he, rfl⟩ := he
    exact hc.joinShoot ht hm he

omit hc in
lemma opened (ht : Numbered n t) :
    Ensures (fun p => Extended n t p ∧ p.1.tag ∈ p.1.shown) (opened t n) := by
  unfold Term.opened
  split
  · exact ht.rewrap
  next h =>
    refine .run_pure ⟨.refl ht, ?_⟩
    cases t <;> first | exact mem_cons_self | exact absurd rfl h

variable {us : List Code}

omit hc in
lemma formed_operands (h : ∀ u ∈ us, u.Formed) : ∀ k ∈ us.filterMap (·.operand?), k.Formed := by
  intro k hk
  obtain ⟨u, hu, hk⟩ := mem_filterMap.1 hk
  exact (h u hu).operand hk

lemma injectSingle (ht : Numbered n t) (hu : unit.Formed) (hf : unit.isProper)
    (hs : space.Formed) : Ensures (Extended n t) (injectSingle c t unit space n) := by
  unfold Term.injectSingle
  have hunits : ∀ u ∈ unit :: (unit.companions.map fun k => Code.single k.mark k space []).filter
      (!t.routes.contains ·), u.Formed ∧ u.isProper := by
    refine forall_mem_cons.2 ⟨⟨hu, hf⟩, fun u hm => ?_⟩
    obtain ⟨k, hk, rfl⟩ := mem_map.1 (mem_filter.1 hm).1
    exact ⟨.single (hu.companions k hk) hs (forall_mem_nil _), rfl⟩
  generalize (unit :: (unit.companions.map fun k => Code.single k.mark k space []).filter
      (!t.routes.contains ·)) = units at hunits
  have hcodes := formed_operands fun u hm => (hunits u hm).1
  have hflat : ∀ u ∈ units, u.isProper := fun u hm => (hunits u hm).2
  split
  · refine (hc.inject ht hcodes).run_bind fun kid m hk => ?_
    refine ensures_freshTag_bind (.run_pure (hk.trans ?_))
    have hr := hk.numbered.routes.mono (subset_cons_self m _)
    have hr := hr.setAll mem_cons_self hflat
    exact hk.numbered.grow (.wrapper ⟨hk.numbered.space, hk.numbered.baseline, hr⟩
      hk.numbered.formed hk.numbered.source) rfl rfl (subset_cons_self _ _)
  · refine (hc.compileShoot hs hcodes).run_bind fun shoot m hm => ?_
    refine (opened hm.numbered).run_bind fun shoot i hi => ?_
    exact hc.joinShoot ht (hm.grow hi.1) (within_empty.setAll hi.2 hflat)

def RowsOf (n : Nat) (t : Term) (isNative : Bool) (p : Term × Nat) : Prop :=
  if isNative then p = (t, n) else Made n p

lemma unitRows {isNative : Bool} (hs : space.Formed) :
    Ensures (RowsOf n t isNative) (unitRows c t space isNative n) := by
  cases isNative with
  | true => exact .run_pure rfl
  | false => exact hc.compileShoot hs (forall_mem_nil _)

lemma joinAggregates (ht : Numbered n t) (hus : ∀ u ∈ us, u.Flat)
    (hp : plural.Formed) (hs : space.Formed) :
    Ensures (fun p => Extended n t (p.1.1, p.2) ∧ p.1.2 ∈ p.1.1.shown)
      (joinAggregates c unit us plural space t n) := by
  refine (hc.compileShoot hp (formed_operands fun u hu => (hus u hu).1)).run_bind fun pl m hm => ?_
  have hnm : n ≤ m := hm.le
  refine (ht.glueTo hm.numbered).lift_bind fun js hjs => ?_
  refine (hc.injectJoints (ht.mono hnm) hjs).run_bind fun u i hu => ?_
  have hmi : m ≤ i := hu.le
  have hnil : ∀ k ∈ ([] : List Code), k.Formed := forall_mem_nil _
  have hbare : (Space.quotient unit.mark space.inflate plural [] []).Bare := by
    refine ⟨.quotient hs.inflate hp hnil hnil, ?_⟩
    rw [isInflated_eq rfl, hs.bare_inflate.inflated]
    rfl
  refine (ensures_checked hbare).lift_bind fun projected hq => ?_
  refine ensures_freshTag_bind ?_
  have hjoints := Joint.Formed.kernel hjs hq.formed
  have hproj := (hm.numbered.mono hmi).project hq (forall_mem_map.2 fun j hj => (hjoints j hj).right.2)
    (Joint.Formed.right_of_mem hjs)
  have hd : u.tags.Disjoint (i :: pl.tags) := disjoint_cons_right.2
    ⟨fun hi => Nat.lt_irrefl i (hu.numbered.below i hi),
      hu.disjoint (ht.disjoint hm.fresh) hm.numbered.below⟩
  have hr := hu.numbered.routes.mono (subset_append_left _ [i])
  have hr := hr.setAll (mem_append_right _ (mem_singleton_self i)) fun u hm => (hus u hm).2
  refine ((hu.numbered.mono (Nat.le_succ i)).attach hproj hd hjoints
    hu.numbered.space hr).run_bind fun joined j hj => .run_pure ⟨?_, ?_⟩
  · refine hj.grown_left ((hu.weaken hnm).raise (Nat.le_succ i)) ?_
    exact forall_mem_cons.2 ⟨Nat.le_trans hnm hmi, hm.fresh⟩
  · exact hj.right (mem_singleton_self i)

lemma injectAggregate (ht : Numbered n t) (hu : unit.Formed) (hf : unit.isProper)
    (hp : plural.Formed) (hs : space.Formed) :
    Ensures (Extended n t) (injectAggregate c t unit plural space n) := by
  unfold Term.injectAggregate
  have hunits : ∀ u ∈ unit :: (unit.companions.map fun k =>
      Code.aggregate k.mark k plural space []).filter (!t.routes.contains ·), u.Flat := by
    refine forall_mem_cons.2 ⟨⟨hu, hf⟩, fun u hm => ?_⟩
    obtain ⟨k, hk, rfl⟩ := mem_map.1 (mem_filter.1 hm).1
    exact ⟨.aggregate (hu.companions k hk) hp hs (forall_mem_nil _), rfl⟩
  generalize t.space.ancestors.any (space.dominates ·) = isNative
  refine (hc.unitRows hs).run_bind fun rows m hrows => ?_
  cases isNative with
  | true =>
    obtain ⟨rfl, rfl⟩ := Prod.mk.inj hrows
    exact (hc.joinAggregates ht hunits hp hs).run_bind fun p i hp => .run_pure hp.1
  | false =>
    refine (hc.joinAggregates hrows.numbered hunits hp hs).run_bind fun p i hp => ?_
    exact hc.joinShoot ht (hrows.grow hp.1) (within_empty.setAll hp.2 fun u hm => (hunits u hm).2)

omit hc in
lemma constrained {mark : Mark} {conditions : List Code} (ht : Numbered n t)
    (h : ∀ k ∈ conditions, k.Formed ∧ k.domain = .boolean) :
    Ensures (Extended n t) (constrained mark conditions t n) := by
  unfold Term.constrained
  split
  · exact .run_pure (.refl ht)
  · exact ht.filterBy (formed_conjunction mark h) ht.space ht.routes

lemma embedSubquery (ht : Numbered n t) (hf : unit.isProper) (ho : operand.Formed) (hp : plural.Formed) :
    Ensures (fun p => Extended n t (p.1.1, p.2) ∧ p.1.2 ∈ p.1.1.shown)
      (embedSubquery c unit operand plural t n) := by
  refine (hc.compileShoot hp (forall_mem_singleton.2 ho)).run_bind fun pl m hm => ?_
  have hnm : n ≤ m := hm.le
  refine (ht.glueTo hm.numbered).lift_bind fun js hjs => ?_
  refine (hc.injectJoints (ht.mono hnm) hjs).run_bind fun u i hu => ?_
  have hmi : m ≤ i := hu.le
  refine (constrained (hm.numbered.mono hmi) (forall_mem_map.2 fun j hj => ?_)).run_bind fun pl' j hj => ?_
  · refine ⟨.formula (equality _ _ _) ?_, rfl⟩
    exact forall_mem_cons.2 ⟨.correlation (hjs j hj).left, forall_mem_singleton.2 (hjs j hj).right.1⟩
  have hij : i ≤ j := hj.le
  have hd : u.tags.Disjoint pl.tags := hu.disjoint (ht.disjoint hm.fresh) hm.numbered.below
  have hd := List.disjoint_symm (hj.disjoint (List.disjoint_symm hd) hu.numbered.below)
  have hcs : ∀ k ∈ js.map (·.left), k.Formed := forall_mem_map.2 fun j hj => (hjs j hj).left
  have hnum := (hu.numbered.mono hij).embed hj.numbered hd hcs hf
  refine ensures_freshTag_bind (ensures_freshTag_bind (.run_pure ⟨⟨?_, hnum, ?_, ?_⟩, ?_⟩))
  · show n ≤ j + 1 + 1
    omega
  · have hnj : n ≤ j := Nat.le_trans hnm (Nat.le_trans hmi hij)
    intro tag hx
    rcases mem_cons.1 hx with rfl | hx
    · exact .inr (Nat.le_succ_of_le hnj)
    rcases mem_append.1 hx with hx | hx
    · exact (hu.weaken hnm).fresh tag hx
    rcases mem_cons.1 hx with rfl | hx
    · exact .inr hnj
    · exact .inr ((hm.grow (hj.weaken hmi)).fresh tag hx)
  · exact subset_cons_of_subset _ (subset_cons_of_subset _ hu.shown)
  · exact mem_cons_of_mem _ mem_cons_self

lemma injectCorrelated (ht : Numbered n t) (hf : unit.isProper) (ho : operand.Formed)
    (hp : plural.Formed) (hs : space.Formed) :
    Ensures (Extended n t) (injectCorrelated c t unit operand plural space n) := by
  unfold Term.injectCorrelated
  generalize space.dominates t.space = isNative
  refine (hc.unitRows hs).run_bind fun rows m hrows => ?_
  cases isNative with
  | true =>
    obtain ⟨rfl, rfl⟩ := Prod.mk.inj hrows
    exact (hc.embedSubquery ht hf ho hp).run_bind fun p i hp => .run_pure hp.1
  | false =>
    refine (hc.embedSubquery hrows.numbered hf ho hp).run_bind fun p i hp => ?_
    exact hc.joinShoot ht (hrows.grow hp.1) (within_empty.set hp.2 hf)

lemma injectCovering (ht : Numbered n t) (ho : operand.Formed) (hs : space.Formed) :
    Ensures (Extended n t) (injectCovering c t unit operand space n) := by
  have hspace : (space.withCompanions (space.companions ++ [operand])).Formed :=
    hs.withCompanions (forall_mem_append.2 ⟨hs.companions, forall_mem_singleton.2 ho⟩)
  refine run_bind (hc.compileShoot hspace (forall_mem_nil _)) fun shoot m hm => ?_
  refine (hm.numbered.routes.tag unit).lift_bind fun tag htag => ?_
  refine (hc.joinShoot ht hm (within_empty.set htag.1 htag.2)).run_bind fun u i hu => ?_
  exact (Ensures.ensure _ rfl).lift_bind fun _ _ => .run_pure hu

lemma injectUnit (ht : Numbered n t) (hu : unit.Formed) (hspace : unit.space? = some space) :
    Ensures (Extended n t) (injectUnit c t unit space n) := by
  have hs := hu.space hspace
  unfold Term.injectUnit
  split
  · exact .run_pure (.refl ht)
  split
  · exact .run_throw (Tolerant.query _ _)
  have hunit := hu
  cases hu with
  | single _ _ _ => exact hc.injectSingle ht hunit rfl hs
  | aggregate _ hp _ _ => exact hc.injectAggregate ht hunit rfl hp hs
  | correlated ho hp _ => exact hc.injectCorrelated ht rfl ho hp hs
  | kernel _ _ =>
    refine (hc.injectSpace ht hs).run_bind fun u i hu => ?_
    exact (Ensures.ensure _ rfl).lift_bind fun _ _ => .run_pure hu
  | covering ho _ => exact hc.injectCovering ht ho hs
  | missing _ | literal _ | parameter | cast _ | formula _ _ | correlation _ | column _ =>
    exact hc.injectSpace ht hs

lemma injectCodes (ht : Numbered n t) (hcodes : ∀ k ∈ codes, k.Formed) :
    Ensures (Extended n t) (injectCodes c t codes n) := by
  refine run_foldlM (.refl ht) fun u i hu k hk => ?_
  split
  · exact .run_pure hu
  cases hspace : k.space? with
  | some s =>
    exact (hc.injectUnit hu.numbered (hcodes k hk) hspace).imp fun p hp =>
      hu.trans hp
  | none =>
    refine (hc.inject hu.numbered ?_).imp fun p hp => hu.trans hp
    exact fun v hv => (hcodes k hk).units hv

end Inject

end Compiler.Steady

lemma steady_compilerTo (hroot : root.Formed) (n : Nat) : (compilerTo root n).Steady := by
  induction n with
  | zero => exact ⟨fun _ _ _ => .run_throw Lenient.endless,
      fun _ _ => .run_throw Lenient.endless⟩
  | succ n ih =>
    exact ⟨fun _ hs hb => ih.compileSpace hroot hs hb, fun ht hcodes => ih.injectCodes ht hcodes⟩

/-- The term of a segment: formed rows with distinct tags, below the codes of the segment. -/
structure Complete (codes : List Code) (t : Term) : Prop where
  formed : t.Formed
  nodup : t.tags.Nodup
  segment : ∃ h k, t = .segment h k codes

lemma ensures_sorted {n : Nat} {t : Term} {items : List OrderItem} (ht : Numbered n t)
    (hi : FormedItems items) : Ensures (Extended n t) (sorted t items n) := by
  unfold sorted
  split
  · exact .run_pure (.refl ht)
  · refine ensures_freshTag_bind (.run_pure ?_)
    have hr := ht.routes.mono (subset_cons_self n _)
    exact ht.grow (.order ⟨ht.space, ht.baseline, hr⟩ ht.formed ht.source hi) rfl rfl
      (subset_cons_self _ _)

section Sessions

variable {σ : Session}

/-- A step within a session changes nothing there but the tag that comes next. -/
def Session.Advances {α : Type} (σ : Session) (P : α × Nat → Prop) (p : α × Session) : Prop :=
  ∃ n, p.2 = { σ with next := n } ∧ P (p.1, n)

lemma ensures_inSession {α : Type} {P : α × Nat → Prop} {step : Session → Tagged α}
    (h : Ensures P (step σ σ.next)) : Ensures (σ.Advances P) (inSession step σ) :=
  h.bind fun p hp => .pure ⟨p.2, rfl, hp⟩

lemma Session.ensures_enter (b : Space) :
    Ensures (· = { σ with baseline := b, stack := σ.baseline :: σ.stack }) (σ.enter b) :=
  (Ensures.ensure b.isInflated rfl).bind fun _ _ => .pure rfl

/-- A call puts the baseline of the session aside and takes it again. -/
theorem ensures_compileIn (hroot : σ.root.Formed) {s b : Space} (hs : s.Formed) (hb : b.Formed) :
    Ensures (σ.Advances (Made σ.next)) (compileIn s (some b) σ) := by
  refine run_get_bind ((Session.ensures_enter b).lift_bind ?_)
  rintro _ rfl
  refine run_set_bind ?_
  have hc := (steady_compilerTo hroot greatestDepth).compile σ.next hs hb
  refine (ensures_inSession hc).run_bind ?_
  rintro t _ ⟨n, rfl, ht⟩
  exact .run_pure ⟨n, rfl, ht⟩

lemma ensures_injectIn (hroot : σ.root.Formed) {t : Term} {codes : List Code}
    (ht : Numbered σ.next t) (hcodes : ∀ k ∈ codes, k.Formed) :
    Ensures (σ.Advances (Extended σ.next t)) (injectIn t codes σ) :=
  ensures_inSession ((steady_compilerTo hroot greatestDepth).inject ht hcodes)

/-- A segment becomes a complete term, and the session keeps its baselines. -/
theorem ensures_compileSegment (hroot : σ.root.Formed) {s : Segment} (h : s.Formed) :
    Ensures (σ.Advances fun p => Complete s.codes p.1) (compileSegment s σ) := by
  have hitems : FormedItems (segmentOrder s) := fun i hi =>
    (h.root.arrange true true).append (h.space.arrange true true) i (mem_of_mem_distinctItems hi)
  have hcodes : ∀ k ∈ s.codes ++ (segmentOrder s).map (·.1), k.Formed := by
    exact forall_mem_append.2 ⟨h.codes, forall_mem_map.2 hitems⟩
  refine run_get_bind ((ensures_compileIn hroot h.space hroot).run_bind ?_)
  rintro t _ ⟨n, rfl, ht⟩
  refine (@ensures_injectIn _ { σ with next := n } hroot _ _ ht.numbered hcodes).run_bind ?_
  rintro u _ ⟨m, rfl, hu⟩
  refine (ensures_inSession (ensures_sorted hu.numbered hitems)).run_bind ?_
  rintro v _ ⟨i, rfl, hv⟩
  refine .run_pure ⟨i + 1, rfl, ?_, hv.numbered.fresh_cons.1, _, _, rfl⟩
  have hr := hv.numbered.routes.mono (subset_cons_self i _)
  exact .segment ⟨hv.numbered.space, hv.numbered.baseline, hr⟩ hv.numbered.formed hv.numbered.source
    h.codes

end Sessions

end Term

lemma Segment.Formed.term [Lenient] {s : Segment} (h : s.Formed) :
    Ensures (Term.Complete s.codes) (Term.ofSegment s) :=
  (Term.ensures_compileSegment h.root h).bind fun _ ⟨_, _, hp⟩ => .pure hp

end NavQuery
