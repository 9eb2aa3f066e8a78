import NavQuery.Proofs.Ledgers

/-!
Before the frames of its kids are made, a term claims of them what its clauses and the claims on itself
need. `Frame.Delegated` says what a ledger has then.
-/

namespace NavQuery

open List Term

lemma Code.isCompound_of_operand {u k : Code} (h : u.operand? = some k) : u.isCompound := by
  cases u <;> cases h <;> rfl

namespace Gate

variable {g : Gate} {l l' : Ledger}

lemma withRoutes_eq {r : Routes} (h : g.routes = r) : g.withRoutes r = g := by
  subst h
  rfl

def Demanded (g : Gate) (l : Ledger) (c : Code) : Prop :=
  ∀ u ∈ c.units, ∀ a, g.appoint u = .ok a → l.claims.any (· == a) = true

structure Handled (g : Gate) (l : Ledger) (tag : Nat) (c : Claim) : Prop where
  forwarded : c.target ≠ tag → ∀ a, g.forward c = .ok a → l.claims.any (· == a) = true
  operand : c.target = tag → ∀ k, c.unit.operand? = some k → g.Demanded l k

lemma Demanded.mono {c : Code} (hl : l.claims ⊆ l'.claims) (h : g.Demanded l c) : g.Demanded l' c :=
  fun u hu a ha => Ledger.any_of_subset hl (h u hu a ha)

variable {c : Claim}

lemma Handled.mono {tag : Nat} (hl : l.claims ⊆ l'.claims) (h : g.Handled l tag c) : g.Handled l' tag c :=
  ⟨fun hne a ha => Ledger.any_of_subset hl (h.forwarded hne a ha),
    fun heq k hk => (h.operand heq k hk).mono hl⟩

lemma forward_of_offspring {t : Term} {b : Nat} (hd : g.dispatcher = t)
    (hb : t.offspring? c.target = some b) : g.forward c = .ok { c with broker := b } := by
  rw [forward, hd, hb]
  rfl

end Gate

/-- The claims that a term can be faced with: none of a segment, and just one of a subquery. -/
def Term.Admits (cs : List Claim) : Term → Prop
  | .segment _ _ _ => cs = []
  | .correlation h _ => ∃ c, cs = [c] ∧ c.target = h.tag
  | _ => True

lemma Ledger.Opens.correlation [Discipline] {top t : Term} {l : Ledger} (hw : top.Workable)
    (ht : t ∈ top.subterms) (hc : t.isCorrelation) (ho : l.Opens top t) (hl : l.Sound) :
    Discipline.Tolerates ∨ ∃ c, l.claimsOf t.tag = [c] ∧ c.target = t.tag := by
  refine hw.routed.imp_right fun hr => ?_
  obtain ⟨u, hu, honly⟩ := hr.claimed t ht hc
  have hsame : ∀ c ∈ l.claimsOf t.tag, (c == ⟨u, t.tag, t.tag⟩) := fun c hmem =>
    honly c (ho.demands hmem).2 (ho.demands hmem).1
  have hdistinct : (l.claimsOf t.tag).Pairwise fun a b => (a == b) = false :=
    hl.distinct.sublist filter_sublist
  obtain ⟨d, hd, hdu⟩ := any_eq_true.1 (ho.complete _ hu rfl)
  have hmem : d ∈ l.claimsOf t.tag :=
    mem_filter.2 ⟨hd, beq_iff_eq.2 (Claim.beq_iff.1 hdu).1⟩
  match heq : l.claimsOf t.tag with
  | [] =>
    rw [heq] at hmem
    exact absurd hmem not_mem_nil
  | [c] => exact ⟨c, rfl, (Claim.beq_iff.1 (hsame c (heq ▸ mem_cons_self))).2.1⟩
  | c :: c' :: cs =>
    rw [heq] at hsame
    have hcc' : (c == c') :=
      BEq.trans (hsame c mem_cons_self) (BEq.symm (hsame c' (.tail _ mem_cons_self)))
    rw [heq, pairwise_cons] at hdistinct
    have hne := hdistinct.1 c' mem_cons_self
    exact absurd (hcc'.symm.trans hne) Bool.noConfusion

namespace Frame

variable [Discipline] {top : Term} {x : List Code × Term} {g : Gate} {l : Ledger}

variable {t k : Term} {r : Routes} {l' : Ledger}

lemma ensures_demand {c : Claim} (hc : top.Demands c) (hk : ∃ k ∈ t.kids, c.broker = k.tag) :
    Ensures (fun p => l.Delegates top t p.2 ∧ p.2.claims.any (· == c)) (demand c l) := by
  refine .run_pure ?_
  dsimp only
  split
  next h => exact ⟨.refl top t l, h⟩
  next h =>
    have hnew : ∀ a ∈ l.claims, (a == c) = false := by simpa using h
    refine ⟨⟨rfl, fun hd => ?_, [c], rfl, forall_mem_singleton.2 ⟨hc, hk⟩⟩, ?_⟩
    · refine pairwise_append.2 ⟨hd, pairwise_singleton _ _, fun a ha b hb => ?_⟩
      exact mem_singleton.1 hb ▸ hnew a ha
    · exact any_eq_true.2 ⟨c, mem_append_right _ (mem_singleton_self c), BEq.rfl⟩

lemma ensures_each {α : Type} {f : α → Assembling PUnit} {Q : α → Ledger → Prop} {xs : List α}
    (hmono : ∀ a {l l' : Ledger}, Q a l → l.claims ⊆ l'.claims → Q a l')
    (h : ∀ a ∈ xs, ∀ l : Ledger, Ensures (fun p => l.Delegates top t p.2 ∧ Q a p.2) (f a l)) :
    Ensures (fun p => l.Delegates top t p.2 ∧ ∀ a ∈ xs, Q a p.2) (xs.forM f l) :=
  Ensures.run_forM (Ledger.Delegates.refl top t) Ledger.Delegates.trans
    (fun a _ _ hq hd => hmono a hq hd.subset) h l

lemma ensures_schedule {c : Code} (hr : g.routes = r) (hd : g.dispatcher = x.2) (h : Reads top x r c) :
    Ensures (fun p => l.Delegates top x.2 p.2 ∧ g.Demanded p.2 c) (schedule g c l) := by
  refine ensures_each (Q := fun u l => ∀ a, g.appoint u = .ok a → l.claims.any (· == a))
    (fun u _ _ h hl a ha => Ledger.any_of_subset hl (h a ha)) fun u hu l => ?_
  have happoint := Gate.ensures_appoint hr hd h hu
  cases ha : g.appoint u with
  | error e =>
    rw [ha] at happoint
    exact happoint
  | ok a =>
    rw [ha] at happoint
    obtain ⟨n, b, hn, hb, rfl⟩ := happoint
    obtain ⟨k, hk, rfl, -⟩ := of_offspring hb
    refine (ensures_demand (h.demands u hu hn hb) ⟨k, hk, rfl⟩).imp fun p hp => ⟨hp.1, fun a' ha' => ?_⟩
    exact Except.ok.inj ha' ▸ hp.2

lemma ensures_scheduleAll {cs : List Code} (hr : g.routes = r) (hd : g.dispatcher = x.2)
    (h : ∀ c ∈ cs, Reads top x r c) :
    Ensures (fun p => l.Delegates top x.2 p.2 ∧ ∀ c ∈ cs, g.Demanded p.2 c) (scheduleAll g cs l) :=
  ensures_each (Q := fun c l => g.Demanded l c) (fun _ _ _ h hl => h.mono hl)
    fun c hc _ => ensures_schedule hr hd (h c hc)

structure Delegated (top : Term) (g : Gate) (t : Term) (l l' : Ledger) : Prop where
  delegates : l.Delegates top t l'
  clauses : ∀ y ∈ t.clauses, (g.withRoutes y.1).Demanded l' y.2
  claims : ∀ c ∈ l.claimsOf t.tag, (g.withRoutes t.inner).Handled l' t.tag c
  admits : t.Admits (l.claimsOf t.tag)

section Terms

variable (hw : top.Workable) (hx : x ∈ top.places []) (hd : g.dispatcher = x.2)
include hw hx hd

lemma ensures_delegateClaim (hr : g.routes = x.2.inner) (htable : x.2.isTable = false) {c : Claim}
    (hc : top.Demands c) (hb : c.broker = x.2.tag) :
    Ensures (fun p => l.Delegates top x.2 p.2 ∧ g.Handled p.2 x.2.tag c)
      (delegateClaim g x.2.tag c l) := by
  unfold delegateClaim
  split
  next hne =>
    obtain ⟨b, hoff, hdemands⟩ := hw.exists_forward hx hc hb hne
    obtain ⟨k, hk, rfl, -⟩ := of_offspring hoff
    rw [Gate.forward_of_offspring hd hoff]
    refine (ensures_demand hdemands ⟨k, hk, rfl⟩).imp fun p hp => ⟨hp.1, fun _ a ha => ?_, fun heq => ?_⟩
    · rw [Gate.forward_of_offspring hd hoff] at ha
      exact Except.ok.inj ha ▸ hp.2
    · exact absurd heq hne
  next heq =>
    have htarget := Decidable.of_not_not heq
    refine (Ensures.ensure_of fun hcompound => ?_).lift_bind fun _ _ => ?_
    · rcases hw.operand hx htable hc htarget with htolerates | ⟨-, hoperand⟩
      · exact htolerates rfl
      · obtain ⟨k, hk, -⟩ := (Option.any_eq_true _ _).1 hoperand
        exact absurd (hcompound.symm.trans (Code.isCompound_of_operand hk)) Bool.false_ne_true
    cases ho : c.unit.operand? with
    | none =>
      refine .run_pure ⟨.refl top x.2 l, fun hne => absurd hne heq, fun _ k hk => ?_⟩
      cases ho.symm.trans hk
    | some k =>
      refine (ensures_schedule hr hd (hw.reads_operand hx htable hc hb htarget ho)).imp fun p hp =>
        ⟨hp.1, fun hne => absurd hne heq, fun _ k' hk' => ?_⟩
      exact Option.some.inj (ho.symm.trans hk') ▸ hp.2

lemma ensures_delegateClaims (hr : g.routes = x.2.inner) (htable : x.2.isTable = false)
    (ho : l.Opens top x.2) :
    Ensures (fun p => l.Delegates top x.2 p.2 ∧ ∀ c ∈ l.claimsOf x.2.tag, g.Handled p.2 x.2.tag c)
      ((l.claimsOf x.2.tag).forM (delegateClaim g x.2.tag) l) :=
  ensures_each (Q := fun c l => g.Handled l x.2.tag c) (fun _ _ _ h hl => h.mono hl)
    fun _ hc _ => ensures_delegateClaim hw hx hd hr htable (ho.demands hc).2 (ho.demands hc).1

lemma ensures_delegateClauses (hs : x.2.isSource) (hp : ∀ h k ks, x.2 ≠ .projection h k ks) :
    Ensures (fun p => l.Delegates top x.2 p.2 ∧ ∀ y ∈ x.2.clauses, (g.withRoutes y.1).Demanded p.2 y.2)
      (delegateClauses g x.2 l) := by
  obtain ⟨given, t⟩ := x
  have hreads : ∀ y ∈ t.clauses, Reads top (given, t) y.1 y.2 := fun y hy => hw.reads_clause hx hy
  have hnone : Ensures (fun p => l.Delegates top t p.2 ∧
      ∀ y ∈ ([] : List (Routes × Code)), (g.withRoutes y.1).Demanded p.2 y.2)
      ((pure () : Assembling Unit) l) :=
    .run_pure ⟨.refl top t l, nofun⟩
  cases t with
  | scalar | table | wrapper | permanent => exact hnone
  | correlation | segment => cases hs
  | projection h k ks => exact absurd rfl (hp h k ks)
  | filter h k c =>
    have hc : Reads top (given, .filter h k c) k.routes c :=
      hreads (k.routes, c) mem_cons_self
    refine (ensures_schedule (g := g.routedBy k) rfl hd hc).imp fun p hp => ?_
    exact ⟨hp.1, forall_mem_singleton.2 hp.2⟩
  | order h k is lim off =>
    have hi : ∀ i ∈ is, Reads top (given, .order h k is lim off) k.routes i.1 :=
      fun i hi => hreads (k.routes, i.1) (mem_map.2 ⟨i, hi, rfl⟩)
    refine (ensures_scheduleAll (g := g.routedBy k) rfl hd (forall_mem_map.2 hi)).imp fun p hp =>
      ⟨hp.1, forall_mem_map.2 fun i hmem => ?_⟩
    exact hp.2 i.1 (mem_map_of_mem hmem)
  | embedding h lt r cs =>
    have hc : ∀ c ∈ cs, Reads top (given, .embedding h lt r cs) lt.routes c :=
      fun c hc => hreads (lt.routes, c) (mem_map.2 ⟨c, hc, rfl⟩)
    refine (ensures_scheduleAll (g := g.routedBy lt) rfl hd hc).imp fun p hp => ?_
    exact ⟨hp.1, forall_mem_map.2 hp.2⟩
  | join h lt r js o =>
    have hleft (j : Joint) (hj : j ∈ js) : Reads top (given, .join h lt r js o) lt.routes j.left :=
      hreads (lt.routes, j.left) (mem_flatMap.2 ⟨j, hj, mem_cons_self⟩)
    have hright (j : Joint) (hj : j ∈ js) : Reads top (given, .join h lt r js o) r.routes j.right :=
      hreads (r.routes, j.right) (mem_flatMap.2 ⟨j, hj, .tail _ mem_cons_self⟩)
    refine (ensures_each (Q := fun (j : Joint) l => (g.routedBy lt).Demanded l j.left ∧
      (g.routedBy r).Demanded l j.right) (fun _ _ _ h hl => ⟨h.1.mono hl, h.2.mono hl⟩)
      fun j hmem l => ?_).imp fun p hp => ⟨hp.1, fun y hy => ?_⟩
    · refine (ensures_schedule (g := g.routedBy lt) rfl hd (hleft j hmem)).run_bind fun _ m hm => ?_
      refine (ensures_schedule (g := g.routedBy r) rfl hd (hright j hmem)).imp fun p hp => ?_
      exact ⟨hm.1.trans hp.1, hm.2.mono hp.1.subset, hp.2⟩
    · obtain ⟨j, hmem, hy⟩ := mem_flatMap.1 hy
      rcases mem_cons.1 hy with rfl | hy
      · exact (hp.2 j hmem).1
      · exact mem_singleton.1 hy ▸ (hp.2 j hmem).2

variable (hr : g.routes = x.2.routes) (ho : l.Opens top x.2)
include hr ho

/-- Terms that produce rows, groups apart, claim by their own routes. -/
theorem ensures_delegate_source (hs : x.2.isSource) (htable : x.2.isTable = false)
    (hp : ∀ h k ks, x.2 ≠ .projection h k ks) :
    Ensures (fun p => Delegated top g x.2 l p.2) ((do
      (l.claimsOf x.2.tag).forM (delegateClaim g x.2.tag)
      delegateClauses g x.2 : Assembling Unit) l) := by
  have hinner : x.2.inner = x.2.routes := by
    generalize x.2 = t at hp
    cases t <;> first | rfl | exact absurd rfl (hp _ _ _)
  have hadmits : x.2.Admits (l.claimsOf x.2.tag) := by
    generalize x.2 = t at hs
    cases t <;> trivial
  refine (ensures_delegateClaims hw hx hd (hr.trans hinner.symm) htable ho).run_bind fun _ m hm => ?_
  refine (ensures_delegateClauses hw hx hd hs hp).imp fun p hp => ⟨hm.1.trans hp.1, hp.2, fun c hc => ?_,
    hadmits⟩
  rw [Gate.withRoutes_eq (hr.trans hinner.symm)]
  exact (hm.2 c hc).mono hp.1.subset

lemma ensures_delegate_correlation (hc : x.2.isCorrelation) (hl : l.Sound) :
    Ensures (fun p => Delegated top g x.2 l p.2) (delegate g x.2 l) := by
  obtain ⟨given, t⟩ := x
  cases t with
  | correlation h k =>
    have hone := Ledger.Opens.correlation hw (mem_subterms_of_place hx) hc ho hl
    refine Ensures.run_bind (R := fun q => q = (l, l)) rfl fun m n hm => ?_
    cases hm
    dsimp only [Term.tag, Term.head]
    rcases heq : l.claimsOf h.tag with _ | ⟨c, _ | _⟩
    case nil | cons.cons =>
      rcases hone with htolerates | ⟨c, hc, -⟩
      · exact .run_throw (htolerates rfl)
      · cases heq.symm.trans hc
    case cons.nil =>
      have hdemands := ho.demands (heq.symm ▸ mem_cons_self)
      refine (Ensures.ensure_of fun hfalse => ?_).lift_bind fun _ htarget => ?_
      · rcases hone with htolerates | ⟨c', hc', htarget⟩
        · exact htolerates rfl
        · obtain rfl := (List.cons.inj (heq.symm.trans hc')).1
          exact absurd (hfalse.symm.trans (beq_iff_eq.2 htarget)) Bool.false_ne_true
      have htarget : c.target = h.tag := beq_iff_eq.1 htarget
      have hwhole (m : Ledger) (hm : l.Delegates top (.correlation h k) m)
          (hop : ∀ k, c.unit.operand? = some k → g.Demanded m k) :
          Delegated top g (.correlation h k) l m := by
        refine ⟨hm, forall_mem_nil _, fun d hd => ?_, c, heq, htarget⟩
        obtain rfl : d = c := mem_singleton.1 (heq ▸ hd)
        rw [Gate.withRoutes_eq (show g.routes = (Term.correlation h k).inner from hr)]
        exact ⟨fun hne => absurd htarget hne, fun _ => hop⟩
      cases hop : c.unit.operand? with
      | none =>
        refine .run_pure (hwhole l (.refl _ _ l) fun k hk => ?_)
        cases hop.symm.trans hk
      | some op =>
        refine (ensures_schedule hr hd (hw.reads_operand hx rfl hdemands.2 hdemands.1 htarget hop)).imp
          fun p hp => hwhole p.2 hp.1 fun k hk => ?_
        exact Option.some.inj (hop.symm.trans hk) ▸ hp.2
  | _ => cases hc

lemma ensures_delegate (htable : x.2.isTable = false) (hl : l.Sound)
    (hseg : x.2.isSegment → l.claimsOf x.2.tag = []) :
    Ensures (fun p => Delegated top g x.2 l p.2) (delegate g x.2 l) := by
  have hsource := ensures_delegate_source hw hx hd hr ho
  have hcorrelation := ensures_delegate_correlation hw hx hd hr ho
  have hclaims (g' : Gate) (hd' : g'.dispatcher = x.2) (hr' : g'.routes = x.2.inner) :=
    ensures_delegateClaims (l := l) hw hx hd' hr' htable ho
  have hreads : ∀ y ∈ x.2.clauses, Reads top x y.1 y.2 := fun y hy => hw.reads_clause hx hy
  obtain ⟨given, t⟩ := x
  cases t with
  | table => cases htable
  | scalar | filter | join | embedding | order | wrapper | permanent =>
    exact hsource rfl rfl fun _ _ _ => nofun
  | correlation h k => exact hcorrelation rfl hl
  | segment h k cs =>
    have hnil : l.claimsOf h.tag = [] := hseg rfl
    show Ensures _ ((do
      ensure (l.claimsOf h.tag).isEmpty .segmentClaims
      scheduleAll g cs : Assembling Unit) l)
    rw [hnil]
    have hcs : ∀ c ∈ cs, Reads top (given, .segment h k cs) h.routes c :=
      fun c hc => hreads (h.routes, c) (mem_map.2 ⟨c, hc, rfl⟩)
    refine (ensures_scheduleAll hr hd hcs).imp fun p hp => ?_
    refine ⟨hp.1, forall_mem_map.2 fun c hc => ?_, fun c hc => absurd (hnil ▸ hc) not_mem_nil, hnil⟩
    rw [Gate.withRoutes_eq (show g.routes = h.routes from hr)]
    exact hp.2 c hc
  | projection h k ks =>
    show Ensures _ ((do
      (l.claimsOf h.tag).forM (delegateClaim (g.routedBy k) h.tag)
      scheduleAll (g.routedBy k) ks : Assembling Unit) l)
    refine (hclaims (g.routedBy k) hd rfl).run_bind fun _ m hm => ?_
    have hks : ∀ c ∈ ks, Reads top (given, .projection h k ks) k.routes c :=
      fun c hc => hreads (k.routes, c) (mem_map.2 ⟨c, hc, rfl⟩)
    refine (ensures_scheduleAll (g := g.routedBy k) rfl hd hks).imp fun p hp => ?_
    exact ⟨hm.1.trans hp.1, forall_mem_map.2 hp.2, fun c hc => (hm.2 c hc).mono hp.1.subset, trivial⟩

end Terms

/-- All that the tree demands of a kid has been claimed of it. -/
theorem Delegated.complete (hw : top.Workable) (hx : x ∈ top.places [])
    (hd : g.dispatcher = x.2) (ho : l.Opens top x.2) (h : Delegated top g x.2 l l')
    (hk : k ∈ x.2.kids) (c : Claim) (hc : top.Demands c) (hb : c.broker = k.tag) :
    l'.claims.any (· == c) := by
  have hparent {t : Term} {n b : Nat} (ht : t ∈ top.subterms) (hoff : t.offspring? n = some b)
      (hb : b = k.tag) : t = x.2 := by
    obtain ⟨k', hk', rfl, -⟩ := of_offspring hoff
    exact parent_unique hw.nodup ht (mem_subterms_of_place hx) hk' hk hb
  have hclaimed {c : Claim} (hc : top.Demands c) (hb : c.broker = x.2.tag) :
      ∃ d ∈ l.claimsOf x.2.tag, (d == c) := by
    obtain ⟨d, hd, hdc⟩ := any_eq_true.1 (ho.complete c hc hb)
    have hbroker : d.broker = x.2.tag := (Claim.beq_iff.1 hdc).1.trans hb
    exact ⟨d, mem_filter.2 ⟨hd, beq_iff_eq.2 hbroker⟩, hdc⟩
  cases hc with
  | @clause t y u n b ht hy hu hn hoff =>
    obtain rfl := hparent ht hoff hb
    exact h.clauses y hy u hu _ (Gate.appoint_of_routes rfl hd hn hoff)
  | @operand t c op u n b hc ht hbroker htarget hop hu hn hoff =>
    obtain rfl := hparent ht hoff hb
    obtain ⟨d, hdmem, hdc⟩ := hclaimed hc hbroker
    obtain ⟨-, hdtarget, hdunit⟩ := Claim.beq_iff.1 hdc
    obtain ⟨op', hop', hopeq⟩ := Code.operand?_of_beq (BEq.symm hdunit) hop
    obtain ⟨v, hv, hvu⟩ := Code.units_of_beq hopeq hu
    have happoint : (g.withRoutes x.2.inner).appoint v = .ok ⟨v, b, n⟩ :=
      Gate.appoint_of_routes rfl hd ((Routes.find?_of_beq _ hvu).trans hn) hoff
    have hany := (h.claims d hdmem).operand (hdtarget.trans htarget) op' hop' v hv _ happoint
    obtain ⟨e, he, hev⟩ := any_eq_true.1 hany
    exact any_eq_true.2 ⟨e, he, BEq.trans hev (Claim.beq_iff.2 ⟨rfl, rfl, hvu⟩)⟩
  | @forward t c b hc ht hbroker htarget hoff =>
    obtain rfl := hparent ht hoff hb
    obtain ⟨d, hdmem, hdc⟩ := hclaimed hc hbroker
    obtain ⟨-, hdtarget, hdunit⟩ := Claim.beq_iff.1 hdc
    have hforward : (g.withRoutes x.2.inner).forward d = .ok { d with broker := b } :=
      Gate.forward_of_offspring hd (hdtarget ▸ hoff)
    have hany := (h.claims d hdmem).forwarded (hdtarget ▸ htarget) _ hforward
    obtain ⟨e, he, hev⟩ := any_eq_true.1 hany
    exact any_eq_true.2 ⟨e, he, BEq.trans hev (Claim.beq_iff.2 ⟨rfl, hdtarget, hdunit⟩)⟩

lemma Delegated.opens (hw : top.Workable) (hx : x ∈ top.places [])
    (hd : g.dispatcher = x.2) (ho : l.Opens top x.2) (h : Delegated top g x.2 l l')
    (hk : k ∈ x.2.kids) : l'.Opens top k :=
  h.delegates.opens (nodup_subterm hw.nodup (mem_subterms_of_place hx)) ho hk (h.complete hw hx hd ho hk)

end Frame

end NavQuery
