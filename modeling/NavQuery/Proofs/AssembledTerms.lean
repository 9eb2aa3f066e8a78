import NavQuery.Proofs.Assembly

/-!
`Frame.Assembles` says what the frame of a term is like: its phrases are grounded in what they see, and
everything that was claimed in the tree is supplied.
-/

namespace NavQuery

open List Phrase Term

namespace Frame

variable [Discipline] {top : Term} {x : List Code × Term} {g : Gate} {l : Ledger} {O : List Offer}

structure Assembles (top : Term) (O : List Offer) (t : Term) (l : Ledger) (q : Frame × Ledger) : Prop where
  tags : q.1.tags = t.tags.map Int.ofNat
  segment : q.1.isSegment = t.isSegment
  inScope : q.1.Scoped (fun O p => p.Grounded O) O
  sound : q.2.Sound
  grows : l.Grows t.tags q.2
  complete : q.2.Complete top t.tags
  settled : q.2.Settled t.tags
  answers : q.2.Answers [t.tag] (q.1.offer t.isCorrelation)
  outputs : ∀ c anchors embedded, q.1 = .query c anchors embedded → Outputs c t
  boolean : top.BooleanFilters → q.1.BooleanConditions

variable {t : Term}

lemma Assembles.answers_source {q : Frame × Ledger} (h : Assembles top O t l q)
    (hs : t.isSource) : q.2.Answers [t.tag] (q.1.offer false) :=
  isCorrelation_of_isSource hs ▸ h.answers

lemma Assembles.isSegment_source {q : Frame × Ledger} (h : Assembles top O t l q)
    (hs : t.isSource) : q.1.isSegment = false :=
  h.segment.trans (isSegment_of_isSource hs)

structure KidsMade (top : Term) (O : List Offer) (t : Term) (l : Ledger)
    (q : (List (Anchor Frame) × List Frame) × Ledger) : Prop where
  tags : anchorTags q.1.1 ++ allTags q.1.2 = (t.kids.flatMap Term.tags).map Int.ofNat
  sources : ∀ a ∈ q.1.1, a.frame.isSegment = false
  anchors : ∀ a ∈ q.1.1, a.frame.Scoped (fun O p => p.Grounded O) O
  conditions : ∀ before a after, q.1.1 = before ++ a :: after → ∀ p ∈ a.condition,
    p.Grounded (anchorOffer (before ++ [a]) ++ answersOf q.1.2 ++ O)
  embedded : ∀ f ∈ q.1.2, f.Scoped (fun O p => p.Grounded O) (anchorOffer q.1.1 ++ O)
  sound : q.2.Sound
  grows : l.Grows (t.kids.flatMap Term.tags) q.2
  complete : q.2.Complete top (t.kids.flatMap Term.tags)
  settled : q.2.Settled (t.kids.flatMap Term.tags)
  answers : q.2.Answers (t.kids.map Term.tag) (anchorOffer q.1.1 ++ answersOf q.1.2)
  boolean : top.BooleanFilters → (∀ a ∈ q.1.1, a.frame.BooleanConditions) ∧
    (∀ a ∈ q.1.1, ∀ p ∈ a.condition, p.domain = .boolean) ∧ ∀ f ∈ q.1.2, f.BooleanConditions

omit [Discipline] in
lemma tags_subset_flatMap (t : Term) : t.kids.map Term.tag ⊆ t.kids.flatMap Term.tags := by
  intro n hn
  obtain ⟨k, hk, rfl⟩ := mem_map.1 hn
  exact mem_flatMap.2 ⟨k, hk, Term.tag_mem_tags k⟩

lemma Supplies.settled {m m' : Ledger} (h : Supplies O (m.claimsOf t.tag) m m')
    (hm : l.Grows (t.kids.flatMap Term.tags) m) (hsettled : m.Settled (t.kids.flatMap Term.tags))
    (hfresh : ∀ e ∈ m.phrases, e.1.broker ≠ t.tag) :
    l.Grows t.tags m' ∧ m'.Settled t.tags ∧ m'.Answers [t.tag] O := by
  obtain ⟨new, hnew, hclaims, hall⟩ := h.phrases
  have hbroker : ∀ e ∈ new, e.1.broker = t.tag := fun e he => by
    have hmem : e.1 ∈ m.claimsOf t.tag := hclaims ▸ mem_map_of_mem he
    exact beq_iff_eq.1 (mem_filter.1 hmem).2
  have hsubset : t.kids.flatMap Term.tags ⊆ t.tags := by
    rw [tags_eq]
    exact subset_cons_self _ _
  refine ⟨(hm.mono hsubset).trans ⟨⟨[], ?_, forall_mem_nil _⟩, ⟨new, hnew, fun e he => ?_⟩⟩,
    fun d hd hb => ?_, fun e he hb => ?_⟩
  · exact h.claims.trans (append_nil _).symm
  · exact hbroker e he ▸ Term.tag_mem_tags t
  · have hd : d ∈ m.claims := h.claims ▸ hd
    rw [hnew]
    rw [tags_eq] at hb
    rcases mem_cons.1 hb with hb | hb
    · have hmem : d ∈ new.map (·.1) := hclaims ▸ mem_filter.2 ⟨hd, beq_iff_eq.2 hb⟩
      obtain ⟨e, he, rfl⟩ := mem_map.1 hmem
      exact ⟨e, mem_append_right _ he, rfl⟩
    · obtain ⟨e, he, rfl⟩ := hsettled d hd hb
      exact ⟨e, mem_append_left _ he, rfl⟩
  · rw [hnew] at he
    exact hall e ((mem_append.1 he).resolve_left fun he => hfresh e he (mem_singleton.1 hb))

section Branches

variable {m : Ledger} {anchors : Assembling (List (Anchor Frame))} {embedded : Assembling (List Frame)}

omit [Discipline] in
lemma branch_eq (g : Gate) (t : Term) (anchors : Assembling (List (Anchor Frame)))
    (embedded : Assembling (List Frame)) :
    branch g t anchors embedded = (do
      delegate g t
      let q ← (do return (← anchors, ← embedded) : Assembling (List (Anchor Frame) × List Frame))
      return .query (← clausesOf g t) q.1 q.2) := by
  simp [branch]

variable (hw : top.Workable) (hx : x ∈ top.places []) (hg : g.At O x) (htable : x.2.isTable = false)
  (ho : l.Opens top x.2)
include hw hx hg htable ho

lemma Delegated.furnished {q : (List (Anchor Frame) × List Frame) × Ledger}
    (h : Delegated top g x.2 l m) (hk : KidsMade top O x.2 m q) :
    Furnished top g x.2 (anchorOffer q.1.1 ++ answersOf q.1.2 ++ O) q.2 := by
  have hself : x.2.tag ∉ x.2.kids.flatMap Term.tags := fun hm => by
    obtain ⟨k, hk, hm⟩ := mem_flatMap.1 hm
    exact tag_not_mem_kid (nodup_subterm hw.nodup (mem_subterms_of_place hx)) hk hm
  have hgrows : l.Grows (x.2.kids.flatMap Term.tags) q.2 :=
    (h.delegates.grows.mono (tags_subset_flatMap x.2)).trans hk.grows
  have hclaims := hgrows.claimsOf_eq hself
  have hsettled := hk.settled.mono (tags_subset_flatMap x.2)
  have hanswers : q.2.Answers (x.2.kids.map Term.tag) (anchorOffer q.1.1 ++ answersOf q.1.2 ++ O) :=
    hk.answers.mono (subset_append_left _ _)
  refine ⟨hk.sound, fun y hy => ?_, fun c hc => ?_, fun e he heq => ?_, hclaims ▸ h.admits⟩
  · exact ((h.clauses y hy).mono hk.grows.claims_subset).ready rfl hg.dispatcher (hw.reads_clause hx hy)
      hsettled hanswers fun _ _ _ _ _ hoff => offspring_mem hoff
  · rw [hclaims] at hc
    obtain ⟨hb, hdemands⟩ := ho.demands hc
    exact ⟨⟨hdemands, hb⟩, ((h.claims c hc).mono hk.grows.claims_subset).answers hw hx rfl hg.dispatcher
      htable hdemands hb hsettled hanswers⟩
  · have hold := hgrows.mem_phrases he fun hb => hself (heq ▸ hb)
    exact ho.phrases e hold (heq ▸ Term.tag_mem_tags x.2)

lemma ensures_branch (hr : g.routes = x.2.routes) (hl : l.Sound)
    (hseg : x.2.isSegment → l.claimsOf x.2.tag = [])
    (hkids : ∀ m, Delegated top g x.2 l m → Ensures (KidsMade top O x.2 m)
      ((do return (← anchors, ← embedded) : Assembling (List (Anchor Frame) × List Frame)) m)) :
    Ensures (Assembles top O x.2 l) (branch g x.2 anchors embedded l) := by
  rw [branch_eq]
  refine (ensures_delegate hw hx hg.dispatcher hr ho htable hl hseg).run_bind fun _ m hm => ?_
  refine (hkids m hm).run_bind fun q m' hq => ?_
  have hfurnished := hm.furnished hw hx hg htable ho hq
  have hg' : g.At (anchorOffer q.1 ++ answersOf q.2 ++ O) x := hg.mono (subset_append_right _ _)
  refine (ensures_clausesOf hw hx hg' hr hfurnished htable).run_bind fun c m'' hc => .run_pure ?_
  have hgrows := (hm.delegates.grows.mono (tags_subset_flatMap x.2)).trans hq.grows
  obtain ⟨hgrows, hsettled, hanswers⟩ := hc.supplies.settled hgrows hq.settled hfurnished.fresh
  refine ⟨?_, hc.role, ?_, hc.supplies.sound, hgrows, ?_, hsettled, hanswers, ?_, fun hfilters => ?_⟩
  · show c.tag :: (anchorTags q.1 ++ allTags q.2) = _
    rw [tags_eq, hq.tags, hc.tag]
    rfl
  · exact .query hc.select hq.sources hq.anchors hq.conditions hq.embedded hc.phrases
  · rw [tags_eq]
    have hkids : m''.Complete top (x.2.kids.flatMap Term.tags) :=
      hq.complete.mono fun d hd => hc.supplies.claims ▸ hd
    exact (ho.complete_self.mono hgrows.claims_subset).append hkids
  · rintro _ _ _ ⟨⟩
    exact hc.outputs
  · obtain ⟨ha, hp, he⟩ := hq.boolean hfilters
    exact .query (hc.boolean (hfilters x.2 (mem_subterms_of_place hx))) ha hp he

end Branches

section Leaves

lemma ensures_scalar {h : Head} (hw : top.Workable) (hmem : .scalar h ∈ top.subterms) (hl : l.Sound)
    (ho : l.Opens top (.scalar h)) :
    Ensures (Assembles top O (.scalar h) l) (assemble (.scalar h) g l) := by
  have hnone : ∀ c ∈ l.claims, c.broker ≠ h.tag := fun c hc hb =>
    hw.scalars h hmem c (ho.claims c hc (mem_singleton.2 hb)).2 hb
  have hclaims : l.claimsOf h.tag = [] :=
    filter_eq_nil_iff.2 fun c hc hb => hnone c hc (beq_iff_eq.1 hb)
  show Ensures _ ((do
    ensure (l.claimsOf h.tag).isEmpty .scalarExports
    return .scalar h.tag : Assembling Frame) l)
  rw [hclaims]
  refine .run_pure ⟨rfl, rfl, .scalar, hl, .refl _ l, ho.complete_self, fun c hc hb => ?_,
    fun e he hb => ?_, nofun, fun _ => .scalar⟩
  · exact absurd (mem_singleton.1 hb) (hnone c hc)
  · exact absurd hb (ho.phrases e he)

variable {given : List Code} {head : Head}

lemma ensures_exportColumn {t : Table} {c : Claim}
    (hw : top.Workable) (hx : (given, .table head) ∈ top.places [])
    (ht : head.space.family.table? = some t) (hdemands : top.Demands c) (hb : c.broker = head.tag)
    (hc : c ∈ l.claims) (hfresh : ∀ e ∈ l.phrases, (e.1 == c) = false) :
    Ensures (fun q => ∃ n column, column.domain = c.unit.domain ∧
        q.2 = { l with phrases := l.phrases ++ [(c, .column n head.tag column)] })
      (exportColumn g head.tag t c l) := by
  have htarget : c.target = head.tag := by
    obtain ⟨s, hs, htag, hmem⟩ := hdemands.target_mem
    obtain rfl := eq_of_tag_eq hw.nodup hs (mem_subterms_of_place hx) (htag.trans hb)
    exact mem_singleton.1 hmem
  have hcomputes := hw.computes hx hdemands htarget
  have hproper := (hw.units c hdemands).1
  unfold exportColumn
  rw [htarget, BEq.rfl]
  cases hu : c.unit with
  | column m d column s =>
    rw [hu] at hcomputes hproper
    refine (Ensures.ensure_of fun hfalse => ?_).lift_bind fun _ _ => ?_
    · rcases hcomputes with htolerates | ⟨-, hcomputes⟩
      · exact htolerates rfl
      · simp only [Term.computes, ht, Option.any_some, Bool.and_eq_true] at hcomputes
        exact absurd (hfalse.symm.trans hcomputes.2) Bool.false_ne_true
    · refine (ensures_supply hc hfresh).imp fun q hq => ⟨_, column, ?_, hq⟩
      exact (of_decide_eq_true hproper).symm
  | _ =>
    rcases hcomputes with htolerates | ⟨-, hcomputes⟩
    · exact .run_throw (htolerates rfl)
    · rw [hu] at hcomputes
      cases hcomputes

lemma ensures_exportColumns {t : Table} {cs : List Claim}
    (hw : top.Workable) (hx : (given, .table head) ∈ top.places [])
    (ht : head.space.family.table? = some t) (hl : l.Sound) (hpending : Pending l cs)
    (hcs : ∀ c ∈ cs, c.broker = head.tag ∧ top.Demands c) :
    Ensures (fun q => Supplies [.columns head.tag] cs l q.2) (cs.forM (exportColumn g head.tag t) l) := by
  induction cs generalizing l with
  | nil => exact .run_pure (supplies_nil hl)
  | cons c cs ih =>
    rw [forall_mem_cons] at hcs
    have hmem := hpending.claims c mem_cons_self
    have hfresh := hpending.fresh c mem_cons_self
    refine (ensures_exportColumn hw hx ht hcs.1.2 hcs.1.1 hmem hfresh).run_bind fun _ m hm => ?_
    obtain ⟨n, column, hdomain, rfl⟩ := hm
    refine (ih (sound_supply hl hmem hfresh) hpending.tail hcs.2).imp fun q hq => hq.cons ⟨?_, hdomain⟩
    exact .column mem_cons_self

lemma ensures_table (hw : top.Workable)
    (hx : (given, .table head) ∈ top.places []) (hl : l.Sound) (ho : l.Opens top (.table head)) :
    Ensures (Assembles top O (.table head) l) (assemble (.table head) g l) := by
  obtain ⟨t, ht⟩ := Option.isSome_iff_exists.1 (hw.fitted _ (mem_subterms_of_place hx))
  rw [assemble, ht]
  show Ensures _ ((do
    (l.claimsOf head.tag).forM (exportColumn g head.tag t)
    return .table head.tag t : Assembling Frame) l)
  have hdemands : ∀ c ∈ l.claimsOf head.tag, c.broker = head.tag ∧ top.Demands c := fun c hc => ho.demands hc
  have hfresh : ∀ e ∈ l.phrases, e.1.broker ≠ head.tag := fun e he heq =>
    ho.phrases e he (mem_singleton.2 heq)
  have hpending : Pending l (l.claimsOf head.tag) := by
    refine ⟨fun c hc => (mem_filter.1 hc).1, hl.distinct.sublist filter_sublist, fun c hc e he => ?_⟩
    exact Bool.eq_false_iff.2 fun hbeq => hfresh e he ((Claim.beq_iff.1 hbeq).1.trans (hdemands c hc).1)
  refine (ensures_exportColumns hw hx ht hl hpending hdemands).run_bind fun _ m hm => .run_pure ?_
  have hkids : l.Settled ((Term.table head).kids.flatMap Term.tags) := fun c _ hb =>
    absurd hb not_mem_nil
  obtain ⟨hgrows, hsettled, hanswers⟩ := hm.settled (t := .table head) (.refl _ l) hkids hfresh
  exact ⟨rfl, rfl, .table, hm.sound, hgrows, ho.complete_self.mono hgrows.claims_subset, hsettled, hanswers,
    nofun, fun _ => .table⟩

end Leaves

section Kids

variable {t k left right : Term} {f f' : Frame} {m m₁ m₂ : Ledger} {O' : List Offer}

omit [Discipline] in
lemma condition_of_plain {before after : List (Anchor Frame)} {a : Anchor Frame}
    (h : [Anchor.plain f] = before ++ a :: after) : a.condition = none := by
  obtain rfl : a = .plain f := mem_singleton.1 (h ▸ mem_append_right _ mem_cons_self)
  rfl

lemma ensures_single (hkids : t.kids = [k]) (hs : k.isSource)
    (h : Ensures (Assembles top O k m) (assemble k (g.enter false k) m)) :
    Ensures (KidsMade top O t m) ((do return (← single g k fun g => assemble k g, ← pure []) :
      Assembling (List (Anchor Frame) × List Frame)) m) := by
  refine Ensures.run_bind (R := fun q => ∃ f, q.1 = [.plain f] ∧ Assembles top O k m (f, q.2)) ?_
    fun as m' hm => .run_pure ?_
  · exact h.run_bind fun f m' hf => .run_pure ⟨f, rfl, hf⟩
  obtain ⟨f, rfl, hf⟩ := hm
  have hflat : t.kids.flatMap Term.tags = k.tags := by simp [hkids]
  refine ⟨?_, forall_mem_singleton.2 (hf.isSegment_source hs), forall_mem_singleton.2 hf.inScope,
    fun before a after heq p hp => ?_, forall_mem_nil _, hf.sound, hflat ▸ hf.grows,
    hflat ▸ hf.complete, hflat ▸ hf.settled, ?_, fun hfilters => ⟨?_, ?_, forall_mem_nil _⟩⟩
  · rw [hflat]
    simpa [anchorTags_eq, allTags, Anchor.plain] using hf.tags
  · cases (condition_of_plain heq).symm.trans hp
  · rw [hkids]
    exact (hf.answers_source hs).mono fun o ho => by simpa [anchorOffer, answersOf, Anchor.plain] using ho
  · exact forall_mem_singleton.2 (hf.boolean hfilters)
  · exact forall_mem_singleton.2 (by rintro _ ⟨⟩)

omit [Discipline] in
lemma disjoint_kids (hn : t.tags.Nodup) (hkids : t.kids = [left, right]) :
    left.tags.Disjoint right.tags := by
  have hflat : t.kids.flatMap Term.tags = left.tags ++ right.tags := by simp [hkids]
  rw [tags_eq, hflat, nodup_cons] at hn
  exact (nodup_append'.1 hn.2).2.2

structure PairMade (top t left right : Term) (f f' : Frame) (m m' : Ledger) : Prop where
  tags : f.tags ++ f'.tags = (t.kids.flatMap Term.tags).map Int.ofNat
  grows : m.Grows (t.kids.flatMap Term.tags) m'
  complete : m'.Complete top (t.kids.flatMap Term.tags)
  settled : m'.Settled (t.kids.flatMap Term.tags)
  answers : m'.Answers (t.kids.map Term.tag) (f.offer left.isCorrelation ++ f'.offer right.isCorrelation)

lemma Assembles.pair (hn : t.tags.Nodup) (hkids : t.kids = [left, right])
    (hl : Assembles top O left m (f, m₁)) (hr : Assembles top O' right m₁ (f', m₂)) :
    PairMade top t left right f f' m m₂ := by
  have hflat : t.kids.flatMap Term.tags = left.tags ++ right.tags := by simp [hkids]
  have hdisjoint := (disjoint_kids hn hkids).symm
  have hleft : m₂.Answers [left.tag] (f.offer left.isCorrelation) := by
    refine hl.answers.grows hr.grows fun n hn hmem => hdisjoint hn ?_
    exact mem_singleton.1 hmem ▸ Term.tag_mem_tags left
  refine ⟨?_, ?_, ?_, ?_, ?_⟩
  · rw [hflat, hl.tags, hr.tags, map_append]
  · rw [hflat]
    exact (hl.grows.mono (subset_append_left _ _)).trans (hr.grows.mono (subset_append_right _ _))
  · rw [hflat]
    exact (hl.complete.mono hr.grows.claims_subset).append hr.complete
  · rw [hflat]
    exact (hl.settled.grows hr.grows hdisjoint).append hr.settled
  · rw [hkids]
    exact (hleft.mono (subset_append_left _ _)).append (hr.answers.mono (subset_append_right _ _))

lemma ensures_joinCondition {js : List Joint} {outer : Bool}
    (hleft : ∀ j ∈ js, Ensures (fun p => p.1.Grounded O ∧ p.2 = l) (evaluate (g.routedBy left) j.left l))
    (hright : ∀ j ∈ js,
      Ensures (fun p => p.1.Grounded O ∧ p.2 = l) (evaluate (g.routedBy right) j.right l)) :
    Ensures (fun q => (∀ p ∈ q.1, p.Grounded O ∧ p.domain = .boolean) ∧ q.2 = l)
      (joinCondition g left right js outer l) := by
  refine (Ensures.run_mapM (Q := fun p => p.Grounded O ∧ p.domain = .boolean)
    fun j hj => ?_).run_bind fun ps m hps => ?_
  · refine (hleft j hj).run_bind fun p m hp => ?_
    obtain ⟨hp, rfl⟩ := hp
    refine (hright j hj).run_bind fun q m' hq => ?_
    obtain ⟨hq, rfl⟩ := hq
    refine .run_pure ⟨⟨.formula (Discipline.equality _ _ 1) ?_, rfl⟩, rfl⟩
    exact forall_mem_cons.2 ⟨hp, forall_mem_singleton.2 hq⟩
  · obtain ⟨hps, rfl⟩ := hps
    split
    · refine .run_pure ⟨fun p hp => ?_, rfl⟩
      refine Option.mem_some.1 hp ▸ ⟨.formula (Discipline.conjunction ?_) fun q hq => (hps q hq).1, rfl⟩
      exact forall_mem_map.2 fun q hq => (hps q hq).2
    split
    · exact .run_pure ⟨fun p hp => Option.mem_some.1 hp ▸ ⟨(grounded_ofBool true).toPredicate, rfl⟩, rfl⟩
    · exact .run_pure ⟨nofun, rfl⟩

/-- The codes that a subquery takes from the rows around it, with their phrases. -/
theorem ensures_correlations {cs : List Code}
    (h : ∀ c ∈ cs, Ensures (fun p => (p.1.Grounded O ∧ p.1.domain = c.domain) ∧ p.2 = l) (evaluate g c l)) :
    Ensures (fun q => q.1.map (·.1) = cs ∧
        (∀ e ∈ q.1, e.2.Grounded O ∧ e.2.domain = e.1.domain) ∧ q.2 = l)
      ((cs.mapM fun c => do pure (c, ← evaluate g c) : Assembling (List (Code × Phrase))) l) := by
  induction cs with
  | nil => exact .run_pure ⟨rfl, forall_mem_nil _, rfl⟩
  | cons c cs ih =>
    rw [forall_mem_cons] at h
    rw [mapM_cons]
    refine Ensures.run_bind (R := fun q => (q.1.1 = c ∧ q.1.2.Grounded O ∧ q.1.2.domain = c.domain) ∧
      q.2 = l) ?_ fun e m he => ?_
    · exact h.1.run_bind fun p m hp => .run_pure ⟨⟨rfl, hp.1⟩, hp.2⟩
    obtain ⟨⟨rfl, he⟩, rfl⟩ := he
    refine (ih h.2).run_bind fun es m hes => .run_pure ?_
    exact ⟨congrArg _ hes.1, forall_mem_cons.2 ⟨he, hes.2.1⟩, hes.2.2⟩

end Kids

def Works (top t : Term) : Prop :=
  ∀ {O : List Offer} {g : Gate} {l : Ledger} {given : List Code}, (given, t) ∈ top.places [] →
    g.At O (given, t) → g.routes = t.routes → l.Sound → l.Opens top t →
    (t.isSegment → l.claimsOf t.tag = []) → Ensures (Assembles top O t l) (assemble t g l)

lemma Works.kid {k : Term} {nullable : Bool} (h : Works top k) (hs : k.isSource)
    (hk : (x.1, k) ∈ top.places []) (hg : g.At O x) (hl : l.Sound) (ho : l.Opens top k) :
    Ensures (Assembles top O k l) (assemble k (g.enter nullable k) l) :=
  h hk ⟨rfl, hg.given, hg.correlations⟩ rfl hl ho
    fun heq => nomatch heq.symm.trans (isSegment_of_isSource hs)

section Terms

variable {k left right : Term} {given : List Code} {h : Head} (hw : top.Workable)
include hw

lemma ensures_unary (hx : x ∈ top.places []) (hg : g.At O x) (hr : g.routes = x.2.routes) (hl : l.Sound)
    (ho : l.Opens top x.2) (hsettings : x.2.settings x.1 = [(x.1, k)]) (hkids : x.2.kids = [k])
    (hs : k.isSource) (hk : Works top k) (htable : x.2.isTable = false)
    (hseg : x.2.isSegment → l.claimsOf x.2.tag = []) :
    Ensures (Assembles top O x.2 l) (branch g x.2 (single g k fun g => assemble k g) (pure []) l) := by
  refine ensures_branch hw hx hg htable ho hr hl hseg fun m hm => ?_
  have hplace := mem_places_of_setting hx (hsettings ▸ mem_cons_self)
  have hopens := hm.opens hw hx hg.dispatcher ho (hkids ▸ mem_cons_self)
  exact ensures_single hkids hs (hk.kid hs hplace hg (hm.delegates.sound hl) hopens)

section Join

variable {js : List Joint} {outer : Bool}

lemma ensures_join (hx : (given, .join h left right js outer) ∈ top.places [])
    (hg : g.At O (given, .join h left right js outer)) (hr : g.routes = h.routes) (hl : l.Sound)
    (ho : l.Opens top (.join h left right js outer)) (hls : left.isSource)
    (hrs : right.isSource) (hleft : Works top left) (hright : Works top right) :
    Ensures (Assembles top O (.join h left right js outer) l)
      (assemble (.join h left right js outer) g l) := by
  refine ensures_branch hw hx hg rfl ho hr hl (by rintro ⟨⟩) fun m hm => ?_
  have hn := nodup_subterm hw.nodup (mem_subterms_of_place hx)
  have hplaces : ∀ k ∈ [left, right], (given, k) ∈ top.places [] := fun k hk =>
    mem_places_of_setting hx (mem_map.2 ⟨k, hk, rfl⟩)
  have hopens : ∀ k ∈ [left, right], m.Opens top k := fun k hk => hm.opens hw hx hg.dispatcher ho hk
  have hmemr : right ∈ [left, right] := .tail _ mem_cons_self
  refine Ensures.run_bind (R := fun q => ∃ f f' p, q.1 = [.plain f, ⟨f', p, outer, false⟩] ∧
    ∃ m₁, Assembles top O left m (f, m₁) ∧ Assembles top O right m₁ (f', q.2) ∧
      ∀ c ∈ p, c.Grounded (f.offer false ++ f'.offer false ++ O) ∧ c.domain = .boolean) ?_ fun as m₂ hq => .run_pure ?_
  · refine (hleft.kid hls (hplaces left mem_cons_self) hg (hm.delegates.sound hl)
      (hopens left mem_cons_self)).run_bind fun f m₁ hf => ?_
    have hopen₁ := hf.grows.opens (hopens right hmemr) (disjoint_kids hn rfl)
    refine (hright.kid hrs (hplaces right hmemr) hg hf.sound hopen₁).run_bind fun f' m₂ hf' => ?_
    have hpair := hf.pair hn rfl hf'
    have hanswers := hpair.answers
    rw [isCorrelation_of_isSource hls, isCorrelation_of_isSource hrs] at hanswers
    have hg₂ : g.At (f.offer false ++ f'.offer false ++ O) (given, .join h left right js outer) :=
      hg.mono (subset_append_right _ _)
    have hclause : ∀ y ∈ (Term.join h left right js outer).clauses, Ensures (fun p =>
        p.1.Grounded (f.offer false ++ f'.offer false ++ O) ∧ p.2 = m₂)
        (evaluate (g.withRoutes y.1) y.2 m₂) := by
      intro y hy
      have hreads := hw.reads_clause hx hy
      have hready := ((hm.clauses y hy).mono hpair.grows.claims_subset).ready rfl hg.dispatcher hreads
        (hpair.settled.mono (tags_subset_flatMap _)) (hanswers.mono (subset_append_left _ O))
        fun _ _ _ _ _ hoff => offspring_mem hoff
      exact (ensures_evaluate (hg₂.withRoutes y.1) hreads hready).imp fun p hp => ⟨hp.1.1, hp.2⟩
    refine (ensures_joinCondition
      (fun j hj => hclause (left.routes, j.left) (mem_flatMap.2 ⟨j, hj, mem_cons_self⟩))
      fun j hj => hclause (right.routes, j.right)
        (mem_flatMap.2 ⟨j, hj, .tail _ mem_cons_self⟩)).run_bind fun p m₃ hp => .run_pure ?_
    obtain ⟨hp, rfl⟩ := hp
    exact ⟨f, f', p, rfl, m₁, hf, hf', hp⟩
  · obtain ⟨f, f', p, rfl, m₁, hf, hf', hp⟩ := hq
    have hpair := hf.pair hn rfl hf'
    have hanswers := hpair.answers
    rw [isCorrelation_of_isSource hls, isCorrelation_of_isSource hrs] at hanswers
    refine ⟨?_, ?_, ?_, fun before a after heq c hc => ?_, forall_mem_nil _, hf'.sound, hpair.grows,
      hpair.complete, hpair.settled, ?_, fun hfilters => ⟨?_, ?_, forall_mem_nil _⟩⟩
    · simpa [anchorTags_eq, allTags, Anchor.plain] using hpair.tags
    · exact forall_mem_cons.2 ⟨hf.isSegment_source hls, forall_mem_singleton.2 (hf'.isSegment_source hrs)⟩
    · exact forall_mem_cons.2 ⟨hf.inScope, forall_mem_singleton.2 hf'.inScope⟩
    · cases before with
      | nil =>
        obtain ⟨rfl, -⟩ := List.cons.inj heq
        cases hc
      | cons b before =>
        obtain ⟨rfl, heq⟩ := List.cons.inj heq
        obtain ⟨rfl, rfl, rfl⟩ : before = [] ∧ a = ⟨f', p, outer, false⟩ ∧ after = [] := by
          cases before <;> simp_all
        simpa [anchorOffer, answersOf, Anchor.plain] using (hp c hc).1
    · exact hanswers.mono fun o ho => by simpa [anchorOffer, answersOf, Anchor.plain] using ho
    · exact forall_mem_cons.2 ⟨hf.boolean hfilters, forall_mem_singleton.2 (hf'.boolean hfilters)⟩
    · exact forall_mem_cons.2 ⟨by rintro _ ⟨⟩, forall_mem_singleton.2 fun c hc => (hp c hc).2⟩

end Join

section Embedding

variable {cs : List Code}

lemma ensures_embedding (hx : (given, .embedding h left right cs) ∈ top.places [])
    (hg : g.At O (given, .embedding h left right cs)) (hr : g.routes = h.routes) (hl : l.Sound)
    (ho : l.Opens top (.embedding h left right cs)) (hls : left.isSource)
    (hrc : right.isCorrelation) (hleft : Works top left) (hright : Works top right) :
    Ensures (Assembles top O (.embedding h left right cs) l) (assemble (.embedding h left right cs) g l) := by
  refine ensures_branch hw hx hg rfl ho hr hl (by rintro ⟨⟩) fun m hm => ?_
  have hmem := mem_subterms_of_place hx
  have hn := nodup_subterm hw.nodup hmem
  have hopens : ∀ k ∈ [left, right], m.Opens top k := fun k hk => hm.opens hw hx hg.dispatcher ho hk
  have hplacel : (given, left) ∈ top.places [] := mem_places_of_setting hx mem_cons_self
  have hplacer : (cs, right) ∈ top.places [] :=
    mem_places_of_setting hx (.tail _ mem_cons_self)
  refine Ensures.run_bind (R := fun q => ∃ f, q.1 = [.plain f] ∧ Assembles top O left m (f, q.2)) ?_
    fun as m₁ hf => ?_
  · exact (hleft.kid hls hplacel hg (hm.delegates.sound hl)
      (hopens left mem_cons_self)).run_bind fun f m₁ hf => .run_pure ⟨f, rfl, hf⟩
  obtain ⟨f, rfl, hf⟩ := hf
  have hopen₁ := hf.grows.opens (hopens right (.tail _ mem_cons_self)) (disjoint_kids hn rfl)
  have hg₁ : g.At (f.offer false ++ O) (given, .embedding h left right cs) :=
    hg.mono (subset_append_right _ _)
  have hanswers : m₁.Answers [left.tag] (f.offer false ++ O) :=
    (hf.answers_source hls).mono (subset_append_left _ _)
  have hsettled : m₁.Settled [left.tag] :=
    hf.settled.mono (cons_subset.2 ⟨Term.tag_mem_tags left, nil_subset _⟩)
  have hcode : ∀ c ∈ cs, Ensures (fun p => (p.1.Grounded (f.offer false ++ O) ∧ p.1.domain = c.domain) ∧
      p.2 = m₁) (evaluate (g.routedBy left) c m₁) := by
    intro c hc
    have hy : (left.routes, c) ∈ (Term.embedding h left right cs).clauses := mem_map.2 ⟨c, hc, rfl⟩
    have hreads := hw.reads_clause hx hy
    refine ensures_evaluate (hg₁.withRoutes left.routes) hreads
      (((hm.clauses _ hy).mono hf.grows.claims_subset).ready rfl hg.dispatcher hreads hsettled hanswers
        fun u _ n b hn' hoff => ?_)
    -- the routes of the left kid lead into it, so the right kid is not asked
    obtain ⟨k, hk, rfl, hnk⟩ := of_offspring hoff
    have hleftmem : left ∈ top.subterms := mem_subterms_of_place hplacel
    obtain rfl := kid_unique hn hk mem_cons_self hnk (hw.routes left hleftmem hn')
    exact mem_singleton_self _
  refine Ensures.run_bind (R := fun q => ∃ f', q.1 = [f'] ∧
    Assembles top (f.offer false ++ O) right m₁ (f', q.2)) ?_ fun fs m₂ hf' => .run_pure ?_
  · refine (ensures_correlations hcode).run_bind fun correlations m₂ hcorrelations => ?_
    obtain ⟨hgiven, hground, rfl⟩ := hcorrelations
    refine (hright hplacer ⟨rfl, hgiven, hground⟩ rfl hf.sound hopen₁ fun heq => ?_).run_bind
      fun f' m₃ hf' => .run_pure ⟨f', rfl, hf'⟩
    exact absurd ((isSegment_of_isCorrelation hrc).symm.trans heq) Bool.false_ne_true
  · obtain ⟨f', rfl, hf'⟩ := hf'
    have hpair := hf.pair hn rfl hf'
    have hanswers₂ := hpair.answers
    rw [isCorrelation_of_isSource hls, hrc] at hanswers₂
    refine ⟨?_, forall_mem_singleton.2 (hf.isSegment_source hls),
      forall_mem_singleton.2 hf.inScope, fun before a after heq c hc => ?_,
      forall_mem_singleton.2 ?_, hf'.sound, hpair.grows, hpair.complete, hpair.settled, ?_,
      fun hfilters => ⟨forall_mem_singleton.2 (hf.boolean hfilters), forall_mem_singleton.2 (by rintro _ ⟨⟩),
        forall_mem_singleton.2 (hf'.boolean hfilters)⟩⟩
    · simpa [anchorTags_eq, allTags, Anchor.plain] using hpair.tags
    · cases (condition_of_plain heq).symm.trans hc
    · simpa [anchorOffer, Anchor.plain] using hf'.inScope
    · exact hanswers₂.mono fun o ho => by simpa [anchorOffer, answersOf, Anchor.plain] using ho

end Embedding

end Terms

lemma works_of_workable (hw : top.Workable) (ht : t ∈ top.subterms) : Works top t := by
  have hkid {t k : Term} (ht : t ∈ top.subterms) (hk : k ∈ t.kids) : k ∈ top.subterms :=
    subterms_trans ht (mem_subterms_of_kid hk)
  induction t with
  | scalar h =>
    intro O g l given _ _ _ hl ho _
    exact ensures_scalar hw ht hl ho
  | table h =>
    intro O g l given hx _ _ hl ho _
    exact ensures_table hw hx hl ho
  | filter _ k _ ih | correlation _ k ih | projection _ k _ ih | order _ k _ _ _ ih | wrapper _ k ih
  | permanent _ k ih | segment _ k _ ih =>
    have hs : k.isSource := all_eq_true.1 (hw.fitted _ ht) k mem_cons_self
    intro O g l given hx hg hr hl ho hseg
    exact ensures_unary hw hx hg hr hl ho rfl rfl hs (ih (hkid ht mem_cons_self)) rfl hseg
  | join _ left right _ _ ihl ihr =>
    have hs := all_eq_true.1 (hw.fitted _ ht)
    have hright : right ∈ [left, right] := .tail _ mem_cons_self
    intro O g l given hx hg hr hl ho _
    exact ensures_join hw hx hg hr hl ho (hs left mem_cons_self) (hs right hright)
      (ihl (hkid ht mem_cons_self)) (ihr (hkid ht hright))
  | embedding _ left right _ ihl ihr =>
    obtain ⟨hls, hrc⟩ := Bool.and_eq_true_iff.1 (hw.fitted _ ht)
    intro O g l given hx hg hr hl ho _
    exact ensures_embedding hw hx hg hr hl ho hls hrc (ihl (hkid ht mem_cons_self))
      (ihr (hkid ht (.tail _ mem_cons_self)))

end Frame

/-- If everything is settled, just the claims are supplied. -/
theorem Ledger.Sound.perm {l : Ledger} {tags : List Nat} (h : l.Sound) (hs : l.Settled tags)
    (hb : ∀ c ∈ l.claims, c.broker ∈ tags) : (l.phrases.map (·.1)).Perm l.claims := by
  have hnodup : l.claims.Nodup := h.distinct.imp fun hab heq => by
    rw [heq, BEq.rfl] at hab
    cases hab
  refine (perm_ext_iff_of_nodup h.once hnodup).2 fun c => ⟨fun hc => ?_, fun hc => ?_⟩
  · obtain ⟨e, he, rfl⟩ := mem_map.1 hc
    exact h.claimed e he
  · exact mem_map.mpr (hs c hc (hb c hc))

namespace Term.Workable

variable [Discipline] {top : Term}

/-- The frame of a tree can be made, and all claims are supplied in the end. -/
theorem assemble (hw : top.Workable) (hseg : top.isSegment) :
    Ensures (fun q => Frame.Assembles top [] top .empty q ∧ (q.2.phrases.map (·.1)).Perm q.2.claims ∧
        Frame.ofTerm top = .ok ⟨q.1, q.2.claims.length⟩)
      (Frame.assemble top ⟨false, top, top.routes, []⟩ .empty) := by
  have hopen : Ledger.empty.Opens top top := by
    refine ⟨forall_mem_nil _, fun c hc hb => ?_, forall_mem_nil _⟩
    exact absurd hb (hc.broker_ne hw.nodup)
  have hworks := Frame.works_of_workable hw (mem_subterms_self top) (O := [])
    (g := ⟨false, top, top.routes, []⟩) (mem_places_self top []) ⟨rfl, rfl, forall_mem_nil _⟩ rfl
    Ledger.sound_empty hopen fun _ => rfl
  cases hrun : Frame.assemble top ⟨false, top, top.routes, []⟩ .empty with
  | error e => rwa [hrun] at hworks
  | ok q =>
    rw [hrun] at hworks
    have hbrokers : ∀ c ∈ q.2.claims, c.broker ∈ top.tags := by
      obtain ⟨new, hnew, hbrokers⟩ := hworks.grows.claims
      exact hnew ▸ hbrokers
    have hperm := hworks.sound.perm hworks.settled hbrokers
    refine ⟨hworks, hperm, ?_⟩
    have hlength : q.2.claims.length = q.2.phrases.length := by
      rw [← hperm.length_eq, length_map]
    cases top with
    | segment h k cs =>
      show Except.bind (Frame.assemble _ _ .empty) _ = _
      rw [hrun]
      simp only [bind, Except.bind, hlength, BEq.rfl, ensure, if_true, pure, Except.pure]
    | _ => cases hseg

end Term.Workable

end NavQuery
