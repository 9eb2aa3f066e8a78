import NavQuery.Proofs.FrameOffers
import NavQuery.Proofs.ReducedPhrases
import NavQuery.Proofs.TermTrees

/-!
`Frame.In R` says that the phrases of a frame are grounded in the offers `R`. Collapsing keeps this, and
reduction resolves the references to select lists that were left behind.
-/

namespace NavQuery

open List Phrase

attribute [local instance] Discipline.typed

def Offer.tag : Offer → Tag
  | columns t | items t _ | answer t => t

/-- Clauses over what is offered, whose select list has the domains that are offered. -/
structure Clauses.In (R : List Offer) (c : Clauses) : Prop where
  phrases : ∀ p ∈ c.phrases, p.Grounded R
  domains : ∀ ds, .items c.tag ds ∈ R → c.select.map domain = ds
  boolean : c.BooleanConditions

namespace Clauses

def result? (c : Clauses) : Option (List Domain × List Nat) :=
  if c.role = .segment then some (c.select.map domain, c.outputs) else none

namespace In

variable {R : List Offer} {c : Clauses} (h : c.In R)
include h

lemma select : ∀ p ∈ c.select, p.Grounded R := fun p hp => h.phrases p (mem_phrases.2 (.inl hp))

lemma filter : ∀ p ∈ c.filter, p.GroundedAs R .boolean := fun p hp =>
  ⟨h.phrases p (mem_phrases.2 (.inr (.inl hp))), h.boolean p (.inl hp)⟩

lemma group : ∀ p ∈ c.group, p.Grounded R := fun p hp =>
  h.phrases p (mem_phrases.2 (.inr (.inr (.inl hp))))

lemma having : ∀ p ∈ c.having, p.GroundedAs R .boolean := fun p hp =>
  ⟨h.phrases p (mem_phrases.2 (.inr (.inr (.inr (.inl hp))))), h.boolean p (.inr hp)⟩

lemma order : ∀ i ∈ c.order, i.1.Grounded R := fun i hi =>
  h.phrases i.1 (mem_phrases.2 (.inr (.inr (.inr (.inr ⟨i, hi, rfl⟩)))))

end In

end Clauses

namespace Frame

variable {R : List Offer}

inductive In (R : List Offer) : Frame → Prop
  | scalar {t : Tag} (h : ∀ ds, .items t ds ∉ R) : In R (.scalar t)
  | table {n : Tag} {t : Table} : In R (.table n t)
  | query {c : Clauses} {anchors : List (Anchor Frame)} {embedded : List Frame} (hc : c.In R)
    (hj : ∀ a ∈ anchors, a.frame.isSegment = false) (ha : ∀ a ∈ anchors, a.frame.In R)
    (hp : ∀ a ∈ anchors, ∀ p ∈ a.condition, p.GroundedAs R .boolean)
    (he : ∀ f ∈ embedded, f.In R) : In R (.query c anchors embedded)

def result? : Frame → Option (List Domain × List Nat)
  | query c _ _ => c.result?
  | _ => none

lemma isSegment_eq (f : Frame) : f.isSegment = f.result?.isSome := by
  cases f with
  | scalar | table => rfl
  | query c anchors embedded =>
    rw [isSegment, result?, Clauses.result?]
    split <;> simp_all

section Offers

variable {c : Clauses} {e : Bool} {x : Offer}

lemma mem_offer (h : x ∈ c.offer e) :
    e = true ∧ x = .answer c.tag ∨ e = false ∧ x = .items c.tag (c.select.map domain) := by
  unfold Clauses.offer at h
  split at h
  next he => exact .inl ⟨he, mem_singleton.1 h⟩
  next he =>
    split at h
    · cases h
    · exact .inr ⟨Bool.eq_false_iff.2 he, mem_singleton.1 h⟩

lemma tag_of_mem_offer (h : x ∈ c.offer e) : x.tag = c.tag := by
  obtain ⟨-, rfl⟩ | ⟨-, rfl⟩ := mem_offer h <;> rfl

lemma tag_mem_of_mem_offers {f : Frame} (h : x ∈ f.offers e) : x.tag ∈ f.tags := by
  induction f generalizing e with
  | scalar => cases h
  | table => exact mem_singleton.1 h ▸ mem_cons_self
  | query c anchors embedded iha ihe =>
    obtain ⟨hjoined, hdeep⟩ := tags_subset_of_query c anchors embedded
    rcases mem_offers_query.1 h with h | ⟨a, ha, h⟩ | ⟨f, hf, h⟩
    · exact tag_of_mem_offer h ▸ mem_cons_self
    · exact hjoined a ha (iha a ha h)
    · exact hdeep f hf (ihe f hf h)

lemma eq_of_mem_offer (h : x ∈ c.offer false) : x = .items c.tag (c.select.map domain) :=
  (mem_offer h).elim (fun h => absurd h.1 Bool.false_ne_true) (·.2)

lemma domains_of_mem_offer {ds : List Domain} (h : .items c.tag ds ∈ c.offer e) :
    c.select.map domain = ds := by
  obtain ⟨-, h⟩ | ⟨-, h⟩ := mem_offer h
  · cases h
  · exact (Offer.items.inj h).2.symm

section Distinct

variable {c : Clauses} {anchors : List (Anchor Frame)} {embedded : List Frame} {e : Bool} {x : Offer}
  (hn : (query c anchors embedded).tags.Nodup) (h : x ∈ (query c anchors embedded).offers e)
include hn h

lemma mem_offers_of_anchor {a : Anchor Frame} (ha : a ∈ anchors) (ht : x.tag ∈ a.frame.tags) :
    x ∈ a.frame.offers false := by
  rw [tags, nodup_cons, nodup_append', anchorTags_eq, allTags_eq] at hn
  obtain ⟨hself, hanchors, _, hdisjoint⟩ := hn
  have hta : x.tag ∈ anchors.flatMap (·.frame.tags) := mem_flatMap.2 ⟨a, ha, ht⟩
  rcases mem_offers_query.1 h with h | ⟨b, hb, h⟩ | ⟨f, hf, h⟩
  · exact absurd (mem_append_left _ (tag_of_mem_offer h ▸ hta)) hself
  · exact eq_of_nodup_flatMap hanchors hb ha (tag_mem_of_mem_offers h) ht ▸ h
  · exact absurd (mem_flatMap.2 ⟨f, hf, tag_mem_of_mem_offers h⟩) (hdisjoint hta)

lemma mem_offers_of_embedded {f : Frame} (hf : f ∈ embedded) (ht : x.tag ∈ f.tags) :
    x ∈ f.offers true := by
  rw [tags, nodup_cons, nodup_append', anchorTags_eq, allTags_eq] at hn
  obtain ⟨hself, _, hembedded, hdisjoint⟩ := hn
  have htf : x.tag ∈ embedded.flatMap tags := mem_flatMap.2 ⟨f, hf, ht⟩
  rcases mem_offers_query.1 h with h | ⟨b, hb, h⟩ | ⟨g, hg, h⟩
  · exact absurd (mem_append_right _ (tag_of_mem_offer h ▸ htf)) hself
  · exact absurd htf (hdisjoint (mem_flatMap.2 ⟨b, hb, tag_mem_of_mem_offers h⟩))
  · exact eq_of_nodup_flatMap hembedded hg hf (tag_mem_of_mem_offers h) ht ▸ h

lemma mem_offer_of_tag (ht : x.tag = c.tag) : x ∈ c.offer e := by
  rw [tags, nodup_cons, anchorTags_eq, allTags_eq] at hn
  rcases mem_offers_query.1 h with h | ⟨a, ha, h⟩ | ⟨f, hf, h⟩
  · exact h
  · have hta : x.tag ∈ anchors.flatMap (·.frame.tags) := mem_flatMap.2 ⟨a, ha, tag_mem_of_mem_offers h⟩
    exact absurd (mem_append_left _ (ht ▸ hta)) hn.1
  · have htf : x.tag ∈ embedded.flatMap tags := mem_flatMap.2 ⟨f, hf, tag_mem_of_mem_offers h⟩
    exact absurd (mem_append_right _ (ht ▸ htf)) hn.1

end Distinct

/-- Frames with distinct tags agree on the domains of select lists: what is offered under a tag is
offered by the frame with that tag. -/
theorem in_of_grounded {f : Frame} {P : List Offer → Phrase → Prop} {O : List Offer}
    (hn : f.tags.Nodup) (hj : f.Scoped P O) (hb : f.BooleanConditions) (hp : ∀ p ∈ f.phrases, p.Grounded R)
    (hR : ∀ x ∈ R, x.tag ∈ f.tags → x ∈ f.offers e) : f.In R := by
  induction f generalizing e O with
  | scalar t => exact .scalar fun k hk => absurd (hR _ hk mem_cons_self) not_mem_nil
  | table => exact .table
  | query c anchors embedded iha ihe =>
    obtain ⟨hanchors, hembedded⟩ := nodup_tags_of_query hn
    obtain ⟨hjoined, hdeep⟩ := tags_subset_of_query c anchors embedded
    cases hj with | query _ hsources hja _ hje _ =>
    cases hb with | query hbc hba hbp hbe =>
    refine .query ⟨fun p hpc => hp p (mem_phrases_query.2 (.inl hpc)), fun ds hds => ?_, hbc⟩ hsources
      (fun a ha => iha a ha (e := false) (hanchors a ha) (hja a ha) (hba a ha) ?_ fun x hx ht => ?_)
      (fun a ha p hpa => ⟨hp p (mem_phrases_query.2 (.inr (.inl ⟨a, ha, .inr hpa⟩))), hbp a ha p hpa⟩)
      (fun f hf => ihe f hf (e := true) (hembedded f hf) (hje f hf) (hbe f hf) ?_ fun x hx ht => ?_)
    · exact domains_of_mem_offer (mem_offer_of_tag hn (hR _ hds (tag_mem_tags _)) rfl)
    · exact fun p hpa => hp p (mem_phrases_query.2 (.inr (.inl ⟨a, ha, .inl hpa⟩)))
    · exact mem_offers_of_anchor hn (hR x hx (hjoined a ha ht)) ha ht
    · exact fun p hpf => hp p (mem_phrases_query.2 (.inr (.inr ⟨f, hf, hpf⟩)))
    · exact mem_offers_of_embedded hn (hR x hx (hdeep f hf ht)) hf ht

end Offers

end Frame

/-- Select lists over what is offered, of the domains that are offered. -/
def Substitutes.In (R : List Offer) (s : Substitutes) : Prop :=
  ∀ x ∈ s, (∀ p ∈ x.2, p.Grounded R) ∧ ∀ ds, .items x.1 ds ∈ R → x.2.map domain = ds

namespace Frame

variable {R : List Offer} {e : Bool} {f g h : Frame} {s s' : Substitutes}

structure Replaces (R : List Offer) (e : Bool) (f g : Frame) (s : Substitutes) : Prop where
  within : g.In R
  substitutes : s.In R
  kept : ∀ x ∈ f.offers e, x ∈ g.offers e ∨ ∃ y ∈ s, x = .items y.1 (y.2.map domain)
  offered : g.offers e ⊆ f.offers e
  result : g.result? = f.result?

lemma Replaces.segment (h : Replaces R e f g s) : g.isSegment = f.isSegment := by
  rw [isSegment_eq, isSegment_eq, h.result]

lemma Replaces.refl (hf : f.In R) : Replaces R e f f [] :=
  ⟨hf, nofun, fun _ hx => .inl hx, List.Subset.refl _, rfl⟩

lemma Replaces.trans (hg : Replaces R e f g s) (hh : Replaces R e g h s') :
    Replaces R e f h (s' ++ s) where
  within := hh.within
  substitutes := forall_mem_append.2 ⟨hh.substitutes, hg.substitutes⟩
  kept x hx := by
    rcases hg.kept x hx with hx | ⟨y, hy, hx⟩
    · exact (hh.kept x hx).imp_right fun ⟨y, hy, hx⟩ => ⟨y, mem_append_left _ hy, hx⟩
    · exact .inr ⟨y, mem_append_right _ hy, hx⟩
  offered := List.Subset.trans hh.offered hg.offered
  result := hh.result.trans hg.result

section Clauses

variable {c head : Clauses}

lemma grounded_conjoin {p q : Option Phrase} (hp : ∀ a ∈ p, a.GroundedAs R .boolean)
    (hq : ∀ a ∈ q, a.GroundedAs R .boolean) : ∀ a ∈ conjoin p q, a.GroundedAs R .boolean := by
  unfold conjoin
  split
  next => exact hq
  next => exact hp
  next p q =>
    intro a ha
    obtain rfl := Option.mem_some.1 ha
    have hboth := forall_mem_cons.2 ⟨hp p rfl, forall_mem_singleton.2 (hq q rfl)⟩
    refine ⟨.formula (Discipline.conjunction ?_) fun a ha => (hboth a ha).grounded, rfl⟩
    exact forall_mem_map.2 fun a ha => (hboth a ha).domain

lemma in_clauses (hselect : ∀ p ∈ c.select, p.Grounded R)
    (hfilter : ∀ p ∈ c.filter, p.GroundedAs R .boolean) (hgroup : ∀ p ∈ c.group, p.Grounded R)
    (hhaving : ∀ p ∈ c.having, p.GroundedAs R .boolean) (horder : ∀ i ∈ c.order, i.1.Grounded R)
    (hdomains : ∀ ds, .items c.tag ds ∈ R → c.select.map domain = ds) : c.In R := by
  refine ⟨fun p hp => ?_, hdomains, fun p hp => ?_⟩
  · rcases Clauses.mem_phrases.1 hp with hp | hp | hp | hp | ⟨i, hi, rfl⟩
    · exact hselect p hp
    · exact (hfilter p hp).grounded
    · exact hgroup p hp
    · exact (hhaving p hp).grounded
    · exact horder i hi
  · exact hp.elim (fun hp => (hfilter p hp).domain) fun hp => (hhaving p hp).domain

lemma in_mergeClauses (hc : c.In R) (hh : head.In R) : (mergeClauses c head).In R := by
  rw [mergeClauses_eq]
  refine in_clauses hc.select ?_ ?_ ?_ ?_ hc.domains <;> dsimp only <;> split
  · exact grounded_conjoin hh.filter hc.filter
  · exact hh.filter
  · exact hc.group
  · exact hh.group
  · exact hc.having
  · exact hc.filter
  · exact hh.order
  · exact hc.order

lemma offer_mergeClauses : (mergeClauses c head).offer e = c.offer e := by
  rw [mergeClauses_eq]
  rfl

lemma result_mergeClauses : (mergeClauses c head).result? = c.result? := by
  rw [mergeClauses_eq]
  rfl

end Clauses

section Lists

variable {fs gs : List Frame}

/-- Frames in the places of others, of which select lists are left behind. -/
structure ReplacesAll (R : List Offer) (e : Bool) (fs gs : List Frame) (s : Substitutes) : Prop where
  within : ∀ g ∈ gs, g.In R
  segment : (∀ f ∈ fs, f.isSegment = false) → ∀ g ∈ gs, g.isSegment = false
  substitutes : s.In R
  kept : ∀ x ∈ fs.flatMap (·.offers e), x ∈ gs.flatMap (·.offers e) ∨ ∃ y ∈ s, x = .items y.1 (y.2.map domain)
  offered : gs.flatMap (·.offers e) ⊆ fs.flatMap (·.offers e)

lemma ReplacesAll.refl (hf : ∀ f ∈ fs, f.In R) : ReplacesAll R e fs fs [] :=
  ⟨hf, fun h => h, nofun, fun _ hx => .inl hx, List.Subset.refl _⟩

lemma ReplacesAll.cons (hf : Replaces R e f g s) (hfs : ReplacesAll R e fs gs s') :
    ReplacesAll R e (f :: fs) (g :: gs) (s' ++ s) where
  within := forall_mem_cons.2 ⟨hf.within, hfs.within⟩
  segment h := forall_mem_cons.2
    ⟨hf.segment.trans (h f mem_cons_self), hfs.segment fun f hf => h f (.tail _ hf)⟩
  substitutes := forall_mem_append.2 ⟨hfs.substitutes, hf.substitutes⟩
  kept x hx := by
    rw [flatMap_cons, mem_append] at hx ⊢
    rcases hx with hx | hx
    · exact (hf.kept x hx).imp .inl fun ⟨y, hy, hx⟩ => ⟨y, mem_append_right _ hy, hx⟩
    · exact (hfs.kept x hx).imp .inr fun ⟨y, hy, hx⟩ => ⟨y, mem_append_left _ hy, hx⟩
  offered := by
    exact append_subset.2 ⟨subset_append_of_subset_left _ hf.offered,
      subset_append_of_subset_right _ hfs.offered⟩

lemma Gathered.replacesAll (h : Gathered (Replaces R e) fs gs s) : ReplacesAll R e fs gs s := by
  induction h with
  | nil => exact .refl nofun
  | cons h _ ih => exact .cons h ih

lemma offers_query {c : Clauses} {anchors : List (Anchor Frame)} {embedded : List Frame} :
    (query c anchors embedded).offers e =
      c.offer e ++ ((anchors.map (·.frame)).flatMap (·.offers false) ++ embedded.flatMap (·.offers true)) := by
  rw [offers, anchorOffers_eq, allOffers_eq, flatMap_map]

lemma Replaces.query {c : Clauses} {as bs : List (Anchor Frame)} (hc : c.In R)
    (hj : ∀ a ∈ as, a.frame.isSegment = false)
    (ha : ReplacesAll R false (as.map (·.frame)) (bs.map (·.frame)) s)
    (hp : ∀ b ∈ bs, ∀ p ∈ b.condition, p.GroundedAs R .boolean) (he : ReplacesAll R true fs gs s') :
    Replaces R e (.query c as fs) (.query c bs gs) (s' ++ s) where
  within := .query hc (forall_mem_map.1 (ha.segment (forall_mem_map.2 hj)))
    (forall_mem_map.1 ha.within) hp he.within
  substitutes := forall_mem_append.2 ⟨he.substitutes, ha.substitutes⟩
  kept x hx := by
    rw [offers_query, mem_append, mem_append] at hx ⊢
    rcases hx with hx | hx | hx
    · exact .inl (.inl hx)
    · exact (ha.kept x hx).imp (.inr ∘ .inl) fun ⟨y, hy, hx⟩ => ⟨y, mem_append_right _ hy, hx⟩
    · exact (he.kept x hx).imp (.inr ∘ .inr) fun ⟨y, hy, hx⟩ => ⟨y, mem_append_left _ hy, hx⟩
  offered := by
    rw [offers_query, offers_query]
    exact append_subset.2 ⟨subset_append_left _ _, subset_append_of_subset_right _ (append_subset.2
        ⟨subset_append_of_subset_left _ ha.offered, subset_append_of_subset_right _ he.offered⟩)⟩
  result := rfl

end Lists

section Absorption

variable {c head : Clauses} {anchors inner rest : List (Anchor Frame)} {embedded : List Frame}

lemma In.absorbs (hc : c.In R) (hh : head.In R) :
    Passes (absorbs ⟨c, anchors, embedded⟩ head inner rest) := by
  have hslice : Passes (absorbsSlice ⟨c, anchors, embedded⟩ head rest) := by
    unfold absorbsSlice
    dsimp only
    split
    · exact trivial
    split
    · exact trivial
    · exact (Passes.mapM fun i hi => ((hc.order i hi).inline hh.domains).map).map
  unfold Frame.absorbs
  split
  · exact trivial
  · exact hslice.bind fun b => by split <;> exact trivial

variable {as : List (Anchor Frame)} {p : Parts}

lemma Replaces.requery {c' : Clauses} {bs : List (Anchor Frame)} {fs gs : List Frame}
    (hg : (Frame.query c' bs gs).In R) (hs : s.In R) (hc : ∀ e, c'.offer e = c.offer e) (hr : c'.result? = c.result?)
    (hkept : ∀ x, (∃ a ∈ as, x ∈ a.frame.offers false) ∨ (∃ f ∈ fs, x ∈ f.offers true) →
      ((∃ b ∈ bs, x ∈ b.frame.offers false) ∨ ∃ g ∈ gs, x ∈ g.offers true) ∨
        ∃ y ∈ s, x = .items y.1 (y.2.map domain))
    (hoffered : ∀ x, (∃ b ∈ bs, x ∈ b.frame.offers false) ∨ (∃ g ∈ gs, x ∈ g.offers true) →
      (∃ a ∈ as, x ∈ a.frame.offers false) ∨ ∃ f ∈ fs, x ∈ f.offers true) :
    Replaces R e (.query c as fs) (.query c' bs gs) s where
  within := hg
  substitutes := hs
  kept x hx := by
    rw [mem_offers_query] at hx ⊢
    rcases hx with hx | hx
    · exact .inl (.inl (hc e ▸ hx))
    · exact (hkept x hx).imp_left .inr
  offered x hx := by
    rw [mem_offers_query] at hx ⊢
    exact hx.imp (fun hx => hc e ▸ hx) (hoffered x)
  result := hr

lemma ensures_absorbHead (hp : p.frame.In R) :
    Ensures (Absorption.Holds (Replaces R e p.frame) []) (absorbHead p) := by
  obtain ⟨c, anchors, embedded⟩ := p
  have hnil : Substitutes.In R [] := nofun
  unfold absorbHead
  match anchors, hp with
  | [], hp | ⟨.table _ _, _, _, _⟩ :: _, hp => exact .refl hp
  | [⟨.scalar t, _, _, _⟩], .query hc hj ha hp he =>
    refine Replaces.requery (.query hc ?_ ?_ ?_ he) hnil (fun _ => rfl) rfl (fun x hx => .inl ?_) fun x hx => ?_
    · exact nofun
    · exact nofun
    · exact nofun
    · exact hx.imp_left fun ⟨a, ha, hx⟩ => absurd (mem_singleton.1 ha ▸ hx) not_mem_nil
    · exact hx.imp_left fun ⟨a, ha, _⟩ => absurd ha not_mem_nil
  | ⟨.scalar t, condition, left, right⟩ :: next :: more, .query hc hj ha hp he =>
    dsimp only
    split
    · exact .refl (.query hc hj ha hp he)
    rw [forall_mem_cons, forall_mem_cons] at hj ha hp
    refine Replaces.requery (.query ?_ (forall_mem_cons.2 hj.2) (forall_mem_cons.2 ha.2) ?_ he) hnil (fun _ => rfl) rfl
      (fun x hx => .inl ?_) fun x hx => ?_
    · exact in_clauses hc.select (grounded_conjoin hc.filter hp.2.1) hc.group hc.having hc.order hc.domains
    · exact forall_mem_cons.2 ⟨nofun, hp.2.2⟩
    · simpa [offers] using hx
    · simpa [offers] using hx
  | ⟨.query head inner deep, _, _, _⟩ :: rest, .query hc hj ha hp he =>
    rw [forall_mem_cons] at hj ha hp
    cases ha.1 with
    | query hh hji hai hpi hei =>
      refine (In.absorbs hc hh).bind fun b => ?_
      cases b with
      | false => exact .refl (.query hc (forall_mem_cons.2 hj) (forall_mem_cons.2 ha)
        (forall_mem_cons.2 hp) he)
      | true =>
        refine Replaces.requery (.query (in_mergeClauses hc hh) (forall_mem_append.2 ⟨hji, hj.2⟩)
          (forall_mem_append.2 ⟨hai, ha.2⟩)
          (forall_mem_append.2 ⟨hpi, hp.2⟩) (forall_mem_append.2 ⟨hei, he⟩))
          (forall_mem_singleton.2 ⟨hh.select, hh.domains⟩) (fun _ => offer_mergeClauses)
          result_mergeClauses (fun x hx => ?_) fun x hx => ?_
        · rw [exists_mem_cons_iff, mem_offers_query] at hx
          simp only [mem_append, or_and_right, exists_or]
          rcases hx with ((hx | hx | hx) | hx) | hx
          · exact .inr (.inl ⟨_, mem_singleton_self _, eq_of_mem_offer hx⟩)
          · exact .inl (.inl (.inl hx))
          · exact .inl (.inr (.inl hx))
          · exact .inl (.inl (.inr hx))
          · exact .inl (.inr (.inr hx))
        · rw [exists_mem_cons_iff, mem_offers_query]
          simp only [mem_append, or_and_right, exists_or] at hx
          rcases hx with (hx | hx) | hx | hx
          · exact .inl (.inl (.inr (.inl hx)))
          · exact .inl (.inr hx)
          · exact .inl (.inl (.inr (.inr hx)))
          · exact .inr hx

lemma Replaces.absorbHead (h : Replaces R e f p.frame s) :
    Ensures (Absorption.Holds (Replaces R e f) s) (absorbHead p) := by
  refine (ensures_absorbHead (e := e) h.within).imp fun a ha => ?_
  cases a with
  | finished q => exact h.trans ha
  | absorbed q new => exact append_nil new ▸ h.trans ha

lemma replaces_of_unwrapped {entry : Tag × List Phrase} (hf : f.In R)
    (h : unwrapped? f = some (g, entry)) : f.Replaces R false g [entry] := by
  obtain ⟨c, n, t, _, _, _, rfl, rfl, htag, hselect, hrole, -⟩ := unwrapped?_eq_some h
  obtain rfl : entry = (c.tag, c.select) := Prod.ext htag hselect
  cases hf with
  | query hc _ _ _ _ =>
    refine ⟨.table, forall_mem_singleton.2 ⟨hc.select, hc.domains⟩, fun x hx => ?_, fun x hx => ?_, ?_⟩
    · rcases mem_offers_query.1 hx with hx | ⟨a, ha, hx⟩ | ⟨f, hf, _⟩
      · exact .inr ⟨_, mem_singleton_self _, eq_of_mem_offer hx⟩
      · obtain rfl := mem_singleton.1 ha
        exact .inl hx
      · exact absurd hf not_mem_nil
    · exact mem_offers_query.2 (.inr (.inl ⟨_, mem_singleton_self _, hx⟩))
    · exact (if_neg (by rw [hrole]; exact Role.noConfusion)).symm

lemma Replaces.unwrapAnchors {first : Anchor Frame}
    (h : Replaces R e f (.query c (first :: rest) embedded) s) :
    Replaces R e f (.query c (first :: (unwrapAnchors rest).1) embedded) ((unwrapAnchors rest).2 ++ s) := by
  cases h.within with
  | query hc hj ha hp he =>
    rw [forall_mem_cons] at ha
    have hrest := gathered_unwrapAnchors (I := Replaces R false) (fun a hm => .refl (ha.2 a hm))
      fun a hm g entry => replaces_of_unwrapped (ha.2 a hm)
    have hall : Gathered (KeepsCondition (Replaces R false)) (first :: rest)
        (first :: (Frame.unwrapAnchors rest).1) _ := .cons ⟨.refl ha.1, rfl⟩ hrest
    have hquery := h.trans (.query hc hj hall.frames.replacesAll (forall_conditions hall.conditions hp) (.refl he))
    rwa [append_nil] at hquery

/-- Collapsing keeps a frame over what is in reach, and records the select lists that are gone. -/
theorem In.collapse (h : f.In R) : Ensures (Recorded (Replaces R e f) s) (f.collapse s) := by
  induction h generalizing e s with
  | scalar h => exact ⟨[], rfl, .refl (.scalar h)⟩
  | table => exact ⟨[], rfl, .refl .table⟩
  | @query c as fs hc hj ha hp he iha ihe =>
    refine (ensures_collapseAnchors (I := Replaces R false) fun a ha s => iha a ha).run_bind fun bs m hbs => ?_
    obtain ⟨new, rfl, hbs⟩ : ∃ new, m = new ++ s ∧ Gathered _ as bs new := hbs
    refine (ensures_collapseAll (I := Replaces R true) fun f hf s => ihe f hf).run_bind fun gs m hgs => ?_
    obtain ⟨more, rfl, hgs⟩ : ∃ more, m = more ++ (new ++ s) ∧ Gathered _ fs gs more := hgs
    have hquery := Replaces.query (e := e) hc hj hbs.frames.replacesAll (forall_conditions hbs.conditions hp)
      hgs.replacesAll
    rw [← append_assoc]
    exact ensures_collapseParts (P := Replaces R e (.query c as fs)) (p := ⟨c, bs, gs⟩) Replaces.absorbHead
      Replaces.unwrapAnchors hquery

end Absorption

section Reduction

variable {R' : List Offer}

structure Reduces (R' : List Offer) (e : Bool) (f g : Frame) : Prop where
  within : g.In R'
  offers : g.offers e = f.offers e
  result : g.result? = f.result?

section Phrases

variable (hs : s.Covers R R')
include hs

lemma ensures_inClauses {c : Clauses} (hR : R' ⊆ R) (hc : c.In R) :
    Ensures (fun d => d.In R' ∧ (∀ e, d.offer e = c.offer e) ∧ d.result? = c.result?) (reduceClauses s c) := by
  refine (ensures_reduceClauses fun p hp => hs.reduce (hc.phrases p hp)).imp fun d hd => ?_
  obtain ⟨hselect, hdomains⟩ := grounded_of_forall₂ (hd.select.imp fun _ _ h => ⟨h.grounded, h.domain⟩)
  refine ⟨in_clauses hselect (fun q hq => ?_) (fun q hq => ?_) (fun q hq => ?_) (fun i hi => ?_) fun ds hds => ?_,
    fun e => ?_, ?_⟩
  · obtain ⟨p, hp, hq⟩ := hd.filter q hq
    exact (hc.filter p hp).domain ▸ hq
  · obtain ⟨p, hp, hq⟩ := hd.group q hq
    exact hq.grounded
  · obtain ⟨p, hp, hq⟩ := hd.having q hq
    exact (hc.having p hp).domain ▸ hq
  · obtain ⟨j, hj, hi⟩ := hd.order i hi
    exact hi.grounded
  · exact hdomains.trans (hc.domains ds (hd.tag ▸ hR hds))
  · simp only [Clauses.offer, hd.tag, hd.role, hdomains]
  · simp only [Clauses.result?, hd.role, hd.outputs, hdomains]

lemma In.reduceFrame (hR : R' ⊆ R) (hf : f.In R) : Ensures (Reduces R' e f) (reduceFrame s f) := by
  induction hf generalizing e with
  | scalar h => exact ⟨.scalar fun k hk => h k (hR hk), rfl, rfl⟩
  | table => exact ⟨.table, rfl, rfl⟩
  | @query c as fs hc hj ha hp he iha ihe =>
    refine (ensures_reduceAnchors (fun a ha => iha a ha (e := false)) fun a ha p hpa =>
      hs.reduce (hp a ha p hpa).grounded).bind fun bs hbs => ?_
    refine (ensures_reduceAll fun f hf => ihe f hf (e := true)).bind fun gs hgs => ?_
    refine (ensures_inClauses hs hR hc).bind fun c hc => .pure ⟨.query hc.1 (fun b hb => ?_) ?_ (fun b hb q hq => ?_) ?_,
      ?_, hc.2.2⟩
    · obtain ⟨a, ha, hab⟩ := exists_of_forall₂ hbs hb
      rw [isSegment_eq, hab.1.result, ← isSegment_eq, hj a ha]
    · exact forall_mem_of_forall₂ hbs fun _ _ h => h.1.within
    · obtain ⟨a, ha, hab⟩ := exists_of_forall₂ hbs hb
      obtain ⟨p, hpa, hq⟩ := hab.2 q hq
      exact (hp a ha p hpa).domain ▸ hq
    · exact forall_mem_of_forall₂ hgs fun _ _ h => h.within
    · have hanchors := map_eq_map_of_forall₂ hbs fun _ _ h => h.1.offers.symm
      have hembedded := map_eq_map_of_forall₂ hgs fun _ _ h => h.offers.symm
      rw [offers, offers, anchorOffers_eq, anchorOffers_eq, allOffers_eq, allOffers_eq, hc.2.1, flatMap_def,
        flatMap_def, flatMap_def, flatMap_def, hanchors, hembedded]

end Phrases

lemma Replaces.covers (h : f.Replaces (f.offers false) false g s) :
    s.Covers (f.offers false) (g.offers false) where
  columns t ht := (h.kept _ ht).resolve_right fun ⟨_, _, hx⟩ => nomatch hx
  answers t ht := (h.kept _ ht).resolve_right fun ⟨_, _, hx⟩ => nomatch hx
  kept t ds ht hnone := by
    refine (h.kept _ ht).resolve_right fun ⟨y, hy, hx⟩ => ?_
    obtain ⟨rfl, _⟩ := Offer.items.inj hx
    simpa using lookup_eq_none_iff.1 hnone y hy
  gone t ds select ht hsome := (h.substitutes _ (Substitutes.mem_of_lookup hsome)).2 ds ht
  selects t select hsome := (h.substitutes _ (Substitutes.mem_of_lookup hsome)).1

lemma Scoped.reduced (h : f.Scoped (fun O p => p.Grounded O) []) (hn : f.tags.Nodup)
    (hb : f.BooleanConditions) :
    Ensures (fun g => g.result? = f.result? ∧ g.In (g.offers false)) f.reduced := by
  have hphrases := h.grounded false
  rw [append_nil] at hphrases
  have hf : f.In (f.offers false) := in_of_grounded (e := false) hn h hb hphrases fun x hx _ => hx
  refine (hf.collapse (e := false) (s := [])).bind fun r hr => ?_
  obtain ⟨new, hnew, hr⟩ := hr
  rw [append_nil] at hnew
  subst hnew
  refine (hr.within.reduceFrame (e := false) hr.covers hr.offered).imp fun k hk => ⟨?_, ?_⟩
  · rw [hk.result, hr.result]
  · rw [hk.offers]
    exact hk.within

end Reduction

end Frame

end NavQuery
