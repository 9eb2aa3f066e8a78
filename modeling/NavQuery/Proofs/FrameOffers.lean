import NavQuery.Proofs.FrameScope
import NavQuery.Proofs.GroundedPhrases
import NavQuery.Proofs.Slots

/-!
`Frame.Scoped` says that a query reads nothing but what its joined and embedded frames offer and what the
query around it sees. `Frame.offers` is all that is offered in a statement, wherever it is. What holds of
collapsing or reducing each frame of a query holds place by place for the lists of frames.
-/

namespace NavQuery

open List Phrase

namespace Clauses

/-- What a query offers: its value where it is embedded, and its select items where it is joined. -/
def offer (c : Clauses) (isEmbedded : Bool) : List Offer :=
  if isEmbedded then [.answer c.tag]
  else if c.role = .segment then [] else [.items c.tag (c.select.map domain)]

lemma mem_phrases {c : Clauses} {p : Phrase} : p ∈ c.phrases ↔
      p ∈ c.select ∨ p ∈ c.filter ∨ p ∈ c.group ∨ p ∈ c.having ∨ ∃ i ∈ c.order, p = i.1 := by
  simp only [phrases, mem_append, mem_map, Option.mem_toList, Option.mem_def, or_assoc, eq_comm (a := p)]

lemma forall_mem_phrases {c : Clauses} {P : Phrase → Prop} :
    (∀ p ∈ c.phrases, P p) ↔ (∀ p ∈ c.select, P p) ∧ (∀ p ∈ c.filter, P p) ∧ (∀ p ∈ c.group, P p) ∧
      (∀ p ∈ c.having, P p) ∧ ∀ i ∈ c.order, P i.1 := by
  simp only [mem_phrases, or_imp, forall_and]
  exact and_congr_right fun _ => and_congr_right fun _ => and_congr_right fun _ => and_congr_right fun _ =>
    ⟨fun h i hi => h i.1 ⟨i, hi, rfl⟩, fun h p ⟨i, hi, hp⟩ => hp ▸ h i hi⟩

def BooleanConditions (c : Clauses) : Prop := ∀ p, p ∈ c.filter ∨ p ∈ c.having → p.domain = .boolean

lemma BooleanConditions.of_none {c : Clauses} (hf : c.filter = none) (hh : c.having = none) :
    c.BooleanConditions := by
  intro p hp
  rw [hf, hh] at hp
  exact nomatch or_self_iff.1 hp
end Clauses

namespace Frame

def offer (isEmbedded : Bool) : Frame → List Offer
  | scalar _ => []
  | table t _ => [.columns t]
  | query c _ _ => c.offer isEmbedded

def anchorOffer (anchors : List (Anchor Frame)) : List Offer :=
  anchors.flatMap fun a => a.frame.offer false

def answersOf (embedded : List Frame) : List Offer := embedded.flatMap (·.offer true)

/-- The phrases have a property with regard to what they see: the frames that are joined, up to its own for
a condition, the embedded ones, and what is seen around the frame. Segments are not joined to anything,
and select lists are not empty. -/
inductive Scoped (P : List Offer → Phrase → Prop) : List Offer → Frame → Prop
  | scalar {O : List Offer} {t : Tag} : Scoped P O (.scalar t)
  | table {O : List Offer} {n : Tag} {t : Table} : Scoped P O (.table n t)
  | query {O : List Offer} {c : Clauses} {anchors : List (Anchor Frame)} {embedded : List Frame}
    (hselect : c.select ≠ [])
    (hsources : ∀ a ∈ anchors, a.frame.isSegment = false)
    (hanchors : ∀ a ∈ anchors, a.frame.Scoped P O)
    (hconditions : ∀ before a after, anchors = before ++ a :: after → ∀ p ∈ a.condition,
      P (anchorOffer (before ++ [a]) ++ answersOf embedded ++ O) p)
    (hembedded : ∀ f ∈ embedded, f.Scoped P (anchorOffer anchors ++ O))
    (hphrases : ∀ p ∈ c.phrases, P (anchorOffer anchors ++ answersOf embedded ++ O) p) :
    Scoped P O (.query c anchors embedded)

lemma Scoped.imp {P Q : List Offer → Phrase → Prop} (hPQ : ∀ O p, P O p → Q O p) {O : List Offer}
    {f : Frame} (h : f.Scoped P O) : f.Scoped Q O := by
  induction h with
  | scalar => exact .scalar
  | table => exact .table
  | query hselect hsources _ hconditions _ hphrases iha ihe =>
    exact .query hselect hsources iha (fun b a c hs p hp => hPQ _ p (hconditions b a c hs p hp)) ihe
      fun p hp => hPQ _ p (hphrases p hp)

inductive BooleanConditions : Frame → Prop
  | scalar {t : Tag} : BooleanConditions (.scalar t)
  | table {n : Tag} {t : Table} : BooleanConditions (.table n t)
  | query {c : Clauses} {anchors : List (Anchor Frame)} {embedded : List Frame} (hc : c.BooleanConditions)
    (ha : ∀ a ∈ anchors, a.frame.BooleanConditions)
    (hp : ∀ a ∈ anchors, ∀ p ∈ a.condition, p.domain = .boolean)
    (he : ∀ f ∈ embedded, f.BooleanConditions) : BooleanConditions (.query c anchors embedded)

mutual

def offers : Frame → Bool → List Offer
  | scalar _, _ => []
  | table t _, _ => [.columns t]
  | query c anchors embedded, isEmbedded =>
    c.offer isEmbedded ++ (anchorOffers anchors ++ allOffers embedded)

def anchorOffers : List (Anchor Frame) → List Offer
  | [] => []
  | a :: as => offersOfAnchor a ++ anchorOffers as

def offersOfAnchor : Anchor Frame → List Offer
  | ⟨f, _, _, _⟩ => offers f false

def allOffers : List Frame → List Offer
  | [] => []
  | f :: fs => offers f true ++ allOffers fs

end

lemma anchorOffers_eq (as : List (Anchor Frame)) :
    anchorOffers as = as.flatMap fun a => a.frame.offers false := by
  induction as with
  | nil => rfl
  | cons a as ih =>
    rw [anchorOffers, ih]
    cases a
    rfl

lemma allOffers_eq (fs : List Frame) : allOffers fs = fs.flatMap (·.offers true) :=
  eq_flatMap_of_cons fs rfl fun _ _ => rfl

lemma offer_subset_offers (f : Frame) (isEmbedded : Bool) : f.offer isEmbedded ⊆ f.offers isEmbedded := by
  cases f with
  | scalar | table => exact List.Subset.refl _
  | query c anchors embedded => exact subset_append_left _ _

lemma mem_offers_query {c : Clauses} {anchors : List (Anchor Frame)} {embedded : List Frame} {e : Bool}
    {x : Offer} : x ∈ (query c anchors embedded).offers e ↔
      x ∈ c.offer e ∨ (∃ a ∈ anchors, x ∈ a.frame.offers false) ∨ ∃ f ∈ embedded, x ∈ f.offers true := by
  simp only [offers, anchorOffers_eq, allOffers_eq, mem_append, mem_flatMap]

section Grounding

variable [Discipline] {O : List Offer} {f : Frame}

lemma Scoped.grounded (h : f.Scoped (fun O p => p.Grounded O) O) (isEmbedded : Bool) :
    ∀ p ∈ f.phrases, p.Grounded (f.offers isEmbedded ++ O) := by
  induction h generalizing isEmbedded with
  | scalar | table => exact nofun
  | @query O c anchors embedded _ _ _ hconditions _ hphrases iha ihe =>
    intro p hp
    have hjoined {a : Anchor Frame} (ha : a ∈ anchors) : a.frame.offers false ⊆
        (Frame.query c anchors embedded).offers isEmbedded ++ O :=
      fun o ho => mem_append_left _ (mem_offers_query.2 (.inr (.inl ⟨a, ha, ho⟩)))
    have hdeep {f : Frame} (hf : f ∈ embedded) : f.offers true ⊆
        (Frame.query c anchors embedded).offers isEmbedded ++ O :=
      fun o ho => mem_append_left _ (mem_offers_query.2 (.inr (.inr ⟨f, hf, ho⟩)))
    have hseen {as : List (Anchor Frame)} (has : as ⊆ anchors) :
        anchorOffer as ⊆ (Frame.query c anchors embedded).offers isEmbedded ++ O := fun o ho => by
      obtain ⟨a, ha, ho⟩ := mem_flatMap.1 ho
      exact hjoined (has ha) (offer_subset_offers _ _ ho)
    have hanswers : answersOf embedded ⊆ (Frame.query c anchors embedded).offers isEmbedded ++ O :=
      fun o ho => by
        obtain ⟨f, hf, ho⟩ := mem_flatMap.1 ho
        exact hdeep hf (offer_subset_offers _ _ ho)
    have haround := subset_append_right ((Frame.query c anchors embedded).offers isEmbedded) O
    have hall {as : List (Anchor Frame)} (has : as ⊆ anchors) := append_subset.2
      ⟨append_subset.2 ⟨hseen has, hanswers⟩, haround⟩
    rcases mem_phrases_query.1 hp with hp | ⟨a, ha, hp | hc⟩ | ⟨f, hf, hp⟩
    · exact (hphrases p hp).mono (hall (List.Subset.refl _))
    · exact (iha a ha false p hp).mono (append_subset.2 ⟨hjoined ha, haround⟩)
    · obtain ⟨before, after, rfl⟩ := append_of_mem ha
      refine (hconditions before a after rfl p hc).mono (hall (append_subset.2 ⟨?_, ?_⟩))
      · exact subset_append_left _ _
      · exact cons_subset.2 ⟨mem_append_right _ mem_cons_self, nil_subset _⟩
    · exact (ihe f hf true p hp).mono (append_subset.2 ⟨hdeep hf, append_subset.2
        ⟨hseen (List.Subset.refl _), haround⟩⟩)

end Grounding

end Frame

/-- Clauses whose phrases stand in the places of others. -/
structure Clauses.Follows (Q : Phrase → Phrase → Prop) (c d : Clauses) : Prop where
  select : Forall₂ Q c.select d.select
  filter : ∀ q ∈ d.filter, ∃ p ∈ c.filter, Q p q
  group : ∀ q ∈ d.group, ∃ p ∈ c.group, Q p q
  having : ∀ q ∈ d.having, ∃ p ∈ c.having, Q p q
  order : ∀ i ∈ d.order, ∃ j ∈ c.order, Q j.1 i.1
  tag : d.tag = c.tag
  role : d.role = c.role
  outputs : d.outputs = c.outputs

lemma Clauses.Follows.forall_mem_phrases {Q : Phrase → Phrase → Prop} {P : Phrase → Prop} {c d : Clauses}
    (h : c.Follows Q d) (hP : ∀ p q, Q p q → P q) : ∀ q ∈ d.phrases, P q := by
  have hexists {ps : Phrase → Prop} {q : Phrase} (hq : ∃ p, ps p ∧ Q p q) : P q :=
    hq.elim fun p hp => hP p q hp.2
  exact Clauses.forall_mem_phrases.2 ⟨forall_mem_of_forall₂ h.select hP, fun q hq => hexists (h.filter q hq),
    fun q hq => hexists (h.group q hq), fun q hq => hexists (h.having q hq), fun i hi =>
      (h.order i hi).elim fun j hj => hP j.1 i.1 hj.2⟩

structure Clauses.IsBare (c : Clauses) : Prop where
  filter : c.filter = none
  group : c.group = []
  having : c.having = none
  order : c.order = []
  limit : c.limit = none
  offset : c.offset = none

namespace Frame

lemma unwrapped?_eq_some {f g : Frame} {t : Tag} {select : List Phrase}
    (h : f.unwrapped? = some (g, t, select)) :
    ∃ c n table p l r, f = .query c [⟨.table n table, p, l, r⟩] [] ∧ g = .table n table ∧
      t = c.tag ∧ select = c.select ∧ c.role = .nested ∧ c.IsBare := by
  unfold unwrapped? at h
  split at h
  · rename_i c n table p l r
    split at h
    · rename_i hc
      simp only [Bool.and_eq_true, decide_eq_true_eq, Option.isNone_iff_eq_none, List.isEmpty_iff, Clauses.isSliced,
        Bool.not_eq_true', Bool.or_eq_false_iff, Option.isSome_eq_false_iff] at hc
      obtain ⟨⟨⟨⟨⟨hrole, hfilter⟩, hgroup⟩, hhaving⟩, horder⟩, hlimit, hoffset⟩ := hc
      obtain ⟨rfl, rfl, rfl⟩ := by simpa using h
      exact ⟨c, n, table, p, l, r, rfl, rfl, rfl, rfl, hrole,
        ⟨hfilter, hgroup, hhaving, horder, hlimit, hoffset⟩⟩
    · simp at h
  · simp at h

section Collapsing

/-- What a step of collapsing records comes on top of what was recorded before. -/
def Recorded {α : Type} (P : α → Substitutes → Prop) (s : Substitutes) (r : α × Substitutes) : Prop :=
  ∃ new, r.2 = new ++ s ∧ P r.1 new

/-- Items in the places of others, with what was recorded for each. -/
inductive Gathered {α : Type} (I : α → α → Substitutes → Prop) : List α → List α → Substitutes → Prop
  | nil : Gathered I [] [] []
  | cons {a b : α} {as bs : List α} {s s' : Substitutes} (h : I a b s) (hs : Gathered I as bs s') :
    Gathered I (a :: as) (b :: bs) (s' ++ s)

def KeepsCondition (I : Frame → Frame → Substitutes → Prop) (a b : Anchor Frame) (s : Substitutes) : Prop :=
  I a.frame b.frame s ∧ b.condition = a.condition

variable {I : Frame → Frame → Substitutes → Prop} {as bs : List (Anchor Frame)} {fs : List Frame}
  {s s₀ : Substitutes}

lemma Gathered.frames (h : Gathered (KeepsCondition I) as bs s) :
    Gathered I (as.map (·.frame)) (bs.map (·.frame)) s := by
  induction h with
  | nil => exact .nil
  | cons h _ ih => exact .cons h.1 ih

lemma Gathered.conditions (h : Gathered (KeepsCondition I) as bs s) :
    bs.map (·.condition) = as.map (·.condition) := by
  induction h with
  | nil => rfl
  | cons h _ ih => rw [map_cons, map_cons, h.2, ih]

lemma forall_conditions {P : Phrase → Prop} (h : bs.map (·.condition) = as.map (·.condition))
    (ha : ∀ a ∈ as, ∀ p ∈ a.condition, P p) : ∀ b ∈ bs, ∀ p ∈ b.condition, P p := by
  have hall : ∀ o ∈ as.map (·.condition), ∀ p ∈ o, P p := forall_mem_map.2 ha
  rw [← h] at hall
  exact forall_mem_map.1 hall

lemma gathered_unwrapAnchors (hrefl : ∀ a ∈ as, I a.frame a.frame [])
    (hunwrap : ∀ a ∈ as, ∀ g entry, a.frame.unwrapped? = some (g, entry) → I a.frame g [entry]) :
    Gathered (KeepsCondition I) as (unwrapAnchors as).1 (unwrapAnchors as).2 := by
  induction as with
  | nil => exact .nil
  | cons a as ih =>
    rw [forall_mem_cons] at hrefl hunwrap
    have hrest := ih hrefl.2 hunwrap.2
    unfold unwrapAnchors
    dsimp only
    split
    next g entry hg => exact .cons ⟨hunwrap.1 g entry hg, rfl⟩ hrest
    next =>
      have hall := hrest.cons (a := a) (b := a) ⟨hrefl.1, rfl⟩
      rwa [append_nil] at hall

variable [Discipline]

lemma ensures_collapseAll (h : ∀ f ∈ fs, ∀ s, Ensures (Recorded (I f) s) (f.collapse s)) :
    Ensures (Recorded (Gathered I fs) s) (collapseAll fs s) := by
  induction fs generalizing s with
  | nil => exact ⟨[], rfl, .nil⟩
  | cons f fs ih =>
    rw [forall_mem_cons] at h
    refine (h.1 s).run_bind fun g m hg => (ih h.2).run_bind fun gs m' hgs => .run_pure ?_
    obtain ⟨new, rfl, hg⟩ : ∃ new, m = new ++ s ∧ I f g new := hg
    obtain ⟨more, rfl, hgs⟩ : ∃ more, m' = more ++ (new ++ s) ∧ Gathered I fs gs more := hgs
    exact ⟨more ++ new, (append_assoc _ _ _).symm, .cons hg hgs⟩

lemma ensures_collapseAnchors (h : ∀ a ∈ as, ∀ s, Ensures (Recorded (I a.frame) s) (a.frame.collapse s)) :
    Ensures (Recorded (Gathered (KeepsCondition I) as) s) (collapseAnchors as s) := by
  induction as generalizing s with
  | nil => exact ⟨[], rfl, .nil⟩
  | cons a as ih =>
    rw [forall_mem_cons] at h
    obtain ⟨f, condition, left, right⟩ := a
    rw [collapseAnchors, collapseAnchor, bind_assoc]
    refine (h.1 s).run_bind fun g m hg => ?_
    rw [pure_bind]
    refine (ih h.2).run_bind fun bs m' hbs => .run_pure ?_
    obtain ⟨new, rfl, hg⟩ : ∃ new, m = new ++ s ∧ I f g new := hg
    obtain ⟨more, rfl, hbs⟩ : ∃ more, m' = more ++ (new ++ s) ∧ Gathered _ as bs more := hbs
    exact ⟨more ++ new, (append_assoc _ _ _).symm, .cons ⟨hg, rfl⟩ hbs⟩

def Absorption.Holds (P : Frame → Substitutes → Prop) (s : Substitutes) : Absorption → Prop
  | .finished q => P q.frame s
  | .absorbed q new => P q.frame (new ++ s)

variable {P : Frame → Substitutes → Prop} {p : Parts}
  (hhead : ∀ {p s}, P (Parts.frame p) s → Ensures (Absorption.Holds P s) (absorbHead p))
include hhead

lemma ensures_absorbAll (n : Nat) (hp : P p.frame s) :
    Ensures (Recorded (fun q => P (Parts.frame q)) s₀) (absorbAll n p (s ++ s₀)) := by
  induction n generalizing p s with
  | zero => exact ⟨s, rfl, hp⟩
  | succ n ih =>
    refine (hhead hp).lift_bind fun a ha => ?_
    cases a with
    | finished q => exact ⟨s, rfl, ha⟩
    | absorbed q new =>
      have hrest := ih (p := q) (s := new ++ s) ha
      rwa [append_assoc] at hrest

/-- What absorbing the first frame and unwrapping the others keep, merging keeps. -/
theorem ensures_collapseParts
    (hunwrap : ∀ {c first rest embedded s}, P (.query c (first :: rest) embedded) s →
      P (.query c (first :: (unwrapAnchors rest).1) embedded) ((unwrapAnchors rest).2 ++ s))
    (hp : P p.frame s) : Ensures (Recorded P s₀) (collapseParts p (s ++ s₀)) := by
  refine (ensures_absorbAll hhead _ hp).run_bind fun q m hq => ?_
  obtain ⟨new, rfl, hq⟩ : ∃ new, m = new ++ s₀ ∧ P q.frame new := hq
  obtain ⟨c, anchors, embedded⟩ := q
  cases anchors with
  | nil => exact ⟨new, rfl, hq⟩
  | cons first rest => exact ⟨_, (append_assoc _ _ _).symm, hunwrap hq⟩

end Collapsing

section Reducing

lemma mem_of_mem_unlessTrue {o : Option Phrase} {p : Phrase} (h : p ∈ unlessTrue o) : p ∈ o := by
  unfold unlessTrue at h
  split at h
  next =>
    split at h
    · cases h
    · exact h
  next => exact h

variable [Discipline] {R : Frame → Frame → Prop} {Q : Phrase → Phrase → Prop} {s : Substitutes}

lemma ensures_reduceOption {o : Option Phrase} (h : ∀ p ∈ o, Ensures (Q p) (s.reduce p)) :
    Ensures (fun o' => ∀ q ∈ o', ∃ p ∈ o, Q p q) (o.mapM s.reduce) := by
  cases o with
  | none => exact nofun
  | some p => exact (h p rfl).bind fun q hq => .pure fun a ha => ⟨p, rfl, Option.mem_some.1 ha ▸ hq⟩

lemma ensures_reduceClauses {c : Clauses} (h : ∀ p ∈ c.phrases, Ensures (Q p) (s.reduce p)) :
    Ensures (c.Follows Q) (reduceClauses s c) := by
  obtain ⟨hselect, hfilter, hgroup, hhaving, horder⟩ := Clauses.forall_mem_phrases.1 h
  refine (Ensures.mapM_forall₂ hselect).bind fun select hselect => ?_
  refine (ensures_reduceOption hfilter).bind fun filter hfilter => ?_
  refine (Ensures.mapM_exists hgroup).bind fun group hgroup => ?_
  refine (ensures_reduceOption hhaving).bind fun having hhaving => ?_
  refine (Ensures.mapM_exists (R := fun j i : SortItem => Q j.1 i.1) fun i hi => (horder i hi).bind
    fun p hp => .pure (a := (p, i.2)) hp).bind fun order horder => .pure ⟨hselect, ?_, ?_, ?_, ?_, rfl, rfl, rfl⟩
  · exact fun q hq => hfilter q (mem_of_mem_unlessTrue hq)
  · exact fun q hq => hgroup q (mem_of_mem_filter hq)
  · exact fun q hq => hhaving q (mem_of_mem_unlessTrue hq)
  · exact fun i hi => horder i (mem_of_mem_filter hi)

lemma ensures_reduceAll {fs : List Frame} (h : ∀ f ∈ fs, Ensures (R f) (reduceFrame s f)) :
    Ensures (Forall₂ R fs) (reduceAll s fs) := by
  induction fs with
  | nil => exact .nil
  | cons f fs ih =>
    rw [forall_mem_cons] at h
    exact h.1.bind fun g hg => (ih h.2).bind fun gs hgs => .cons hg hgs

lemma ensures_reduceAnchors {as : List (Anchor Frame)}
    (h : ∀ a ∈ as, Ensures (R a.frame) (reduceFrame s a.frame))
    (hp : ∀ a ∈ as, ∀ p ∈ a.condition, Ensures (Q p) (s.reduce p)) :
    Ensures (Forall₂ (fun a b => R a.frame b.frame ∧ ∀ q ∈ b.condition, ∃ p ∈ a.condition, Q p q) as)
      (reduceAnchors s as) := by
  induction as with
  | nil => exact .nil
  | cons a as ih =>
    rw [forall_mem_cons] at h hp
    obtain ⟨f, condition, left, right⟩ := a
    refine (h.1.bind fun g hg => (ensures_reduceOption hp.1).bind fun q hq => .pure ⟨hg, ?_⟩).bind
      fun b hb => (ih h.2 hp.2).bind fun bs hbs => .pure (.cons hb hbs)
    split
    · exact hq
    · exact fun r hr => hq r (mem_of_mem_unlessTrue hr)

end Reducing

end Frame

end NavQuery
