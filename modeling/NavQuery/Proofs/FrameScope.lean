import Mathlib.Data.List.Pairwise
import NavQuery.Frame.Reduce
import NavQuery.Proofs.FrameRows

/-!
A query sees the frames it joins and those around it. A join condition sees the frames up to its own, and
a subquery the subqueries before it; what a query with groups selects may read a row only inside an
aggregate, through a group phrase, or outside the query.
-/

namespace NavQuery

open List

namespace Phrase

def isRowScoped (R : Reach) (p : Phrase) : Bool := p.Within R && !p.hasAggregate

mutual

def isGroupScoped (R outer : Reach) (group : List Phrase) : Phrase → Bool
  | formula d n f as =>
    group.any (·.same (formula d n f as)) ||
      if f.isAggregate then as.all (isRowScoped R) else areGroupScoped R outer group as
  | cast d n p => group.any (·.same (cast d n p)) || isGroupScoped R outer group p
  | p => group.any (·.same p) || p.Within outer

def areGroupScoped (R outer : Reach) (group : List Phrase) : List Phrase → Bool
  | [] => true
  | p :: ps => isGroupScoped R outer group p && areGroupScoped R outer group ps

end

lemma areGroupScoped_eq (R outer : Reach) (group ps : List Phrase) :
    areGroupScoped R outer group ps = ps.all (isGroupScoped R outer group) :=
  eq_all_of_cons ps rfl fun _ _ => rfl

end Phrase

namespace Clauses

open Phrase

def isGrouped (c : Clauses) : Bool := c.isSummary || !c.group.isEmpty

def isScoped (c : Clauses) (R outer : Reach) : Bool :=
  c.filter.all (isRowScoped R) && c.group.all (isRowScoped R) && c.outputPhrases.all fun p =>
      p.Within R && (!c.isGrouped || isGroupScoped R outer c.group p)

def substitute (s : Substitutes) (c : Clauses) : Clauses :=
  { c with
    select := c.select.map (·.substitute s)
    filter := c.filter.map (·.substitute s)
    group := c.group.map (·.substitute s)
    having := c.having.map (·.substitute s)
    order := c.order.map fun i => (i.1.substitute s, i.2) }

@[simp] lemma substitute_nil (c : Clauses) : c.substitute [] = c := by
  simp [substitute]

lemma outputPhrases_substitute (s : Substitutes) (c : Clauses) :
    (c.substitute s).outputPhrases = c.outputPhrases.map (·.substitute s) := by
  cases h : c.having <;> simp [outputPhrases, substitute, h]

variable {s : Substitutes} {R outer : Reach} {c : Clauses}

lemma isSummary_substitute (hs : s.Plain) (c : Clauses) : (c.substitute s).isSummary = c.isSummary := by
  have hany : (c.outputPhrases.map (·.substitute s)).any (·.hasAggregate) =
      c.outputPhrases.any (·.hasAggregate) := by
    simp only [any_map, Function.comp_def, Substitutes.hasAggregate_substitute hs]
  rw [isSummary, outputPhrases_substitute, hany]
  simp [isSummary, substitute]

lemma within_of_isScoped (h : c.isScoped R outer) :
    (∀ p ∈ c.filter, p.Within R) ∧ (∀ p ∈ c.group, p.Within R) ∧ ∀ p ∈ c.outputPhrases, p.Within R := by
  simp only [isScoped, Bool.and_eq_true, all_eq_true, isRowScoped, decide_eq_true_eq,
    Option.all_eq_true] at h
  exact ⟨fun p hp => (h.1.1 p hp).1, fun p hp => (h.1.2 p hp).1, fun p hp => (h.2 p hp).1⟩

/-- Nothing is substituted in clauses that read none of the frames that are gone. -/
theorem substitute_eq_self (h : c.isScoped R outer) (hR : ∀ t ∈ R.tags, List.lookup t s = none) :
    c.substitute s = c := by
  obtain ⟨hfilter, hgroup, houtput⟩ := within_of_isScoped h
  have hself : ∀ p : Phrase, p.Within R → p.substitute s = p := fun p hp =>
    Substitutes.substitute_eq_self fun u hu => hR _ (hp.tag_mem hu)
  have hmap : ∀ ps : List Phrase, (∀ p ∈ ps, p.Within R) → ps.map (·.substitute s) = ps := by
    intro ps hps
    exact (map_congr_left fun p hp => hself p (hps p hp)).trans (map_id ps)
  have hoption : ∀ p : Option Phrase, (∀ q ∈ p, q.Within R) → p.map (·.substitute s) = p := by
    intro p hp
    cases p with
    | none => rfl
    | some p => exact congrArg some (hself p (hp p rfl))
  have horder : c.order.map (fun i => (i.1.substitute s, i.2)) = c.order := by
    refine (map_congr_left fun i hi => ?_).trans (map_id c.order)
    rw [hself i.1 (houtput _ (mem_outputPhrases.2 (.inr (.inr ⟨i, hi, rfl⟩))))]
    rfl
  rw [substitute, hmap c.select fun p hp => houtput p (mem_outputPhrases.2 (.inl hp)),
    hoption c.filter hfilter, hmap c.group hgroup,
    hoption c.having fun p hp => houtput p (mem_outputPhrases.2 (.inr (.inl hp))), horder]

end Clauses

namespace Frame

open Phrase

def exports : Frame → Reach
  | scalar _ => []
  | table t _ => [.columns t]
  | query c _ _ => [.items c.tag c.select.length]

def reachOf (anchors : List (Anchor Frame)) (R : Reach) : Reach :=
  anchors.foldl (fun R a => a.frame.exports ++ R) R

/-- Whether each condition reads the frames up to its own, where `extend` adds the subqueries that can
be used. -/
def areConditionsScoped (extend : Reach → Reach) : List (Anchor Frame) → Reach → Bool
  | [], _ => true
  | a :: as, R =>
    let R' := a.frame.exports ++ R
    a.condition.all (isRowScoped (extend R')) && areConditionsScoped extend as R'

mutual

def isScoped : Frame → Reach → Bool
  | scalar _, _ | table _ _, _ => true
  | query c anchors embedded, R =>
    areAnchorsScoped anchors R && areEmbeddedScoped embedded (reachOf anchors R) &&
      areConditionsScoped (answersWithin embedded) anchors R &&
      c.isScoped (answersWithin embedded (reachOf anchors R)) R

def areAnchorsScoped : List (Anchor Frame) → Reach → Bool
  | [], _ => true
  | a :: as, R => isAnchorScoped a R && areAnchorsScoped as R

def isAnchorScoped : Anchor Frame → Reach → Bool
  | ⟨f, _, _, _⟩, R => isScoped f R

def areEmbeddedScoped : List Frame → Reach → Bool
  | [], _ => true
  | f :: fs, R => isScoped f R && areEmbeddedScoped fs (.answer f.tag :: R)

/-- The reach with the subqueries that can be evaluated in it. One that cannot hides its tag. -/
def answersWithin : List Frame → Reach → Reach
  | [], R => R
  | f :: fs, R =>
    answersWithin fs (if isScoped f R then .answer f.tag :: R else R.filter (·.tag ≠ f.tag))

end

mutual

def tags : Frame → List Tag
  | scalar t | table t _ => [t]
  | query c anchors embedded => c.tag :: (anchorTags anchors ++ allTags embedded)

def anchorTags : List (Anchor Frame) → List Tag
  | [] => []
  | a :: as => tagsOfAnchor a ++ anchorTags as

def tagsOfAnchor : Anchor Frame → List Tag
  | ⟨f, _, _, _⟩ => tags f

def allTags : List Frame → List Tag
  | [] => []
  | f :: fs => tags f ++ allTags fs

end

mutual

/-- The frame with the selected phrases in place of the references to frames that are gone. -/
def substitute (s : Substitutes) : Frame → Frame
  | scalar t => scalar t
  | table n t => table n t
  | query c anchors embedded =>
    query (c.substitute s) (substituteAnchors s anchors) (substituteAll s embedded)

def substituteAnchors (s : Substitutes) : List (Anchor Frame) → List (Anchor Frame)
  | [] => []
  | a :: as => substituteAnchor s a :: substituteAnchors s as

def substituteAnchor (s : Substitutes) : Anchor Frame → Anchor Frame
  | ⟨f, condition, left, right⟩ => ⟨substitute s f, condition.map (·.substitute s), left, right⟩

def substituteAll (s : Substitutes) : List Frame → List Frame
  | [] => []
  | f :: fs => substitute s f :: substituteAll s fs

end

structure WellScoped (R : Reach) (f : Frame) : Prop where
  isScoped : f.isScoped R = true
  nodup : f.tags.Nodup
  disjoint : List.Disjoint f.tags R.tags

lemma areAnchorsScoped_eq (as : List (Anchor Frame)) (R : Reach) :
    areAnchorsScoped as R = as.all fun a => a.frame.isScoped R := by
  induction as with
  | nil => rfl
  | cons a as ih =>
    rw [areAnchorsScoped, ih]
    cases a
    rfl

lemma anchorTags_eq (as : List (Anchor Frame)) : anchorTags as = as.flatMap (·.frame.tags) := by
  induction as with
  | nil => rfl
  | cons a as ih =>
    rw [anchorTags, ih]
    cases a
    rfl

lemma allTags_eq (fs : List Frame) : allTags fs = fs.flatMap tags :=
  eq_flatMap_of_cons fs rfl fun _ _ => rfl

lemma substituteAnchor_eq (s : Substitutes) (a : Anchor Frame) : substituteAnchor s a =
      ⟨a.frame.substitute s, a.condition.map (·.substitute s), a.left, a.right⟩ := by
  cases a
  rfl

lemma substituteAnchors_eq (s : Substitutes) (as : List (Anchor Frame)) :
    substituteAnchors s as = as.map (substituteAnchor s) := eq_map_of_cons as rfl fun _ _ => rfl

lemma substituteAll_eq (s : Substitutes) (fs : List Frame) :
    substituteAll s fs = fs.map (substitute s) := eq_map_of_cons fs rfl fun _ _ => rfl

lemma substituteAnchors_append (s : Substitutes) (as bs : List (Anchor Frame)) :
    substituteAnchors s (as ++ bs) = substituteAnchors s as ++ substituteAnchors s bs := by
  simp only [substituteAnchors_eq, map_append]

lemma substituteAll_append (s : Substitutes) (fs gs : List Frame) :
    substituteAll s (fs ++ gs) = substituteAll s fs ++ substituteAll s gs := by
  simp only [substituteAll_eq, map_append]

@[simp] lemma tag_substitute (s : Substitutes) (f : Frame) : (f.substitute s).tag = f.tag := by
  cases f <;> rfl

lemma tag_mem_tags (f : Frame) : f.tag ∈ f.tags := by
  cases f <;> simp [tag, tags]

variable {x : Export} {t : Tag} {R : Reach} {fs : List Frame} {f : Frame} {as : List (Anchor Frame)}

lemma of_mem_exports (h : x ∈ f.exports) : x.tag = f.tag ∧ x ≠ .answer f.tag := by
  cases f <;> simp_all [exports, Export.tag, tag]

lemma mem_tags_exports_append (h : t ∈ Reach.tags (f.exports ++ R)) : t = f.tag ∨ t ∈ R.tags := by
  obtain ⟨x, hx, rfl⟩ := mem_map.1 h
  exact (mem_append.1 hx).imp (fun hx => (of_mem_exports hx).1) mem_map_of_mem

lemma mem_reachOf : x ∈ reachOf as R ↔ (∃ a ∈ as, x ∈ a.frame.exports) ∨ x ∈ R := by
  unfold reachOf
  induction as generalizing R with
  | nil => simp
  | cons a as ih =>
    rw [foldl_cons, ih, mem_append]
    simp only [mem_cons, exists_eq_or_imp]
    exact or_left_comm.trans or_assoc.symm

lemma subset_reachOf (as : List (Anchor Frame)) (R : Reach) : R ⊆ reachOf as R :=
  fun _ hx => mem_reachOf.2 (.inr hx)

lemma mem_tags_reachOf
    (h : t ∈ Reach.tags (reachOf as R)) : (∃ a ∈ as, t = a.frame.tag) ∨ t ∈ R.tags := by
  obtain ⟨x, hx, rfl⟩ := mem_map.1 h
  refine (mem_reachOf.1 hx).imp (fun ⟨a, ha, hx⟩ => ?_) mem_map_of_mem
  exact ⟨a, ha, (of_mem_exports hx).1⟩

lemma mem_answersWithin (h : x ∈ answersWithin fs R) : (∃ f ∈ fs, x = .answer f.tag) ∨ x ∈ R := by
  induction fs generalizing R with
  | nil => exact .inr h
  | cons f fs ih =>
    rcases ih h with ⟨g, hg, hx⟩ | hx
    · exact .inl ⟨g, mem_cons_of_mem f hg, hx⟩
    · split at hx
      · exact (mem_cons.1 hx).imp (fun h => ⟨f, mem_cons_self, h⟩) id
      · exact .inr (mem_filter.1 hx).1

lemma mem_tags_answersWithin
    (h : t ∈ Reach.tags (answersWithin fs R)) : (∃ f ∈ fs, t = f.tag) ∨ t ∈ R.tags := by
  obtain ⟨x, hx, rfl⟩ := mem_map.1 h
  refine (mem_answersWithin hx).imp ?_ mem_map_of_mem
  rintro ⟨f, hf, rfl⟩
  exact ⟨f, hf, rfl⟩

/-- Each subquery sees at most the subqueries beside it. -/
theorem exists_isScoped_of_mem (h : areEmbeddedScoped fs R) : ∀ f ∈ fs, ∃ R' : Reach, f.isScoped R' ∧
      ∀ t ∈ R'.tags, (∃ g ∈ fs, t = g.tag) ∨ t ∈ R.tags := by
  induction fs generalizing R with
  | nil => simp
  | cons f fs ih =>
    rw [areEmbeddedScoped, Bool.and_eq_true] at h
    rw [forall_mem_cons]
    refine ⟨⟨R, h.1, fun t ht => .inr ht⟩, fun g hg => ?_⟩
    obtain ⟨R', hscoped, htags⟩ := ih h.2 g hg
    refine ⟨R', hscoped, fun t ht => ?_⟩
    rcases htags t ht with ⟨k, hk, heq⟩ | ht
    · exact .inl ⟨k, mem_cons_of_mem f hk, heq⟩
    · exact (mem_cons.1 ht).imp (fun heq => ⟨f, mem_cons_self, heq⟩) id

section Unaffected

variable {s : Substitutes} {R : Reach}

lemma conditions_substitute_eq_self {extend : Reach → Reach}
    (hextend : ∀ R : Reach, (∀ t ∈ R.tags, s.lookup t = none) →
      ∀ t ∈ (extend R).tags, s.lookup t = none)
    {as : List (Anchor Frame)} (has : ∀ a ∈ as, s.lookup a.frame.tag = none)
    (hR : ∀ t ∈ R.tags, s.lookup t = none) (h : areConditionsScoped extend as R) :
    ∀ a ∈ as, a.condition.map (·.substitute s) = a.condition := by
  induction as generalizing R with
  | nil => simp
  | cons a as ih =>
    rw [areConditionsScoped, Bool.and_eq_true] at h
    rw [forall_mem_cons] at has ⊢
    have hR' : ∀ t ∈ Reach.tags (a.frame.exports ++ R), s.lookup t = none := fun t ht =>
      (mem_tags_exports_append ht).elim (fun heq => heq ▸ has.1) (hR t)
    refine ⟨?_, ih has.2 hR' h.2⟩
    cases hcondition : a.condition with
    | none => rfl
    | some p =>
      rw [hcondition] at h
      have hw : p.Within _ := of_decide_eq_true (Bool.and_eq_true_iff.1 h.1).1
      exact congrArg some (Substitutes.substitute_eq_self fun u hu =>
        hextend _ hR' _ (hw.tag_mem hu))

lemma substitute_eq_self (f : Frame) (htags : ∀ t ∈ f.tags.tail, s.lookup t = none) (hf : f.isScoped R) (hR : ∀ t ∈ R.tags, s.lookup t = none) :
    f.substitute s = f := by
  induction f generalizing R with
  | scalar | table => rfl
  | query c anchors embedded iha ihe =>
    simp only [isScoped, Bool.and_eq_true, areAnchorsScoped_eq, all_eq_true] at hf
    obtain ⟨⟨⟨hanchors, hembedded⟩, hconditions⟩, hc⟩ := hf
    simp only [tags, tail_cons, anchorTags_eq, allTags_eq, mem_append, mem_flatMap] at htags
    have htaga : ∀ a ∈ anchors, ∀ t ∈ a.frame.tags, s.lookup t = none := fun a ha t ht =>
      htags t (.inl ⟨a, ha, ht⟩)
    have htage : ∀ f ∈ embedded, ∀ t ∈ f.tags, s.lookup t = none := fun f hf t ht =>
      htags t (.inr ⟨f, hf, ht⟩)
    have hanswers : ∀ R : Reach, (∀ t ∈ R.tags, s.lookup t = none) →
        ∀ t ∈ (answersWithin embedded R).tags, s.lookup t = none := fun R hR t ht =>
      (mem_tags_answersWithin ht).elim (fun ⟨f, hf, heq⟩ => heq ▸ htage f hf _ f.tag_mem_tags) (hR t)
    have hreach : ∀ t ∈ (reachOf anchors R).tags, s.lookup t = none := fun t ht =>
      (mem_tags_reachOf ht).elim (fun ⟨a, ha, heq⟩ => heq ▸ htaga a ha _ a.frame.tag_mem_tags) (hR t)
    have hself : substituteAnchors s anchors = anchors := by
      rw [substituteAnchors_eq]
      refine (map_congr_left fun a ha => ?_).trans (map_id anchors)
      rw [substituteAnchor_eq, iha a ha (fun t ht => htaga a ha t (mem_of_mem_tail ht))
        (hanchors a ha) hR, conditions_substitute_eq_self hanswers
          (fun a ha => htaga a ha _ a.frame.tag_mem_tags) hR hconditions a ha]
      rfl
    have hall : substituteAll s embedded = embedded := by
      rw [substituteAll_eq]
      refine (map_congr_left fun f hf => ?_).trans (map_id embedded)
      obtain ⟨R', hscoped, htags'⟩ := exists_isScoped_of_mem hembedded f hf
      refine ihe f hf (fun t ht => htage f hf t (mem_of_mem_tail ht)) hscoped fun t ht => ?_
      rcases htags' t ht with ⟨g, hg, rfl⟩ | ht
      · exact htage g hg _ g.tag_mem_tags
      · exact hreach t ht
    rw [substitute, hself, hall, Clauses.substitute_eq_self hc (hanswers _ hreach)]

end Unaffected

section Tags

variable {c : Clauses} {anchors : List (Anchor Frame)} {embedded : List Frame}

lemma nodup_tags_of_query (hn : (query c anchors embedded).tags.Nodup) :
    (∀ a ∈ anchors, a.frame.tags.Nodup) ∧ ∀ f ∈ embedded, f.tags.Nodup := by
  rw [tags, nodup_cons, nodup_append', anchorTags_eq, allTags_eq] at hn
  exact ⟨(nodup_flatMap.1 hn.2.1).1, (nodup_flatMap.1 hn.2.2.1).1⟩

lemma disjoint_tags_of_query {a : Anchor Frame} {f : Frame} (hn : (query c anchors embedded).tags.Nodup)
    (ha : a ∈ anchors) (hf : f ∈ embedded) : a.frame.tags.Disjoint f.tags := by
  rw [tags, nodup_cons, nodup_append', anchorTags_eq, allTags_eq] at hn
  exact fun t hta htf => hn.2.2.2 (mem_flatMap.2 ⟨a, ha, hta⟩) (mem_flatMap.2 ⟨f, hf, htf⟩)

variable (c anchors embedded) in
lemma tags_subset_of_query : (∀ a ∈ anchors, a.frame.tags ⊆ (query c anchors embedded).tags) ∧
      ∀ f ∈ embedded, f.tags ⊆ (query c anchors embedded).tags := by
  rw [tags, anchorTags_eq, allTags_eq]
  exact ⟨fun a ha t ht => .tail _ (mem_append_left _ (mem_flatMap.2 ⟨a, ha, ht⟩)),
    fun f hf t ht => .tail _ (mem_append_right _ (mem_flatMap.2 ⟨f, hf, ht⟩))⟩

end Tags

namespace WellScoped

variable {R : Reach} {c : Clauses} {anchors : List (Anchor Frame)} {embedded : List Frame}

lemma anchor (h : (query c anchors embedded).WellScoped R) : ∀ a ∈ anchors, a.frame.WellScoped R := by
  intro a ha
  have hscoped := h.isScoped
  simp only [Frame.isScoped, Bool.and_eq_true, areAnchorsScoped_eq, all_eq_true] at hscoped
  exact ⟨hscoped.1.1.1 a ha, (nodup_tags_of_query h.nodup).1 a ha,
    fun _ ht => h.disjoint ((tags_subset_of_query c anchors embedded).1 a ha ht)⟩

lemma pairwise (h : (query c anchors embedded).WellScoped R) :
    anchors.Pairwise fun a b => List.Disjoint a.frame.tags b.frame.tags := by
  have hnodup := h.nodup
  rw [tags, nodup_cons, nodup_append, anchorTags_eq, nodup_flatMap] at hnodup
  exact hnodup.2.1.2

lemma not_mem_reachOf {bs : List (Anchor Frame)} (h : (query c (anchors ++ bs) embedded).WellScoped R) :
    ∀ b ∈ bs, ∀ t ∈ b.frame.tags, t ∉ (reachOf anchors R).tags := by
  intro b hb t ht hx
  have hpairwise := pairwise_append.1 h.pairwise
  rcases mem_tags_reachOf hx with ⟨a, ha, rfl⟩ | hx
  · exact hpairwise.2.2 a ha b hb a.frame.tag_mem_tags ht
  · exact (h.anchor b (mem_append_right _ hb)).disjoint ht hx

lemma eq_of_mem_tags (h : (query c anchors embedded).WellScoped R) {a b : Anchor Frame}
    (ha : a ∈ anchors) (hb : b ∈ anchors) {t : Tag} (hta : t ∈ a.frame.tags)
    (htb : t ∈ b.frame.tags) : a = b := by
  have : Std.Symm fun a b : Anchor Frame => List.Disjoint a.frame.tags b.frame.tags :=
    ⟨fun _ _ h => h.symm⟩
  by_contra hne
  exact h.pairwise.forall ha hb hne hta htb

lemma disjoint_embedded (h : (query c anchors embedded).WellScoped R) :
    ∀ a ∈ anchors, ∀ f ∈ embedded, List.Disjoint a.frame.tags f.tags := fun _ ha _ hf =>
  disjoint_tags_of_query h.nodup ha hf

lemma embedded_disjoint (h : (query c anchors embedded).WellScoped R) :
    ∀ f ∈ embedded, List.Disjoint f.tags R.tags := fun f hf _ ht =>
  h.disjoint ((tags_subset_of_query c anchors embedded).2 f hf ht)

lemma conditions (h : (query c anchors embedded).WellScoped R) :
    areConditionsScoped (answersWithin embedded) anchors R := by
  have hscoped := h.isScoped
  simp only [Frame.isScoped, Bool.and_eq_true] at hscoped
  exact hscoped.1.2

lemma clauses (h : (query c anchors embedded).WellScoped R) :
    c.isScoped (answersWithin embedded (reachOf anchors R)) R := by
  have hscoped := h.isScoped
  simp only [Frame.isScoped, Bool.and_eq_true] at hscoped
  exact hscoped.2

end WellScoped

end Frame

end NavQuery
