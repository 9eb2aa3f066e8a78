import NavQuery.Proofs.Joins

/-!
If the first anchor of a query, the head, neither groups nor cuts its rows, its joins, filter and
subqueries can be put in front of those of the query around it. In each case the rows of the answer are
made from the same rows.
-/

namespace NavQuery

open List

variable {V : Type}

def Clauses.substitutes (c : Clauses) : Substitutes := [(c.tag, c.select)]

variable {c : Clauses}

lemma Clauses.isSummary_eq_false_iff : c.isSummary = false ↔
    (c.group = [] → c.having = none ∧ ∀ p ∈ c.outputPhrases, p.hasAggregate = false) := by
  simp only [isSummary, Bool.and_eq_false_imp, List.isEmpty_iff, Bool.or_eq_false_iff,
    Option.isSome_eq_false_iff, Option.isNone_iff_eq_none, List.any_eq_false, Bool.not_eq_true]

lemma Clauses.plain_substitutes (hsummary : c.isSummary = false)
    (hgroup : c.group = []) : c.substitutes.Plain := by
  intro x hx p hp
  obtain rfl := mem_singleton.1 hx
  exact (isSummary_eq_false_iff.1 hsummary hgroup).2 p (mem_outputPhrases.2 (.inl hp))

lemma Clauses.lookup_substitutes {t : Tag} (h : t ≠ c.tag) : List.lookup t c.substitutes = none := by
  rw [substitutes, lookup_cons, beq_false_of_ne h]
  rfl

namespace Frame

open Phrase

variable {c head : Clauses} {anchors rest : List (Anchor Frame)} {inner outer : List Frame}
  {x : Option Phrase} {l r : Bool} {R : Reach}

lemma WellScoped.tag_not_mem (h : (query head anchors inner).WellScoped R) : head.tag ∉ R.tags :=
  fun ht => h.disjoint (by simp [tags]) ht

variable {t : Tag}

/-- The phrases of a query read the frames in it and those around it. -/
theorem mem_tags_of_mem_reach (ht : t ∈ (answersWithin inner (reachOf anchors R)).tags) :
    t ∈ (query head anchors inner).tags ∨ t ∈ R.tags := by
  rcases mem_tags_answersWithin ht with ⟨f, hf, rfl⟩ | ht
  · exact .inl ((tags_subset_of_query _ _ _).2 _ hf f.tag_mem_tags)
  · refine (mem_tags_reachOf ht).imp ?_ id
    rintro ⟨a, ha, rfl⟩
    exact (tags_subset_of_query _ _ _).1 _ ha a.frame.tag_mem_tags

lemma mem_tags_of_condition {as : List (Anchor Frame)} {X : Reach}
    (h : areConditionsScoped (answersWithin inner) as X) (has : as ⊆ anchors)
    (hX : ∀ t ∈ X.tags, t ∈ (query head anchors inner).tags ∨ t ∈ R.tags) :
    ∀ a ∈ as, ∀ p ∈ a.condition, ∀ u ∈ p.uses,
      u.tag ∈ (query head anchors inner).tags ∨ u.tag ∈ R.tags := by
  induction as generalizing X with
  | nil => simp
  | cons a as ih =>
    rw [areConditionsScoped, Bool.and_eq_true] at h
    rw [cons_subset] at has
    have hexports : ∀ t ∈ Reach.tags (a.frame.exports ++ X),
        t ∈ (query head anchors inner).tags ∨ t ∈ R.tags := by
      intro t ht
      rcases mem_tags_exports_append ht with rfl | ht
      · exact .inl ((tags_subset_of_query _ _ _).1 _ has.1 a.frame.tag_mem_tags)
      · exact hX t ht
    refine forall_mem_cons.2 ⟨fun p hp u hu => ?_, ih h.2 has.2 hexports⟩
    have hw : p.Within _ := of_decide_eq_true
      (Bool.and_eq_true_iff.1 ((Option.all_eq_true _ _).1 h.1 p hp)).1
    rcases mem_tags_answersWithin (hw.tag_mem hu) with ⟨f, hf, heq⟩ | ht
    · exact .inl (heq ▸ (tags_subset_of_query _ _ _).2 _ hf f.tag_mem_tags)
    · exact hexports _ ht

lemma WellScoped.mem_tags_substitutes (h : (query head anchors inner).WellScoped R)
    (ht : t ∈ head.substitutes.tags) : t ∈ (query head anchors inner).tags ∨ t ∈ R.tags := by
  simp only [Clauses.substitutes, Substitutes.tags, flatMap_cons, flatMap_nil,
    append_nil, mem_cons, mem_flatMap, mem_map] at ht
  rcases ht with rfl | ⟨p, hp, u, hu, rfl⟩
  · exact .inl (tag_mem_tags (query head anchors inner))
  · have hw := (Clauses.within_of_isScoped h.clauses).2.2 p (Clauses.mem_outputPhrases.2 (.inl hp))
    exact mem_tags_of_mem_reach (hw.tag_mem hu)

/-- Nothing inside a query refers to the query. -/
theorem WellScoped.substitute_self (h : (query head anchors inner).WellScoped R) :
    head.substitute head.substitutes = head ∧ substituteAnchors head.substitutes anchors = anchors ∧
      substituteAll head.substitutes inner = inner := by
  have hnodup := h.nodup
  rw [tags, nodup_cons] at hnodup
  have hself := substitute_eq_self (s := head.substitutes) (query head anchors inner)
    (fun t ht => Clauses.lookup_substitutes fun heq => hnodup.1 (heq ▸ ht)) h.isScoped
    fun t ht => Clauses.lookup_substitutes fun heq => h.tag_not_mem (heq ▸ ht)
  injection hself with h₁ h₂ h₃
  exact ⟨h₁, h₂, h₃⟩

section Around

variable (hF : (query c (⟨query head anchors inner, x, l, r⟩ :: rest) outer).WellScoped R)

include hF

lemma WellScoped.first : (query head anchors inner).WellScoped R := hF.anchor _ mem_cons_self

/-- The frames beside the first one are not in it, nor around it. -/
theorem WellScoped.apart {t : Tag} (ht : t ∈ (query head anchors inner).tags ∨ t ∈ R.tags) :
    (∀ a ∈ rest, t ∉ a.frame.tags) ∧ ∀ f ∈ outer, t ∉ f.tags := by
  constructor
  · intro a ha hta
    refine ht.elim (fun ht => ?_) fun ht => ?_
    · exact (pairwise_cons.1 hF.pairwise).1 a ha ht hta
    · exact (hF.anchor a (mem_cons_of_mem _ ha)).disjoint hta ht
  · intro f hf htf
    refine ht.elim (fun ht => ?_) fun ht => ?_
    · exact hF.disjoint_embedded _ mem_cons_self f hf ht htf
    · exact hF.embedded_disjoint f hf htf ht

lemma WellScoped.rest_substitute : ∀ a ∈ rest, a.frame.substitute head.substitutes = a.frame := by
  intro a ha
  have hdisjoint := (pairwise_cons.1 hF.pairwise).1 a ha
  have hne : ∀ t ∈ a.frame.tags, t ≠ head.tag := fun t ht heq =>
    hdisjoint (show head.tag ∈ _ by simp [tags]) (heq ▸ ht)
  exact substitute_eq_self _ (fun t ht => Clauses.lookup_substitutes (hne t (mem_of_mem_tail ht)))
    (hF.anchor a (mem_cons_of_mem _ ha)).isScoped
    fun t ht => Clauses.lookup_substitutes fun heq => hF.first.tag_not_mem (heq ▸ ht)

end Around

end Frame

namespace Frame.Parts

/-- The parts with the selected phrases in place of the references to frames that are gone. -/
def substitute (s : Substitutes) (p : Parts) : Parts :=
  ⟨p.clauses.substitute s, substituteAnchors s p.anchors, substituteAll s p.embedded⟩

lemma substitute_nil (p : Parts) : p.substitute [] = p := by
  rw [substitute, Clauses.substitute_nil, substituteAnchors_nil, substituteAll_nil]

end Frame.Parts

namespace Interpretation

open Phrase Frame

variable (I : Interpretation V) [DecidableEq V] (db : Database V)

def joined (p : Parts) (o : Env V) : List (Env V) :=
  (I.joinAll (I.settle db p.embedded) o (I.relations db p.anchors o)).map (I.settle db p.embedded)

def draftsOf (p : Parts) (o : Env V) : List (Candidate V) := I.drafts p.clauses o (I.joined db p o)

lemma rows_frame (p : Parts) (o : Env V) :
    I.rows db p.frame o = ((p.clauses.slice (I.arrange p.clauses (I.draftsOf db p o))).map
      Candidate.items).map I.rowOf := rfl

section Answers

variable {p q : Parts} {o : Env V}

lemma rows_perm_of_drafts (hlimit : q.clauses.limit = p.clauses.limit)
    (hoffset : q.clauses.offset = p.clauses.offset)
    (horder : q.clauses.order.map (·.2) = p.clauses.order.map (·.2))
    (huntied : p.clauses.isSliced → I.Untied p.clauses (I.draftsOf db p o))
    (h : (I.draftsOf db p o).Perm (I.draftsOf db q o)) :
    (I.rows db q.frame o).Perm (I.rows db p.frame o) := by
  have hslice : ∀ l : List (Candidate V), q.clauses.slice l = p.clauses.slice l := fun l => by
    rw [Clauses.slice, Clauses.slice, hlimit, hoffset]
  have harrange : I.arrange q.clauses = I.arrange p.clauses := by
    unfold arrange compareCandidates
    rw [horder]
  rw [rows_frame, hslice, harrange]
  exact ((I.slice_arrange_perm h huntied).symm.map _).map _

lemma rows_perm_of_items (hp : p.clauses.isSliced = false) (hq : q.clauses.isSliced = false)
    (h : ((I.draftsOf db p o).map Candidate.items).Perm ((I.draftsOf db q o).map Candidate.items)) :
    (I.rows db q.frame o).Perm (I.rows db p.frame o) := by
  rw [rows_frame, rows_frame, p.clauses.slice_eq_self hp, q.clauses.slice_eq_self hq]
  refine List.Perm.map _ ?_
  calc (I.arrange q.clauses (I.draftsOf db q o)).map Candidate.items
    _ |>.Perm ((I.draftsOf db q o).map Candidate.items) := (I.arrange_perm _ _).map _
    _ |>.Perm ((I.draftsOf db p o).map Candidate.items) := h.symm
    _ |>.Perm _ := ((I.arrange_perm _ _).map _).symm

lemma items_drafts_of_order {c : Clauses} {X : List SortItem} (hc : c.isSummary = false)
    (hX : Clauses.isSummary { c with order := X } = false) (es : List (Env V)) :
    (I.drafts { c with order := X } o es).map Candidate.items =
      (I.drafts c o es).map Candidate.items := by
  simp [drafts, scenes, hc, hX, candidates, candidate]

lemma drafts_of_filter {c m : Clauses} (hm : m = { c with filter := m.filter }) {b : Env V → Bool}
    {es : List (Env V)}
    (h : ∀ e ∈ es, I.holds m.filter (.single e) = (b e && I.holds c.filter (.single e))) :
    I.drafts m o es = I.drafts c o (es.filter b) := by
  have hfilter : es.filter (fun e => I.holds m.filter (.single e)) =
      (es.filter b).filter fun e => I.holds c.filter (.single e) := by
    rw [filter_filter]
    exact filter_congr fun e he => (h e he).trans (Bool.and_comm _ _)
  rw [drafts, hfilter, hm]
  rfl

end Answers

section UnitRow

variable {I} {c m : Clauses} {t : Tag} {x : Option Phrase} {l r : Bool} {next : Anchor Frame}
  {more : List (Anchor Frame)} {embedded : List Frame} {R : Reach} {o : Env V}

/-- The unit row alone adds nothing. -/
theorem rows_scalar (hF : (query c [⟨.scalar t, x, l, r⟩] embedded).WellScoped R) :
    I.rows db (query c [] embedded) o = I.rows db (query c [⟨.scalar t, x, l, r⟩] embedded) o := by
  have ht : t ∉ R.tags := fun h => hF.disjoint (by simp [tags, anchorTags, tagsOfAnchor]) h
  have hrows : I.rows db (query (c.substitute []) [] embedded) o =
      I.rows db (query c [⟨.scalar t, x, l, r⟩] embedded) o := rows_query_substitute db
    (by simp [Substitutes.Plain]) hF.clauses (Reads.refl R o)
    (fun e e' => I.reads_settle_nil db embedded)
    (.cons ((Reads.refl R o).bind_right ht I.missing).symm .nil)
  rwa [Clauses.substitute_nil] at hrows

lemma holds_nil_congr {p : Option Phrase} {X : Reach} (hp : p.all (isRowScoped X))
    {e e' : Env V} (h : I.Reads [] X e (.single e')) :
    I.holds p (.single e) = I.holds p (.single e') := by
  have hholds := holds_substitute hp h
  simpa using hholds

/-- A frame joined to the unit row is joined to nothing, and its condition is a filter. -/
theorem draftsOf_scalar (hm : m = { c with filter := m.filter })
    (hfilter : ∀ k, I.holds m.filter k = (I.holds next.condition k && I.holds c.filter k))
    (hF : (query c (⟨.scalar t, x, l, r⟩ :: next :: more) embedded).WellScoped R)
    (hleft : next.left = false) (hright : ∀ a ∈ next :: more, a.right = false) :
    I.draftsOf db ⟨m, { next with condition := none } :: more, embedded⟩ o =
      I.draftsOf db ⟨c, ⟨.scalar t, x, l, r⟩ :: next :: more, embedded⟩ o := by
  have hconditions := hF.conditions
  simp only [areConditionsScoped, Bool.and_eq_true] at hconditions
  rw [forall_mem_cons] at hright
  have ht : t ∉ R.tags :=
    @WellScoped.not_mem_reachOf R c [] embedded _ hF _ mem_cons_self t (by simp [tags])
  have hmore : ∀ a ∈ more, a.frame.tag ∉ Reach.tags (next.frame.exports ++ R) := fun a ha =>
    @WellScoped.not_mem_reachOf R c [⟨.scalar t, x, l, r⟩, next] embedded more hF a ha _
      a.frame.tag_mem_tags
  have hrelations : ∀ a ∈ I.relations db more o, a.right = false := (I.forall_mem_relations db).2 hright.2
  -- the condition looks at the joined frame only, so it can wait until all frames are joined
  let b := fun e => I.holds next.condition (.single (I.settle db embedded e))
  have hcongr : ∀ {X : Reach} {e e' : Env V}, next.frame.exports ++ R ⊆ X →
      I.Reads [] X e (.single e') → b e = b e' := fun hX h =>
    holds_nil_congr hconditions.2.1 (I.reads_settle_nil db embedded (h.mono hX))
  have hbind : ∀ a ∈ I.relations db more o, ∀ e r, b (e.bind a.frame.tag r) = b e :=
    (I.forall_mem_relations db).2 fun a ha e r =>
      (hcongr (fun _ => id) ((Reads.refl _ e).bind_right (hmore a ha) r)).symm
  have hstart : I.ReadsAll [] (next.frame.exports ++ R)
      ((I.rows db next.frame o).map ((o.bind t I.missing).bind next.frame.tag))
      ((I.rows db next.frame o).map (o.bind next.frame.tag)) := by
    refine rel_map (R := Eq) ?_ (forall₂_refl _)
    rintro r _ rfl
    exact ((Reads.refl R o).bind_right ht I.missing).symm.bind (by simp [Substitutes.tags])
      (fun _ => of_mem_exports) r
  have hjoins : List.Forall₂
      (fun e e' => I.Reads [] (reachOf more (next.frame.exports ++ R)) e (.single e'))
      ((I.relations db more o).foldl (I.join (I.settle db embedded) o)
        ((I.rows db next.frame o).map ((o.bind t I.missing).bind next.frame.tag)))
      ((I.relations db (substituteAnchors [] more) o).foldl (I.join (I.settle db embedded) o)
        ((I.rows db next.frame o).map (o.bind next.frame.tag))) := forall₂_joins db
    (fun _ _ _ => I.reads_settle_nil db embedded) more
    (fun a ha h => absurd h (by simp [hright.2 a ha])) (fun _ => id) (by simp [Substitutes.tags])
    (fun a _ => by rw [substitute_nil]) hconditions.2.2 hstart
  rw [substituteAnchors_nil] at hjoins
  have hfiltered := rel_filter (p := b) (q := b)
    (fun e e' he => Bool.eq_iff_iff.1 (hcongr (subset_reachOf more _) he)) hjoins
  have hsettled := rel_map (P := fun e e' => I.Reads [] _ e (.single e'))
    (fun e e' he => I.reads_settle_nil db embedded he) hfiltered
  have hdrafts := drafts_substitute (by simp [Substitutes.Plain]) hF.clauses (Reads.refl R o) hsettled
  rw [Clauses.substitute_nil] at hdrafts
  have hbefore : I.joined db ⟨c, ⟨.scalar t, x, l, r⟩ :: next :: more, embedded⟩ o =
      (((I.relations db more o).foldl (I.join (I.settle db embedded) o)
        ((I.rows db next.frame o).map ((o.bind t I.missing).bind next.frame.tag))).filter b).map
          (I.settle db embedded) := by
    rw [I.filter_foldl_join hrelations hbind]
    refine congrArg (List.map _) ((I.foldl_join_congr hrelations (fun _ _ _ => rfl) _ o).trans ?_)
    rw [I.relation_eq db next, I.join_eq_flatMap hright.1]
    simp [extensions, matching, hleft, relation, rows, tag, b]
  have hafter : (I.joined db ⟨m, { next with condition := none } :: more, embedded⟩ o).filter
      (fun e => I.holds next.condition (.single e)) =
      (((I.relations db more o).foldl (I.join (I.settle db embedded) o)
        ((I.rows db next.frame o).map (o.bind next.frame.tag))).filter b).map (I.settle db embedded) := by
    rw [joined, filter_map]
    refine congrArg (fun es : List (Env V) => (es.filter b).map _) ?_
    exact I.foldl_join_congr hrelations (fun _ _ _ => rfl) _ o
  rw [draftsOf, draftsOf, hbefore, hdrafts, I.drafts_of_filter hm fun e _ => hfilter _, hafter]

end UnitRow

section Head

variable {I} {c head m : Clauses} {anchors rest : List (Anchor Frame)} {inner outer : List Frame}
  {x : Option Phrase} {l r : Bool} {R : Reach} {o : Env V}

/-- The joins of two queries in a row, where the first is evaluated before the second is joined. -/
theorem joined_append (hne : anchors = [] → rest = []) (hanchors : ∀ a ∈ anchors, a.right = false)
    (hrest : ∀ a ∈ rest, a.right = false)
    (hcond : ∀ a ∈ anchors, ∀ e, I.holds a.condition (.single (I.settle db outer e)) =
      I.holds a.condition (.single e))
    (hbind : ∀ a ∈ rest, ∀ e r, I.settle db inner (e.bind a.frame.tag r) =
      (I.settle db inner e).bind a.frame.tag r) (c head : Clauses) (blank : Env V) :
    I.joined db ⟨c, anchors ++ rest, inner ++ outer⟩ o =
      ((I.relations db rest o).foldl (I.join (I.settle db outer) blank)
        (I.joined db ⟨head, anchors, inner⟩ o)).map (I.settle db outer) := by
  have hsettle : I.settle db (inner ++ outer) = I.settle db outer ∘ I.settle db inner :=
    funext fun e => I.settle_append db inner outer e
  cases anchors with
  | nil =>
    obtain rfl := hne rfl
    simp [joined, joinAll, relations, hsettle]
  | cons a as =>
    have has : ∀ b ∈ I.relations db as o, b.right = false :=
      (I.forall_mem_relations db).2 (forall_mem_cons.1 hanchors).2
    have hbs : ∀ b ∈ I.relations db rest o, b.right = false := (I.forall_mem_relations db).2 hrest
    have hcongr : ∀ b ∈ I.relations db as o, ∀ e,
        I.holds b.condition (.single ((I.settle db outer ∘ I.settle db inner) e)) =
          I.holds b.condition (.single (I.settle db inner e)) :=
      (I.forall_mem_relations db).2 fun a' ha' e => hcond a' (mem_cons_of_mem _ ha') _
    have hmap : ∀ b ∈ I.relations db rest o, ∀ e r, I.settle db inner (e.bind b.frame.tag r) =
        (I.settle db inner e).bind b.frame.tag r := (I.forall_mem_relations db).2 hbind
    rw [joined, joined, hsettle, relations_append, relations, joinAll_append, ← map_map,
      I.map_foldl_join hbs hmap _ blank, I.foldl_join_congr has hcongr]
    rfl

/-- The rows that a query joins see the same frames around it. -/
theorem reads_joined (hH : (query head anchors inner).WellScoped R)
    (hright : ∀ a ∈ anchors, a.right = false) :
    ∀ e ∈ I.joined db ⟨head, anchors, inner⟩ o, I.Reads [] R o (.single e) := by
  have htag : ∀ a ∈ anchors, a.frame.tag ∉ R.tags := fun a ha =>
    (hH.anchor a ha).disjoint a.frame.tag_mem_tags
  have hjoined : ∀ e ∈ I.joinAll (I.settle db inner) o (I.relations db anchors o),
      I.Reads [] R o (.single e) := by
    cases anchors with
    | nil => simpa [joinAll, relations] using Reads.refl R o
    | cons a as =>
      rw [forall_mem_cons] at htag hright
      refine I.forall_mem_foldl_join ((I.forall_mem_relations db).2 hright.2)
        ((I.forall_mem_relations db).2 fun a' ha' e r he => he.bind_right (htag.2 a' ha') r) ?_
      rw [relation_eq]
      exact forall_mem_map.2 fun r _ => (Reads.refl R o).bind_right htag.1 r
  intro e he
  obtain ⟨e', he', rfl⟩ := mem_map.1 he
  intro p hp hw
  rw [hjoined e' he' p hp hw, Substitutes.substitute_nil, I.value_settle]
  exact fun f hf hu => hH.embedded_disjoint f hf f.tag_mem_tags (hw.tag_mem hu)

lemma reads_head (htag : head.tag ∉ R.tags) {k : Scene V} (hk : I.Reads [] R o (.single k.env)) :
    I.Reads head.substitutes (.items head.tag head.select.length :: R)
      (o.bind head.tag (I.rowOf (head.select.map (I.value · k)))) k := by
  intro p hp hw
  rcases hw.append_or (X := [.items head.tag head.select.length]) hp with hw | hw
  · obtain ⟨d, b, i, rfl, hi⟩ := hw.eq_reference hp
    simp [substitute_reference, Clauses.substitutes, hi, value, Scene.single, item, rowOf]
  · rw [I.value_bind (hw.tag_ne htag), hk p hp hw, Substitutes.substitute_nil,
      Substitutes.substitute_eq_self fun u hu => Clauses.lookup_substitutes (hw.tag_ne htag u hu)]
    cases p <;> first | rfl | simp [isExport] at hp

lemma exists_of_mem_substituteAnchors {s : Substitutes} {as : List (Anchor Frame)} {a : Anchor Frame}
    (h : a ∈ substituteAnchors s as) :
    ∃ b ∈ as, a.frame.tag = b.frame.tag ∧ a.right = b.right := by
  rw [substituteAnchors_eq] at h
  obtain ⟨b, hb, rfl⟩ := mem_map.1 h
  exact ⟨b, hb, by simp [substituteAnchor_eq], by simp [substituteAnchor_eq]⟩

lemma drafts_eq_map (hsummary : c.isSummary = false) (hgroup : c.group = []) (es : List (Env V)) :
    I.drafts c o es = (es.filter fun e => I.holds c.filter (.single e)).map fun e =>
      I.candidate c (.single e) := by
  have hhaving := (Clauses.isSummary_eq_false_iff.1 hsummary hgroup).1
  simp [drafts, scenes, candidates, hsummary, hgroup, hhaving]

lemma rows_query_perm (anchors : List (Anchor Frame)) (inner : List Frame)
    (hslice : head.isSliced = false) :
    (I.rows db (query head anchors inner) o).Perm
      ((I.draftsOf db ⟨head, anchors, inner⟩ o).map fun d => I.rowOf d.items) := by
  have hrows := I.rows_frame db ⟨head, anchors, inner⟩ o
  rw [Parts.frame, head.slice_eq_self hslice, map_map] at hrows
  rw [hrows]
  exact (I.arrange_perm _ _).map _

section Merged

variable (hF : (query c (⟨query head anchors inner, x, l, r⟩ :: rest) outer).WellScoped R)

include hF

lemma value_settle_outer {p : Phrase}
    (hp : ∀ u ∈ p.uses, u.tag ∈ (query head anchors inner).tags ∨ u.tag ∈ R.tags)
    (s : Substitutes) (e : Env V) :
    I.value p (.single (I.settle db (Frame.substituteAll s outer) e)) = I.value p (.single e) := by
  refine I.value_settle db (fun f hf hu => ?_) e
  rw [Frame.substituteAll_eq] at hf
  obtain ⟨g, hg, rfl⟩ := mem_map.1 hf
  rw [tag_substitute] at hu
  exact (hF.apart (hp _ hu)).2 g hg g.tag_mem_tags

lemma holds_settle_outer {p : Option Phrase}
    (hp : ∀ q ∈ p, ∀ u ∈ q.uses, u.tag ∈ (query head anchors inner).tags ∨ u.tag ∈ R.tags)
    (s : Substitutes) (e : Env V) :
    I.holds p (.single (I.settle db (Frame.substituteAll s outer) e)) = I.holds p (.single e) := by
  cases p with
  | none => rfl
  | some p => exact congrArg I.isTrue (value_settle_outer db hF (hp p rfl) s e)

lemma joined_merged (hne : anchors = [] → rest = []) (hanchors : ∀ a ∈ anchors, a.right = false)
    (hrest : ∀ a ∈ rest, a.right = false) (m : Clauses) (blank : Env V) :
    I.joined db ⟨m, substituteAnchors head.substitutes (anchors ++ rest),
        Frame.substituteAll head.substitutes (inner ++ outer)⟩ o =
      ((I.relations db (substituteAnchors head.substitutes rest) o).foldl
        (I.join (I.settle db (Frame.substituteAll head.substitutes outer)) blank)
        (I.joined db ⟨head, anchors, inner⟩ o)).map
          (I.settle db (Frame.substituteAll head.substitutes outer)) := by
  have hH := hF.first
  obtain ⟨-, hself, hselves⟩ := hH.substitute_self
  have hscoped := hH.isScoped
  simp only [isScoped, Bool.and_eq_true] at hscoped
  rw [substituteAnchors_append, Frame.substituteAll_append, hself, hselves]
  refine I.joined_append db ?_ hanchors ?_ ?_ ?_ m head blank
  · intro h
    rw [hne h]
    rfl
  · intro a ha
    obtain ⟨b, hb, -, hright⟩ := exists_of_mem_substituteAnchors ha
    exact hright.trans (hrest b hb)
  · intro a ha e
    exact holds_settle_outer db hF
      (mem_tags_of_condition hH.conditions (List.Subset.refl _) (fun _ => .inr) a ha) _ e
  · intro a ha
    obtain ⟨b, hb, htag, -⟩ := exists_of_mem_substituteAnchors ha
    refine I.settle_bind db hscoped.1.1.2 (fun ht => ?_) fun f hf heq => ?_
    · refine (hF.apart (t := a.frame.tag) ?_).1 b hb (htag ▸ b.frame.tag_mem_tags)
      refine (mem_tags_reachOf ht).imp ?_ id
      rintro ⟨a', ha', heq⟩
      exact heq ▸ (tags_subset_of_query _ _ _).1 _ ha' a'.frame.tag_mem_tags
    · refine (hF.apart (.inl ((tags_subset_of_query _ _ _).2 _ hf f.tag_mem_tags))).1 b hb ?_
      exact heq ▸ htag ▸ b.frame.tag_mem_tags

lemma reads_settle_outer (hplain : head.substitutes.Plain) {X : Reach} {e e' : Env V}
    (h : I.Reads head.substitutes X e (.single e')) :
    I.Reads head.substitutes (answersWithin outer X) (I.settle db outer e)
      (.single (I.settle db (Frame.substituteAll head.substitutes outer) e')) := by
  have hnot : ∀ f ∈ outer, ∀ t ∈ f.tags, t ∉ head.substitutes.tags := fun f hf t ht hs =>
    (hF.apart (hF.first.mem_tags_substitutes hs)).2 f hf ht
  exact reads_settle db outer (fun f hf => hnot f hf _ f.tag_mem_tags)
    (fun f hf {_ _ _} => rows_substitute db hplain f (hnot f hf)) h

lemma forall₂_merged_joins (hplain : head.substitutes.Plain) (hanchors : ∀ a ∈ anchors, a.right = false)
    (hrest : ∀ a ∈ rest, a.right = false) (es : List (Env V))
    (hes : es ⊆ I.joined db ⟨head, anchors, inner⟩ o) (blank : Env V) :
    I.ReadsAll head.substitutes (reachOf (⟨query head anchors inner, x, l, r⟩ :: rest) R)
      ((I.relations db rest o).foldl (I.join (I.settle db outer) blank)
        (es.map fun e => o.bind head.tag (I.rowOf (head.select.map (I.value · (.single e))))))
      ((I.relations db (substituteAnchors head.substitutes rest) o).foldl
        (I.join (I.settle db (Frame.substituteAll head.substitutes outer)) blank) es) := by
  have hconditions := hF.conditions
  rw [areConditionsScoped, Bool.and_eq_true] at hconditions
  refine forall₂_joins db (fun _ _ _ => reads_settle_outer db hF hplain) rest ?_ (fun _ => id) ?_ ?_
    hconditions.2 ?_
  · exact fun a ha h => absurd h (by simp [hrest a ha])
  · exact fun a ha hs =>
      (hF.apart (hF.first.mem_tags_substitutes hs)).1 a ha a.frame.tag_mem_tags
  · exact fun a ha => by rw [hF.rest_substitute a ha]
  · rw [ReadsAll, forall₂_map_left_iff, forall₂_same]
    intro e he
    exact reads_head hF.first.tag_not_mem (reads_joined db hF.first hanchors e (hes he))

/-- The filter of the head can be used before or after the frames beside it are joined. -/
theorem draftsOf_merged_eq (hne : anchors = [] → rest = [])
    (hanchors : ∀ a ∈ anchors, a.right = false) (hrest : ∀ a ∈ rest, a.right = false)
    (hm : m = { c.substitute head.substitutes with filter := m.filter })
    (hfilter : ∀ k, I.holds m.filter k =
      (I.holds head.filter k && I.holds (c.substitute head.substitutes).filter k)) (blank : Env V) :
    I.draftsOf db ⟨m, substituteAnchors head.substitutes (anchors ++ rest),
        Frame.substituteAll head.substitutes (inner ++ outer)⟩ o =
      I.drafts (c.substitute head.substitutes) o
        (((I.relations db (substituteAnchors head.substitutes rest) o).foldl
          (I.join (I.settle db (Frame.substituteAll head.substitutes outer)) blank)
          ((I.joined db ⟨head, anchors, inner⟩ o).filter fun e => I.holds head.filter (.single e))).map
            (I.settle db (Frame.substituteAll head.substitutes outer))) := by
  have huses : ∀ p ∈ head.filter, ∀ u ∈ p.uses,
      u.tag ∈ (query head anchors inner).tags ∨ u.tag ∈ R.tags := fun p hp u hu =>
    mem_tags_of_mem_reach (((Clauses.within_of_isScoped hF.first.clauses).1 p hp).tag_mem hu)
  rw [draftsOf, I.drafts_of_filter hm fun e _ => hfilter (.single e), joined_merged db hF hne hanchors
    hrest m blank, filter_map]
  simp only [Function.comp_def, holds_settle_outer db hF huses]
  rw [I.filter_foldl_join]
  · refine (I.forall_mem_relations db).2 fun a ha => ?_
    obtain ⟨a', ha', -, hright⟩ := exists_of_mem_substituteAnchors ha
    exact hright.trans (hrest a' ha')
  · refine (I.forall_mem_relations db).2 fun a ha e row => ?_
    obtain ⟨a', ha', htag, -⟩ := exists_of_mem_substituteAnchors ha
    cases hp : head.filter with
    | none => rfl
    | some p =>
      refine congrArg I.isTrue (I.value_bind (fun u hu heq => ?_) e row)
      exact (hF.apart (huses p hp u hu)).1 a' ha' (heq ▸ htag ▸ a'.frame.tag_mem_tags)

/-- Merging a head that neither groups nor cuts its rows. -/
theorem draftsOf_merged (hne : anchors = [] → rest = []) (hanchors : ∀ a ∈ anchors, a.right = false)
    (hright : ∀ a ∈ (⟨query head anchors inner, x, l, r⟩ : Anchor Frame) :: rest, a.right = false)
    (hhead : head.isSummary = false) (hgroup : head.group = []) (hslice : head.isSliced = false)
    (hc : c.isSummary = false)
    (hm : m = { c.substitute head.substitutes with filter := m.filter })
    (hfilter : ∀ k, I.holds m.filter k =
      (I.holds head.filter k && I.holds (c.substitute head.substitutes).filter k)) :
    (I.draftsOf db ⟨c, ⟨query head anchors inner, x, l, r⟩ :: rest, outer⟩ o).Perm
      (I.draftsOf db ⟨m, substituteAnchors head.substitutes (anchors ++ rest),
        Frame.substituteAll head.substitutes (inner ++ outer)⟩ o) := by
  have hplain := Clauses.plain_substitutes hhead hgroup
  have hrest := (forall_mem_cons.1 hright).2
  have hbs : ∀ b ∈ I.relations db rest o, b.right = false := (I.forall_mem_relations db).2 hrest
  let blank := I.blank (I.relations db (⟨query head anchors inner, x, l, r⟩ :: rest) o) o
  let es := (I.joined db ⟨head, anchors, inner⟩ o).filter fun e => I.holds head.filter (.single e)
  have hbefore : (I.joined db ⟨c, ⟨query head anchors inner, x, l, r⟩ :: rest, outer⟩ o).Perm
      (((I.relations db rest o).foldl (I.join (I.settle db outer) blank)
        (es.map fun e => o.bind head.tag (I.rowOf (head.select.map (I.value · (.single e)))))).map
          (I.settle db outer)) := by
    refine (I.foldl_join_perm hbs ?_).map _
    have hrows := (rows_query_perm db (I := I) (o := o) anchors inner hslice).map (o.bind head.tag)
    rwa [draftsOf, drafts_eq_map hhead hgroup, map_map, map_map] at hrows
  have hpairs := forall₂_merged_joins db hF hplain hanchors hrest es (filter_subset_self _) blank
  have hsettled := rel_map (P := fun e e' => I.Reads head.substitutes _ e (.single e'))
    (fun e e' he => reads_settle_outer db hF hplain he) hpairs
  rw [draftsOf_merged_eq db hF hne hanchors hrest hm hfilter blank,
    ← drafts_substitute hplain hF.clauses ?_ hsettled]
  · exact drafts_perm hF.clauses hc hbefore (reads_joined db hF hright)
  · exact Reads.of_lookup_eq_none (fun t ht =>
      Clauses.lookup_substitutes fun heq => hF.first.tag_not_mem (heq ▸ ht)) o

end Merged

end Head

end Interpretation

end NavQuery
