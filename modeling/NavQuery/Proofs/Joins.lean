import NavQuery.Proofs.FrameSubstitution

/-!
Without right joins, each row is joined on its own. So a join can change places with a filter or with
subqueries that do not look at the joined frame. What a query gives as a multiset does not depend on the
order of the joined rows; a slice does, unless the rows are sorted without ties.
-/

namespace NavQuery

open List

variable {V : Type}

namespace Frame

lemma substitute_nil (f : Frame) : f.substitute [] = f := by
  induction f with
  | scalar | table => rfl
  | query c anchors embedded iha ihe =>
    rw [substitute, Clauses.substitute_nil, substituteAnchors_eq, substituteAll_eq]
    have hanchors : anchors.map (substituteAnchor []) = anchors := by
      refine (map_congr_left fun a ha => ?_).trans (map_id anchors)
      rw [substituteAnchor_eq, iha a ha]
      simp
    have hembedded : embedded.map (substitute []) = embedded := (map_congr_left ihe).trans (map_id embedded)
    rw [hanchors, hembedded]

lemma substituteAnchors_nil (as : List (Anchor Frame)) : substituteAnchors [] as = as := by
  rw [substituteAnchors_eq]
  refine (map_congr_left fun a _ => ?_).trans (map_id as)
  rw [substituteAnchor_eq, substitute_nil]
  simp

lemma substituteAll_nil (fs : List Frame) : substituteAll [] fs = fs := by
  rw [substituteAll_eq]
  exact (map_congr_left fun f _ => f.substitute_nil).trans (map_id fs)

end Frame

namespace Interpretation

open Phrase Frame

variable (I : Interpretation V) [DecidableEq V] (db : Database V)

section Subqueries

variable {e e' : Env V} {R : Reach} {fs : List Frame}

lemma rows_congr {f : Frame} (hf : f.isScoped R)
    (h : I.Reads [] R e (.single e')) : I.rows db f e' = I.rows db f e := by
  have hrows := rows_substitute db (s := []) (by simp [Substitutes.Plain]) f
    (by simp [Substitutes.tags]) hf h
  rwa [substitute_nil] at hrows

lemma reads_settle_nil (fs : List Frame) (h : I.Reads [] R e (.single e')) :
    I.Reads [] (answersWithin fs R) (I.settle db fs e) (.single (I.settle db fs e')) := by
  have hsettle := reads_settle db fs (s := []) (by simp [Substitutes.tags])
    (fun f _ {_ _ _} hf he => by rw [substitute_nil]; exact I.rows_congr db hf he) h
  rwa [substituteAll_nil] at hsettle

lemma value_settle {p : Phrase} (h : ∀ f ∈ fs, Use.answer f.tag ∉ p.uses)
    (e : Env V) : I.value p (.single (I.settle db fs e)) = I.value p (.single e) := by
  induction fs generalizing e with
  | nil => rfl
  | cons f fs ih =>
    rw [forall_mem_cons] at h
    rw [settle, ih h.2, I.value_embed h.1]

/-- Subqueries that do not reach a frame are the same before and after its row is bound. -/
theorem settle_bind (hfs : areEmbeddedScoped fs R) {t : Tag}
    (ht : t ∉ R.tags) (htags : ∀ f ∈ fs, t ≠ f.tag) (e : Env V) (r : Row V) :
    I.settle db fs (e.bind t r) = (I.settle db fs e).bind t r := by
  induction fs generalizing R e with
  | nil => rfl
  | cons f fs ih =>
    rw [areEmbeddedScoped, Bool.and_eq_true] at hfs
    rw [forall_mem_cons] at htags
    have hrows := I.rows_congr db hfs.1 ((Reads.refl R e).bind_right ht r)
    rw [settle, settle, hrows, Env.bind_embed, ih hfs.2 ?_ htags.2]
    exact fun h => (mem_cons.1 h).elim htags.1 ht

end Subqueries

section Folds

variable {settle : Env V → Env V} {blank : Env V} {a : Anchor (Relation V)} {es : List (Env V)}

lemma join_eq_flatMap (ha : a.right = false) (es : List (Env V)) :
    I.join settle blank es a = es.flatMap (I.extensions settle a) := by
  simp [join, ha]

lemma exists_of_mem_extensions {e e' : Env V}
    (h : e' ∈ I.extensions settle a e) : ∃ r, e' = e.bind a.frame.tag r := by
  unfold extensions at h
  split at h
  · exact ⟨_, mem_singleton.1 h⟩
  · obtain ⟨r, -, rfl⟩ := mem_map.1 (mem_filter.1 h).1
    exact ⟨r, rfl⟩

lemma filter_flatMap_of_forall {α β : Type} {f : α → List β} {p : α → Bool} {q : β → Bool}
    (l : List α) (h : ∀ a, ∀ b ∈ f a, q b = p a) :
    (l.flatMap f).filter q = (l.filter p).flatMap f := by
  induction l with
  | nil => rfl
  | cons a l ih =>
    rw [flatMap_cons, filter_append, ih]
    cases hp : p a with
    | true =>
      rw [filter_cons_of_pos hp, flatMap_cons, filter_eq_self.2 fun b hb => (h a b hb).trans hp]
    | false =>
      rw [filter_cons_of_neg (by simp [hp]), filter_eq_nil_iff.2 fun b hb => by
        simp [h a b hb, hp], nil_append]

variable {as : List (Anchor (Relation V))} (hright : ∀ a ∈ as, a.right = false)

include hright

lemma foldl_join_perm {es' : List (Env V)} (h : es.Perm es') :
    (as.foldl (I.join settle blank) es).Perm (as.foldl (I.join settle blank) es') := by
  induction as generalizing es es' with
  | nil => exact h
  | cons a as ih =>
    rw [forall_mem_cons] at hright
    rw [foldl_cons, foldl_cons, I.join_eq_flatMap hright.1, I.join_eq_flatMap hright.1]
    exact ih hright.2 (h.flatMap_right _)

/-- What binding rows keeps holds of all joined rows. -/
theorem forall_mem_foldl_join {Q : Env V → Prop}
    (hQ : ∀ a ∈ as, ∀ e r, Q e → Q (e.bind a.frame.tag r)) (h : ∀ e ∈ es, Q e) :
    ∀ e ∈ as.foldl (I.join settle blank) es, Q e := by
  induction as generalizing es with
  | nil => exact h
  | cons a as ih =>
    rw [forall_mem_cons] at hright hQ
    rw [foldl_cons, I.join_eq_flatMap hright.1]
    refine ih hright.2 hQ.2 fun e' he' => ?_
    obtain ⟨e, he, he'⟩ := mem_flatMap.1 he'
    obtain ⟨r, rfl⟩ := I.exists_of_mem_extensions he'
    exact hQ.1 e r (h e he)

lemma filter_foldl_join {p : Env V → Bool}
    (hp : ∀ a ∈ as, ∀ e r, p (e.bind a.frame.tag r) = p e) (es : List (Env V)) :
    (as.foldl (I.join settle blank) es).filter p = as.foldl (I.join settle blank) (es.filter p) := by
  induction as generalizing es with
  | nil => rfl
  | cons a as ih =>
    rw [forall_mem_cons] at hright hp
    rw [foldl_cons, foldl_cons, ih hright.2 hp.2, I.join_eq_flatMap hright.1,
      I.join_eq_flatMap hright.1, filter_flatMap_of_forall es]
    intro e e' he'
    obtain ⟨r, rfl⟩ := I.exists_of_mem_extensions he'
    exact hp.1 e r

lemma map_foldl_join {f : Env V → Env V}
    (hf : ∀ a ∈ as, ∀ e r, f (e.bind a.frame.tag r) = (f e).bind a.frame.tag r)
    (es : List (Env V)) (blank' : Env V) :
    (as.foldl (I.join (settle ∘ f) blank) es).map f = as.foldl (I.join settle blank') (es.map f) := by
  induction as generalizing es with
  | nil => rfl
  | cons a as ih =>
    rw [forall_mem_cons] at hright hf
    rw [foldl_cons, foldl_cons, ih hright.2 hf.2, I.join_eq_flatMap hright.1,
      I.join_eq_flatMap hright.1, map_flatMap, flatMap_map]
    refine congrArg (fun g => as.foldl _ (es.flatMap g)) (funext fun e => ?_)
    have hmatching : (I.matching (settle ∘ f) a e).map f = I.matching settle a (f e) := by
      simp only [matching, filter_map, map_map, Function.comp_def, hf.1]
    rw [extensions, extensions, ← hmatching, isEmpty_map]
    split
    · rw [map_singleton, hf.1]
    · rfl

lemma foldl_join_congr {settle' : Env V → Env V}
    (h : ∀ a ∈ as, ∀ e, I.holds a.condition (.single (settle e)) =
      I.holds a.condition (.single (settle' e))) (es : List (Env V)) (blank' : Env V) :
    as.foldl (I.join settle blank) es = as.foldl (I.join settle' blank') es := by
  induction as generalizing es with
  | nil => rfl
  | cons a as ih =>
    rw [forall_mem_cons] at hright h
    have hmatching : I.matching settle a = I.matching settle' a := funext fun e => by
      simp only [matching, h.1]
    have hextensions : I.extensions settle a = I.extensions settle' a := funext fun e => by
      rw [extensions, extensions, hmatching]
    rw [foldl_cons, foldl_cons, ih hright.2 h.2, I.join_eq_flatMap hright.1,
      I.join_eq_flatMap hright.1, hextensions]

end Folds

end Interpretation

namespace Clauses

variable {α β : Type} (c : Clauses)

lemma slice_eq_self (h : c.isSliced = false) (l : List α) : c.slice l = l := by
  simp only [isSliced, Bool.or_eq_false_iff, Option.isSome_eq_false_iff, Option.isNone_iff_eq_none] at h
  simp [slice, h.1, h.2]

lemma slice_map (f : α → β) (l : List α) : c.slice (l.map f) = (c.slice l).map f := by
  cases hl : c.limit <;> cases ho : c.offset <;> simp [slice, hl, ho]

end Clauses

namespace Interpretation

open Phrase

variable (I : Interpretation V) [DecidableEq V] {α : Type} {bs as : List (Candidate V)} {c : Clauses}

lemma transCmp_comap {β : Type} (f : α → β) (cmp : β → β → Ordering) [Std.TransCmp cmp] :
    Std.TransCmp fun a b => cmp (f a) (f b) where
  eq_swap := Std.OrientedCmp.eq_swap
  isLE_trans := Std.TransCmp.isLE_trans

omit [DecidableEq V] in
lemma transCmp_compareKeys (ds : List Direction) : Std.TransCmp (I.compareKeys ds) := by
  have := I.compare_trans
  induction ds with
  | nil => exact { eq_swap := rfl, isLE_trans := fun _ _ => rfl }
  | cons d ds ih =>
    have hd : Std.TransCmp (I.compareDirected d) := by
      unfold compareDirected
      split
      · exact Std.TransCmp.opposite
      · exact this
    have hhead := transCmp_comap (List.headD · I.null) (I.compareDirected d)
    have htail := transCmp_comap List.tail (I.compareKeys ds)
    exact inferInstanceAs (Std.TransCmp (compareLex
      (fun vs ws : List V => I.compareDirected d (vs.headD I.null) (ws.headD I.null))
      fun vs ws => I.compareKeys ds vs.tail ws.tail))

omit [DecidableEq V] in
lemma transCmp_compareCandidates (c : Clauses) : Std.TransCmp (I.compareCandidates c) :=
  have := I.transCmp_compareKeys (c.order.map (·.2))
  transCmp_comap Candidate.keys _

omit [DecidableEq V] in
lemma arrange_perm (c : Clauses) (as : List (Candidate V)) : (I.arrange c as).Perm as :=
  mergeSort_perm _ _

def Untied (c : Clauses) (as : List (Candidate V)) : Prop :=
  as.Pairwise fun a b => I.compareCandidates c a b ≠ .eq

omit [DecidableEq V] in
lemma arrange_eq_of_perm (h : as.Perm bs) (hties : I.Untied c as) : I.arrange c as = I.arrange c bs := by
  have := I.transCmp_compareCandidates c
  have hsymm : Std.Symm fun a b => I.compareCandidates c a b ≠ .eq :=
    ⟨fun a b hab hba => hab (Std.OrientedCmp.eq_comm.1 hba)⟩
  have htotal : ∀ a b, ((I.compareCandidates c a b).isLE || (I.compareCandidates c b a).isLE) := by
    intro a b
    have hswap : I.compareCandidates c b a = (I.compareCandidates c a b).swap :=
      Std.OrientedCmp.eq_swap
    rw [hswap]
    cases I.compareCandidates c a b <;> rfl
  have hsorted : ∀ ds, (I.arrange c ds).Pairwise fun a b => (I.compareCandidates c a b).isLE :=
    pairwise_mergeSort (fun _ _ _ => Std.TransCmp.isLE_trans) htotal
  have hperm := (I.arrange_perm c as).trans (h.trans (I.arrange_perm c bs).symm)
  refine hperm.eq_of_pairwise (fun a b ha hb hab hba => ?_) (hsorted as) (hsorted bs)
  have ha' : a ∈ as := (I.arrange_perm c as).mem_iff.1 ha
  have hb' : b ∈ as := h.mem_iff.2 ((I.arrange_perm c bs).mem_iff.1 hb)
  by_contra hne
  exact hties.forall ha' hb' hne (Std.OrientedCmp.isLE_antisymm hab hba)

omit [DecidableEq V] in
/-- Slices of one multiset of rows, which are sorted without ties if it matters. -/
theorem slice_arrange_perm (h : as.Perm bs) (hties : c.isSliced → I.Untied c as) :
    (c.slice (I.arrange c as)).Perm (c.slice (I.arrange c bs)) := by
  cases hs : c.isSliced with
  | true => rw [I.arrange_eq_of_perm h (hties hs)]
  | false =>
    rw [c.slice_eq_self hs, c.slice_eq_self hs]
    exact (I.arrange_perm c as).trans (h.trans (I.arrange_perm c bs).symm)

variable {I}

lemma value_of_group_perm {X R : Reach} {group : List Phrase}
    (hgroup : group.all (isRowScoped X)) {e e' : Env V} (hkey : I.key group e = I.key group e')
    (hR : ∀ p : Phrase, p.isExport → p.Within R → I.value p (.single e) = I.value p (.single e'))
    {g g' : List (Env V)} (hg : g.Perm g') {p : Phrase} (hp : p.isGroupScoped X R group) :
    I.value p ⟨e, g⟩ = I.value p ⟨e', g'⟩ := by
  have hmember : ∀ {p : Phrase}, group.any (·.same p) → I.value p ⟨e, g⟩ = I.value p ⟨e', g'⟩ := by
    intro p hany
    obtain ⟨q, hq, hsame⟩ := any_eq_true.1 hany
    have hplain : q.hasAggregate = false := by
      simpa using (Bool.and_eq_true_iff.1 (all_eq_true.1 hgroup q hq)).2
    calc I.value p ⟨e, g⟩ = I.value q ⟨e, g⟩ := (I.value_of_same hsame _).symm
      _ = I.value q (.single e) := I.value_of_not_hasAggregate hplain _ _ _
      _ = I.value q (.single e') := map_inj_left.1 hkey q hq
      _ = I.value q ⟨e', g'⟩ := I.value_of_not_hasAggregate hplain _ _ _
      _ = I.value p ⟨e', g'⟩ := I.value_of_same hsame _
  induction p with
  | literal | parameter => rfl
  | column | reference | embedding =>
    simp only [isGroupScoped, Bool.or_eq_true] at hp
    exact hp.elim hmember fun h => hR _ rfl (of_decide_eq_true h)
  | cast d n p ih =>
    rw [isGroupScoped, Bool.or_eq_true] at hp
    exact hp.elim hmember fun h => congrArg (I.cast d) (ih h)
  | formula d n f as ih =>
    rw [isGroupScoped, Bool.or_eq_true] at hp
    refine hp.elim hmember fun h => ?_
    rw [value_formula, value_formula]
    split
    · exact congrArg (I.aggregate f) (Multiset.coe_eq_coe.2 (hg.map _))
    · rename_i hf
      rw [if_neg hf, areGroupScoped_eq, all_eq_true] at h
      exact congrArg (I.apply f) (map_congr_left fun a ha => ih a ha (h a ha))

variable {c : Clauses} {X R : Reach} {o : Env V} {es es' : List (Env V)}

lemma candidates_filterMap (c : Clauses) (f : α → Option (Scene V)) (l : List α) :
    I.candidates c (l.filterMap f) =
      l.filterMap fun x => ((f x).filter (I.holds c.having)).map (I.candidate c) := by
  rw [candidates, filter_filterMap, map_filterMap]

lemma draft_ofRows_perm (hc : c.isScoped X R) (hgroup : c.group ≠ []) {k : List V}
    (h : es.Perm es') (hkey : ∀ e ∈ es, I.key c.group e = k)
    (hR : ∀ e ∈ es, I.Reads [] R o (.single e)) :
    ((Scene.ofRows? es).filter (I.holds c.having)).map (I.candidate c) =
      ((Scene.ofRows? es').filter (I.holds c.having)).map (I.candidate c) := by
  cases es with
  | nil => rw [h.nil_eq]
  | cons e g =>
    cases es' with
    | nil => exact absurd h.symm (not_perm_nil_cons _ _)
    | cons e' g' =>
      have he' : e' ∈ e :: g := h.symm.mem_iff.1 mem_cons_self
      simp only [Clauses.isScoped, Bool.and_eq_true, all_eq_true] at hc
      have hvalue : ∀ p ∈ c.outputPhrases,
          I.value p ⟨e, e :: g⟩ = I.value (p.substitute []) ⟨e', e' :: g'⟩ := by
        intro p hp
        have hscoped : p.isGroupScoped X R c.group := by
          simpa [Clauses.isGrouped, hgroup] using (hc.2 p hp).2
        rw [Substitutes.substitute_nil]
        refine value_of_group_perm (all_eq_true.2 hc.1.2) ?_ (fun q hq hw => ?_) h hscoped
        · rw [hkey e mem_cons_self, hkey e' he']
        · have he := hR e mem_cons_self q hq hw
          rw [Substitutes.substitute_nil] at he
          rw [← he, hR e' he' q hq hw, Substitutes.substitute_nil]
      have hholds := holds_having_substitute hvalue
      have hcandidate := candidate_substitute hvalue
      rw [Clauses.substitute_nil] at hholds hcandidate
      simp only [Scene.ofRows?, Option.filter, hholds]
      split <;> simp [hcandidate]

lemma drafts_perm (hc : c.isScoped X R) (hsummary : c.isSummary = false)
    (hes : es.Perm es') (hR : ∀ e ∈ es, I.Reads [] R o (.single e)) :
    (I.drafts c o es).Perm (I.drafts c o es') := by
  have hfilter := hes.filter fun e => I.holds c.filter (.single e)
  unfold drafts scenes
  rw [hsummary]
  simp only [Bool.false_eq_true, if_false]
  split
  · exact ((hfilter.map _).filter _).map _
  · rename_i hgroup
    rw [groups, groups, candidates_filterMap, candidates_filterMap]
    refine ((hfilter.map _).dedup.filterMap _).trans (.of_eq (filterMap_congr fun k _ => ?_))
    refine draft_ofRows_perm (k := k) (o := o) hc (by simpa using hgroup) (hfilter.filter _) ?_
      fun e he => ?_
    · exact fun e he => of_decide_eq_true (mem_filter.1 he).2
    · exact hR e (mem_filter.1 (mem_filter.1 he).1).1

end Interpretation

end NavQuery
