import NavQuery.Proofs.FrameScope

/-!
`rows_substitute`: a frame keeps its rows when the environment changes to one in which the references to
frames that are gone read as the phrases put in their place.
-/

namespace NavQuery

open List

variable {V : Type} {blank blank' : Env V}

namespace Interpretation

open Phrase

variable (I : Interpretation V) [DecidableEq V]

/-- Rows that are joined side by side stay side by side. -/
theorem forall₂_join {Q Q' : Env V → Env V → Prop} {ρ : Row V → Row V → Prop}
    {a a' : Anchor (Relation V)} {settle settle' : Env V → Env V}
    {es es' : List (Env V)} (hes : List.Forall₂ Q es es')
    (hrows : List.Forall₂ ρ a.frame.rows a'.frame.rows) (hleft : a'.left = a.left)
    (hright : a'.right = a.right)
    (hbind : ∀ e e' r r', Q e e' → ρ r r' → Q' (e.bind a.frame.tag r) (e'.bind a'.frame.tag r'))
    (hmissing : a.left → ∀ e e', Q e e' →
      Q' (e.bind a.frame.tag I.missing) (e'.bind a'.frame.tag I.missing))
    (hblank : a.right → ∀ r r', ρ r r' → Q' (blank.bind a.frame.tag r) (blank'.bind a'.frame.tag r'))
    (hcond : ∀ e e', Q' e e' → I.holds a.condition (.single (settle e)) =
      I.holds a'.condition (.single (settle' e'))) :
    List.Forall₂ Q' (I.join settle blank es a) (I.join settle' blank' es' a') := by
  have hmatching : ∀ e e', Q e e' →
      List.Forall₂ Q' (I.matching settle a e) (I.matching settle' a' e') := by
    intro e e' he
    refine rel_filter (fun x y hxy => Bool.eq_iff_iff.1 (hcond x y hxy)) ?_
    exact rel_map (fun r r' hr => hbind e e' r r' he hr) hrows
  refine rel_append (rel_flatMap hes fun e e' he => ?_) ?_
  · have hempty : (I.matching settle' a' e').isEmpty = (I.matching settle a e).isEmpty := by
      have h := (hmatching e e' he).length_eq
      rw [Bool.eq_iff_iff, isEmpty_iff_length_eq_zero, isEmpty_iff_length_eq_zero, h]
    rw [extensions, extensions, hleft, hempty]
    split
    · rename_i h
      exact .cons (hmissing (Bool.and_eq_true_iff.1 h).1 e e' he) .nil
    · exact hmatching e e' he
  · rw [hright]
    split
    · rename_i h
      refine rel_map (fun r r' hr => hblank h r r' hr) (rel_filter (fun r r' hr => ?_) hrows)
      refine Bool.eq_iff_iff.1 (all_eq_all_of_forall₂ hes fun e e' he => ?_)
      rw [hcond _ _ (hbind e e' r r' he hr)]
    · exact .nil

section Joins

open Frame

variable {I} {s : Substitutes} {R : Reach}

variable {e e' : Env V} {extend : Reach → Reach} {settle settle' : Env V → Env V}

lemma holds_substitute {p : Option Phrase} (hp : p.all (isRowScoped R)) (h : I.Reads s R e (.single e')) :
    I.holds p (.single e) = I.holds (p.map (·.substitute s)) (.single e') := by
  cases p with
  | none => rfl
  | some p =>
    have hw : p.Within R := of_decide_eq_true (Bool.and_eq_true_iff.1 hp).1
    exact congrArg I.isTrue (h.value_eq hw)

variable (db : Database V) {o o' : Env V}

lemma reads_blank (as : List (Anchor Frame)) (htags : ∀ a ∈ as, a.frame.tag ∉ s.tags) (h : I.Reads s R e (.single e')) :
    I.Reads s (reachOf as R) (I.blank (I.relations db as o) e)
      (.single (I.blank (I.relations db (substituteAnchors s as) o') e')) := by
  induction as generalizing R e e' with
  | nil => exact h
  | cons a as ih =>
    rw [forall_mem_cons] at htags
    rw [substituteAnchors, relations, relations, relation_eq, substituteAnchor_eq, relation_eq,
      tag_substitute]
    exact ih htags.2 (h.bind htags.1 (fun _ => of_mem_exports) I.missing)

lemma forall₂_joins (hsettle : ∀ R e e', I.Reads s R e (.single e') →
      I.Reads s (extend R) (settle e) (.single (settle' e')))
    {B : Reach} (as : List (Anchor Frame))
    (hblank : ∀ a ∈ as, a.right → I.Reads s B blank (.single blank'))
    (hB : reachOf as R ⊆ B) (htags : ∀ a ∈ as, a.frame.tag ∉ s.tags)
    (hrows : ∀ a ∈ as, I.rows db (a.frame.substitute s) o' = I.rows db a.frame o)
    (hscoped : areConditionsScoped extend as R) {es es' : List (Env V)}
    (hes : I.ReadsAll s R es es') :
    I.ReadsAll s (reachOf as R) ((I.relations db as o).foldl (I.join settle blank) es)
      ((I.relations db (substituteAnchors s as) o').foldl (I.join settle' blank') es') := by
  induction as generalizing R es es' with
  | nil => exact hes
  | cons a as ih =>
    rw [areConditionsScoped, Bool.and_eq_true] at hscoped
    rw [forall_mem_cons] at htags hrows hblank
    have hbind : ∀ {R e e'}, I.Reads s R e (.single e') → ∀ r,
        I.Reads s (a.frame.exports ++ R) (e.bind a.frame.tag r) (.single (e'.bind a.frame.tag r)) :=
      fun h r => h.bind htags.1 (fun _ => of_mem_exports) r
    have hR : R ⊆ B := List.Subset.trans (subset_reachOf (a :: as) R) hB
    rw [substituteAnchors, relations, relations, relation_eq, substituteAnchor_eq, relation_eq,
      tag_substitute, hrows.1]
    refine ih hblank.2 hB htags.2 hrows.2 hscoped.2 (I.forall₂_join (ρ := Eq) hes ?_ rfl rfl ?_ ?_ ?_ ?_)
    · exact forall₂_refl _
    · rintro e e' r _ he rfl
      exact hbind he r
    · exact fun _ e e' he => hbind he I.missing
    · rintro hr r _ rfl
      exact (hbind (hblank.1 hr) r).mono (append_subset.2
        ⟨subset_append_left _ _, subset_append_of_subset_right _ hR⟩)
    · exact fun e e' he => holds_substitute hscoped.1 (hsettle _ _ _ he)

lemma forall₂_joinAll (hsettle : ∀ R e e', I.Reads s R e (.single e') →
      I.Reads s (extend R) (settle e) (.single (settle' e')))
    (h : I.Reads s R o (.single o')) (as : List (Anchor Frame))
    (htags : ∀ a ∈ as, a.frame.tag ∉ s.tags)
    (hrows : ∀ a ∈ as, I.rows db (a.frame.substitute s) o' = I.rows db a.frame o)
    (hscoped : areConditionsScoped extend as R) :
    I.ReadsAll s (reachOf as R) (I.joinAll settle o (I.relations db as o))
      (I.joinAll settle' o' (I.relations db (substituteAnchors s as) o')) := by
  have hblank : I.Reads s (reachOf as R) (I.blank (I.relations db as o) o)
      (.single (I.blank (I.relations db (substituteAnchors s as) o') o')) := reads_blank db as htags h
  cases as with
  | nil => exact .cons h .nil
  | cons a as =>
    rw [areConditionsScoped, Bool.and_eq_true] at hscoped
    rw [forall_mem_cons] at htags hrows
    refine forall₂_joins db hsettle as (fun _ _ _ => hblank) (fun _ => id) htags.2 hrows.2 hscoped.2 ?_
    rw [relation_eq, substituteAnchor_eq, relation_eq, tag_substitute, hrows.1]
    refine rel_map (R := Eq) ?_ (forall₂_refl _)
    rintro r _ rfl
    exact h.bind htags.1 (fun _ => of_mem_exports) r

end Joins

section Scenes

variable {s : Substitutes} {R : Reach}

/-- The row at hand and each row of its group read their partners. -/
structure ReadsScene (s : Substitutes) (R : Reach) (k k' : Scene V) : Prop where
  env : I.Reads s R k.env (.single k'.env)
  group : I.ReadsAll s R k.group k'.group

variable {I} {k' k : Scene V} {es' es : List (Env V)} {c : Clauses} {p : Phrase} {group : List Phrase}

lemma ReadsScene.value (hs : s.Plain) (h : I.ReadsScene s R k k')
    (hp : p.Within R) : I.value p k = I.value (p.substitute s) k' :=
  I.value_substitute hp (h.env.scene hs _) fun _ => h.group

lemma forall₂_filter {p : Option Phrase} (hp : p.all (isRowScoped R)) (hes : I.ReadsAll s R es es') :
    I.ReadsAll s R (es.filter fun e => I.holds p (.single e))
      (es'.filter fun e => I.holds (p.map (·.substitute s)) (.single e)) :=
  rel_filter (fun _ _ he => Bool.eq_iff_iff.1 (holds_substitute hp he)) hes

lemma key_substitute (hg : group.all (isRowScoped R)) {e e' : Env V} (h : I.Reads s R e (.single e')) :
    I.key group e = I.key (group.map (·.substitute s)) e' := by
  rw [key, key, map_map]
  refine map_congr_left fun p hp => ?_
  have hw : p.Within R := of_decide_eq_true (Bool.and_eq_true_iff.1 (all_eq_true.1 hg p hp)).1
  exact h.value_eq hw

lemma readsScene_ofRows? (hes : I.ReadsAll s R es es') :
    Option.Rel (I.ReadsScene s R) (Scene.ofRows? es) (Scene.ofRows? es') := by
  cases hes with
  | nil => exact .none
  | cons he hes => exact .some ⟨he, .cons he hes⟩

lemma forall₂_groups (hg : group.all (isRowScoped R)) (hes : I.ReadsAll s R es es') :
    List.Forall₂ (I.ReadsScene s R) (I.groups group es) (I.groups (group.map (·.substitute s)) es') := by
  have hkeys := map_eq_map_of_forall₂ hes fun _ _ he => key_substitute hg he
  rw [groups, hkeys]
  refine rel_filterMap (R := Eq) ?_ (forall₂_refl _)
  rintro k _ rfl
  refine readsScene_ofRows? (rel_filter (fun e e' he => ?_) hes)
  simp [key_substitute hg he]

/-- What one group of all rows gives depends on no row outside the aggregates. -/
theorem value_substitute_summary {outer : Reach}
    (hp : p.isGroupScoped R outer []) (h : I.Reads s outer k.env k')
    (hg : I.ReadsAll s R k.group k'.group) :
    I.value p k = I.value (p.substitute s) k' := by
  induction p with
  | literal | parameter => rfl
  | cast d n p ih =>
    refine congrArg (I.cast d) (ih ?_)
    simpa [isGroupScoped] using hp
  | column | reference | embedding => exact h _ rfl (by simpa [isGroupScoped] using hp)
  | formula d n f as ih =>
    rw [isGroupScoped, any_nil, Bool.false_or] at hp
    rw [substitute_formula, value_formula, value_formula]
    split at hp
    · rename_i hf
      rw [if_pos hf, if_pos hf]
      refine congrArg (fun g : List (List V) => I.aggregate f g) ?_
      exact map_eq_map_of_forall₂ hg fun e e' he => key_substitute hp he
    · rename_i hf
      rw [areGroupScoped_eq, all_eq_true] at hp
      rw [if_neg hf, if_neg hf, map_map]
      exact congrArg (I.apply f) (map_congr_left fun a ha => ih a ha (hp a ha))

lemma holds_having_substitute (h : ∀ p ∈ c.outputPhrases, I.value p k = I.value (p.substitute s) k') :
    I.holds c.having k = I.holds (c.substitute s).having k' := by
  cases hh : c.having with
  | none => simp [Clauses.substitute, hh]
  | some p => simp [Clauses.substitute, hh, holds, h p (by simp [Clauses.mem_outputPhrases, hh])]

lemma candidate_substitute (h : ∀ p ∈ c.outputPhrases, I.value p k = I.value (p.substitute s) k') :
    I.candidate c k = I.candidate (c.substitute s) k' := by
  have hselect : ∀ p ∈ c.select, I.value p k = I.value (p.substitute s) k' := fun p hp =>
    h p (Clauses.mem_outputPhrases.2 (.inl hp))
  have horder : ∀ i ∈ c.order, I.value i.1 k = I.value (i.1.substitute s) k' := fun i hi =>
    h i.1 (Clauses.mem_outputPhrases.2 (.inr (.inr ⟨i, hi, rfl⟩)))
  simp only [candidate, Clauses.substitute, map_map]
  rw [map_congr_left horder, map_congr_left hselect]
  rfl

lemma candidates_substitute {ks ks' : List (Scene V)}
    (h : List.Forall₂ (fun k k' => ∀ p ∈ c.outputPhrases, I.value p k = I.value (p.substitute s) k')
      ks ks') :
    I.candidates c ks = I.candidates (c.substitute s) ks' :=
  map_eq_map_of_forall₂ (rel_filter (fun _ _ hk => Bool.eq_iff_iff.1 (holds_having_substitute hk))
    h) fun _ _ hk => candidate_substitute hk

variable {outer : Reach} {o o' : Env V} {es es' : List (Env V)}

lemma forall₂_scenes (hs : s.Plain) (hc : c.isScoped R outer) (ho : I.Reads s outer o (.single o'))
    (hes : I.ReadsAll s R es es') :
    List.Forall₂ (fun k k' => ∀ p ∈ c.outputPhrases, I.value p k = I.value (p.substitute s) k')
      (I.scenes c o es) (I.scenes (c.substitute s) o' es') := by
  simp only [Clauses.isScoped, Bool.and_eq_true, all_eq_true, decide_eq_true_eq] at hc
  obtain ⟨⟨-, hgroup⟩, houtput⟩ := hc
  have hvalue : ∀ k k', I.ReadsScene s R k k' → ∀ p ∈ c.outputPhrases,
      I.value p k = I.value (p.substitute s) k' := fun k k' hk p hp => hk.value hs (houtput p hp).1
  unfold scenes
  rw [Clauses.isSummary_substitute hs, show (c.substitute s).group.isEmpty = c.group.isEmpty by
    simp [Clauses.substitute]]
  split
  · rename_i hsum
    refine .cons (fun p hp => ?_) .nil
    cases hes with
    | nil =>
      have hnil : c.group = [] := by simpa using (Bool.and_eq_true_iff.1 hsum).1
      have hscoped := (houtput p hp).2
      rw [Clauses.isGrouped, hsum, hnil] at hscoped
      exact value_substitute_summary (R := R) (by simpa using hscoped) (ho.scene hs _) .nil
    | @cons e e' es es' he hes =>
      exact hvalue ⟨e, e :: es⟩ ⟨e', e' :: es'⟩ ⟨he, .cons he hes⟩ p hp
  · split
    · exact rel_map (fun e e' he => hvalue (.single e) (.single e') ⟨he, .cons he .nil⟩) hes
    · refine (forall₂_groups ?_ hes).imp hvalue
      exact all_eq_true.2 hgroup

/-- What a query selects from rows that read their partners. -/
theorem drafts_substitute (hs : s.Plain) (hc : c.isScoped R outer) (ho : I.Reads s outer o (.single o'))
    (hes : I.ReadsAll s R es es') :
    I.drafts c o es = I.drafts (c.substitute s) o' es' := by
  have hfilter : c.filter.all (isRowScoped R) := by
    simp only [Clauses.isScoped, Bool.and_eq_true] at hc
    exact hc.1.1
  exact candidates_substitute (forall₂_scenes hs hc ho (forall₂_filter hfilter hes))

end Scenes

open Frame

variable {I} {s : Substitutes} (db : Database V) {anchors anchors' : List (Anchor Frame)}
  {embedded embedded' : List Frame}

variable {R : Reach} {e' e : Env V}

/-- Subqueries that have the same rows on both sides have the same values. -/
theorem reads_settle (fs : List Frame) (htags : ∀ f ∈ fs, f.tag ∉ s.tags)
    (hrows : ∀ f ∈ fs, ∀ {R e e'}, f.isScoped R → I.Reads s R e (.single e') →
      I.rows db (f.substitute s) e' = I.rows db f e)
    (h : I.Reads s R e (.single e')) :
    I.Reads s (answersWithin fs R) (I.settle db fs e)
      (.single (I.settle db (substituteAll s fs) e')) := by
  induction fs generalizing R e e' with
  | nil => exact h
  | cons f fs ih =>
    rw [forall_mem_cons] at htags hrows
    rw [Frame.substituteAll, settle, settle, tag_substitute]
    refine ih htags.2 hrows.2 ?_
    split
    · rename_i hf
      rw [hrows.1 hf h]
      exact h.embed htags.1 _
    · exact h.hide htags.1 _ _

lemma rows_query_substitute (hs : s.Plain) {c : Clauses} {R' : Reach}
    (hc : c.isScoped (answersWithin embedded R') R) {o o' : Env V}
    (ho : I.Reads s R o (.single o'))
    (hsettle : ∀ e e', I.Reads s R' e (.single e') → I.Reads s (answersWithin embedded R')
      (I.settle db embedded e) (.single (I.settle db embedded' e')))
    (hjoin : I.ReadsAll s R' (I.joinAll (I.settle db embedded) o (I.relations db anchors o))
      (I.joinAll (I.settle db embedded') o' (I.relations db anchors' o'))) :
    I.rows db (query (c.substitute s) anchors' embedded') o' =
      I.rows db (query c anchors embedded) o := by
  have hsettled := rel_map (P := fun e e' => I.Reads s _ e (.single e')) hsettle hjoin
  rw [rows, rows, answers, answers, drafts_substitute hs hc ho hsettled]
  simp only [arrange, compareCandidates, Clauses.substitute, map_map]
  rfl

lemma rows_substitute (hs : s.Plain) (f : Frame) (htags : ∀ t ∈ f.tags, t ∉ s.tags) (hf : f.isScoped R) (h : I.Reads s R e (.single e')) :
    I.rows db (f.substitute s) e' = I.rows db f e := by
  induction f generalizing R e e' with
  | scalar | table => rfl
  | query c anchors embedded iha ihe =>
    simp only [isScoped, Bool.and_eq_true, areAnchorsScoped_eq, all_eq_true] at hf
    obtain ⟨⟨⟨hanchors, -⟩, hconditions⟩, hc⟩ := hf
    simp only [tags, anchorTags_eq, allTags_eq, mem_cons, mem_append, mem_flatMap] at htags
    have hsettle : ∀ R e e', I.Reads s R e (.single e') →
        I.Reads s (answersWithin embedded R) (I.settle db embedded e)
          (.single (I.settle db (substituteAll s embedded) e')) := fun _ _ _ =>
      reads_settle db embedded (fun f hf => htags _ (.inr (.inr ⟨f, hf, f.tag_mem_tags⟩)))
        fun f hf {_ _ _} => ihe f hf fun t ht => htags t (.inr (.inr ⟨f, hf, ht⟩))
    refine rows_query_substitute db hs hc h (hsettle _) (forall₂_joinAll db hsettle h anchors
      (fun a ha => htags _ (.inr (.inl ⟨a, ha, a.frame.tag_mem_tags⟩)))
      (fun a ha => iha a ha (fun t ht => htags t (.inr (.inl ⟨a, ha, ht⟩))) (hanchors a ha) h)
      hconditions)

end Interpretation

end NavQuery
