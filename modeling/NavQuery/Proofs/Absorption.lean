import NavQuery.Proofs.HeadMerging

/-!
`rows_absorbHead`: the rows of a query stay the same when its first anchor is dropped as the unit row or
merged. Phrases still refer to merged frames; a map has the phrases that these references read.
-/

namespace NavQuery

open List Clauses

variable {V : Type}

namespace Interpretation

open Phrase Frame

variable (I : Interpretation V) [DecidableEq V] (db : Database V)

def around (head : Clauses) (outer : List Frame) (o : Env V) (k : Scene V) : Env V :=
  I.settle db outer (o.bind head.tag (I.rowOf (head.select.map (I.value · k))))

abbrev scenesOf (p : Parts) (o : Env V) : List (Scene V) :=
  I.scenes p.clauses o ((I.joined db p o).filter fun e => I.holds p.clauses.filter (.single e))

/-- The frames of a head that is the only one joined, with clauses for the merged query. -/
abbrev mergedParts (head m : Clauses) (anchors : List (Anchor Frame)) (inner outer : List Frame) : Parts :=
  ⟨m, substituteAnchors head.substitutes (anchors ++ []),
    Frame.substituteAll head.substitutes (inner ++ outer)⟩

/-- A row or group of the head and one of the merged query that give the same row. -/
structure Mirrors (head : Clauses) (outer : List Frame) (X : Reach) (o : Env V) (k k' : Scene V) :
    Prop where
  reads : I.Reads head.substitutes X (I.around db head outer o k) k'
  order : ∀ i ∈ head.order, I.value i.1 k' = I.value i.1 k

variable {I db} {c head m : Clauses} {anchors : List (Anchor Frame)} {inner outer : List Frame}
  {x : Option Phrase} {l r : Bool} {R X : Reach} {o : Env V}

variable {k k' : Scene V}

lemma Mirrors.value (h : I.Mirrors db head outer X o k k') {p : Phrase}
    (hp : p.Within X) (hplain : p.hasAggregate = false) :
    I.value p (.single (I.around db head outer o k)) = I.value (p.substitute head.substitutes) k' :=
  I.value_substitute hp h.reads fun hagg => absurd hagg (by simp [hplain])

lemma Mirrors.holds_filter (h : I.Mirrors db head outer X o k k')
    (hc : c.isScoped X R) : I.holds c.filter (.single (I.around db head outer o k)) =
      I.holds (c.substitute head.substitutes).filter k' := by
  simp only [Clauses.isScoped, Bool.and_eq_true] at hc
  cases hp : c.filter with
  | none => simp [Clauses.substitute, hp]
  | some p =>
    rw [hp, Option.all_some, isRowScoped, Bool.and_eq_true, decide_eq_true_eq] at hc
    simp [Clauses.substitute, hp, holds, h.value hc.1.1.1 (by simpa using hc.1.1.2)]

lemma Mirrors.candidate (h : I.Mirrors db head outer X o k k')
    (hc : c.isScoped X R) (hsummary : c.isSummary = false) (hgroup : c.group = []) :
    I.candidate c (.single (I.around db head outer o k)) =
      I.candidate (c.substitute head.substitutes) k' :=
  candidate_substitute fun p hp => h.value ((within_of_isScoped hc).2.2 p hp)
    ((isSummary_eq_false_iff.1 hsummary hgroup).2 p hp)

lemma env_mem_of_mem_scenes (hsummary : c.isSummary = false) {es : List (Env V)}
    (hk : k ∈ I.scenes c o es) : k.env ∈ es := by
  unfold scenes at hk
  rw [hsummary, if_neg Bool.false_ne_true] at hk
  split at hk
  · obtain ⟨e, he, rfl⟩ := mem_map.1 hk
    exact he
  · obtain ⟨v, -, hv⟩ := mem_filterMap.1 hk
    unfold groupOf at hv
    cases hfilter : es.filter fun e => I.key c.group e = v with
    | nil => simp [hfilter, Scene.ofRows?] at hv
    | cons e g =>
      rw [hfilter, Scene.ofRows?, Option.some_inj] at hv
      have he : e ∈ es.filter fun e => I.key c.group e = v := hfilter ▸ mem_cons_self
      exact hv ▸ (mem_filter.1 he).1

omit [DecidableEq V] in
lemma arrange_map {f : Candidate V → Candidate V} (hf : ∀ d, (f d).keys = d.keys)
    (ds : List (Candidate V)) : I.arrange c (ds.map f) = (I.arrange c ds).map f := by
  refine (map_mergeSort fun a _ b _ => ?_).symm
  rw [compareCandidates, compareCandidates, hf, hf]

section Merged

variable (db) (hF : (query c [⟨query head anchors inner, x, l, r⟩] outer).WellScoped R)
  (hanchors : ∀ a ∈ anchors, a.right = false) (hhead : head.isSummary = false)

include hF hanchors hhead

variable (hm : m.isSummary = false) (hfilter : ∀ k, I.holds m.filter k = I.holds head.filter k)
  (hgroup : m.group = head.group) (houter : head.group ≠ [] → outer = [])
include hm hfilter hgroup houter

lemma forall₂_mirrors : List.Forall₂ (I.Mirrors db head outer
      (answersWithin outer (reachOf [⟨query head anchors inner, x, l, r⟩] R)) o)
    (I.scenesOf db ⟨head, anchors, inner⟩ o)
    (I.scenesOf db (mergedParts head m anchors inner outer) o) := by
  have hjoined : I.joined db (mergedParts head m anchors inner outer) o =
      (I.joined db ⟨head, anchors, inner⟩ o).map
        (I.settle db (Frame.substituteAll head.substitutes outer)) :=
    joined_merged db hF (fun _ => rfl) hanchors (by simp) m o
  have hreads : ∀ k ∈ I.scenesOf db ⟨head, anchors, inner⟩ o, I.Reads [] R o (.single k.env) := fun k hk =>
    reads_joined db hF.first hanchors _ (mem_filter.1 (env_mem_of_mem_scenes hhead hk)).1
  have hwithin := within_of_isScoped hF.first.clauses
  rw [scenesOf, scenesOf, hjoined]
  simp only [hfilter]
  by_cases hempty : head.group = []
  · have hplain := plain_substitutes hhead hempty
    have husesFilter : ∀ p ∈ head.filter, ∀ u ∈ p.uses,
        u.tag ∈ (query head anchors inner).tags ∨ u.tag ∈ R.tags := fun p hp u hu =>
      mem_tags_of_mem_reach ((hwithin.1 p hp).tag_mem hu)
    simp only [scenes, hhead, hm, hgroup, hempty, isEmpty_nil, if_true, Bool.false_eq_true,
      if_false] at hreads ⊢
    rw [filter_map]
    simp only [Function.comp_def, holds_settle_outer db hF husesFilter]
    rw [map_map, forall₂_map_left_iff, forall₂_map_right_iff, forall₂_same]
    intro e he
    refine ⟨?_, fun i hi => ?_⟩
    · exact reads_settle_outer db hF hplain
        (reads_head hF.first.tag_not_mem (hreads _ (mem_map_of_mem he)))
    · refine value_settle_outer db hF (fun u hu => mem_tags_of_mem_reach ?_) _ e
      exact (hwithin.2.2 _ (mem_outputPhrases.2 (.inr (.inr ⟨i, hi, rfl⟩)))).tag_mem hu
  · obtain rfl := houter hempty
    have hscenes : ∀ es : List (Env V), I.scenes m o es = I.scenes head o es := fun es => by
      simp [scenes, hhead, hm, hgroup]
    rw [hscenes]
    simp only [Frame.substituteAll, settle, map_id']
    refine forall₂_same.2 fun k hk => ⟨?_, fun _ _ => rfl⟩
    exact reads_head hF.first.tag_not_mem (hreads k hk)

variable (hhaving : head.having = none) (hc : c.isSummary = false) (hcgroup : c.group = [])
  (hselect : m.select = (c.substitute head.substitutes).select)
include hhaving hc hcgroup hselect

lemma draftsOf_merged_groups (hslice : head.isSliced = false)
    (hmhaving : m.having = (c.substitute head.substitutes).filter)
    (horder : m.order = (c.substitute head.substitutes).order) :
    (I.draftsOf db ⟨c, [⟨query head anchors inner, x, l, r⟩], outer⟩ o).Perm
      (I.draftsOf db (mergedParts head m anchors inner outer) o) := by
  have hmirrors := forall₂_mirrors (I := I) db (o := o) hF hanchors hhead hm hfilter hgroup houter
  have hjoined : (I.joined db ⟨c, [⟨query head anchors inner, x, l, r⟩], outer⟩ o).Perm
      ((I.scenesOf db ⟨head, anchors, inner⟩ o).map (I.around db head outer o)) := by
    refine (((rows_query_perm db _ _ hslice).map (o.bind head.tag)).map (I.settle db outer)).trans
      (.of_eq ?_)
    simp only [draftsOf, drafts, candidates, hhaving, holds_none, filter_true, map_map]
    rfl
  have hdrafts : (I.draftsOf db ⟨c, [⟨query head anchors inner, x, l, r⟩], outer⟩ o).Perm
      (((I.scenesOf db ⟨head, anchors, inner⟩ o).filter fun k =>
        I.holds c.filter (.single (I.around db head outer o k))).map fun k =>
          I.candidate c (.single (I.around db head outer o k))) := by
    rw [draftsOf, drafts_eq_map hc hcgroup]
    have hperm := (hjoined.filter fun e => I.holds c.filter (.single e)).map fun e =>
      I.candidate c (.single e)
    rwa [filter_map, map_map] at hperm
  refine hdrafts.trans (.of_eq ?_)
  refine map_eq_map_of_forall₂ (rel_filter (fun k k' hk => ?_) hmirrors) fun k k' hk => ?_
  · rw [hmhaving]
    exact Bool.eq_iff_iff.1 (hk.holds_filter hF.clauses)
  · rw [hk.candidate hF.clauses hc hcgroup, candidate, candidate, hselect, horder]

lemma rows_merged_slice (hcfilter : c.filter = none) (hcslice : c.isSliced = false)
    (hmhaving : m.having = none) (horder : m.order = head.order) (hlimit : m.limit = head.limit)
    (hoffset : m.offset = head.offset) :
    (I.rows db (mergedParts head m anchors inner outer).frame o).Perm
      (I.rows db (query c [⟨query head anchors inner, x, l, r⟩] outer) o) := by
  have hmirrors := forall₂_mirrors (I := I) db (o := o) hF hanchors hhead hm hfilter hgroup houter
  -- what the query around the head makes of one of its rows
  let made : Candidate V → List V := fun d =>
    c.select.map (I.value · (.single (I.settle db outer (o.bind head.tag (I.rowOf d.items)))))
  have hdrafts : I.draftsOf db (mergedParts head m anchors inner outer) o =
      (I.draftsOf db ⟨head, anchors, inner⟩ o).map fun d => ⟨d.keys, made d⟩ := by
    simp only [draftsOf, drafts, candidates, hhaving, hmhaving, holds_none, filter_true, map_map]
    refine (map_eq_map_of_forall₂ hmirrors fun k k' hk => ?_).symm
    have hitems := congrArg Candidate.items (hk.candidate hF.clauses hc hcgroup)
    have hkeys : head.order.map (fun i => I.value i.1 k') = head.order.map fun i => I.value i.1 k :=
      map_congr_left hk.order
    simp only [candidate] at hitems
    simp only [candidate, horder, hselect, ← hitems, hkeys]
    rfl
  have hslice : ∀ l : List (Candidate V), m.slice l = head.slice l := fun l => by
    rw [Clauses.slice, Clauses.slice, hlimit, hoffset]
  have harrange : I.arrange m = I.arrange head := by
    unfold arrange compareCandidates
    rw [horder]
  have hafter := I.rows_frame db (mergedParts head m anchors inner outer) o
  rw [hdrafts, harrange, hslice, arrange_map (f := fun d => ⟨d.keys, made d⟩) fun _ => rfl,
    slice_map, map_map] at hafter
  have hbefore := rows_query_perm (I := I) (o := o) db [⟨query head anchors inner, x, l, r⟩] outer hcslice
  refine (List.Perm.of_eq hafter).trans (hbefore.trans (.of_eq ?_)).symm
  have hjoined : I.joined db ⟨c, [⟨query head anchors inner, x, l, r⟩], outer⟩ o =
      ((I.rows db (Parts.frame ⟨head, anchors, inner⟩) o).map (o.bind head.tag)).map
        (I.settle db outer) := rfl
  rw [draftsOf, drafts_eq_map hc hcgroup, hcfilter, hjoined, I.rows_frame db]
  simp only [holds_none, filter_true, map_map]
  rfl

end Merged

end Interpretation

namespace Phrase

/-- Selected phrases can be put in place of references to items that there are. -/
theorem exists_inline_eq_ok {tag : Tag} {select : List Phrase} (p : Phrase)
    (h : ∀ i, Use.item tag i ∈ p.uses → i < select.length) : ∃ q, p.inline tag select = .ok q := by
  induction p with
  | literal | parameter | column | embedding => exact ⟨_, rfl⟩
  | cast d n p ih =>
    obtain ⟨q, hq⟩ := ih h
    exact ⟨castTo d q, by simp [inline, hq, bind, Except.bind, pure, Except.pure]⟩
  | reference d n t i =>
    by_cases ht : t = tag
    · have hi := h i (by simp [uses, ht])
      exact ⟨select[i], by simp [inline, ht, hi, entry]⟩
    · exact ⟨_, by simp only [inline, if_neg ht]; rfl⟩
  | formula d n f as ih =>
    have hall : ∃ bs, inlineAll tag select as = .ok bs := by
      rw [uses, usesAll_eq] at h
      induction as with
      | nil => exact ⟨[], rfl⟩
      | cons a as iha =>
        simp only [flatMap_cons, mem_append] at h
        obtain ⟨b, hb⟩ := ih a mem_cons_self fun i hi => h i (.inl hi)
        obtain ⟨bs, hbs⟩ := iha (fun a ha => ih a (mem_cons_of_mem _ ha)) fun i hi => h i (.inr hi)
        exact ⟨b :: bs, by simp [inlineAll, hb, hbs, bind, Except.bind, pure, Except.pure]⟩
    obtain ⟨bs, hbs⟩ := hall
    exact ⟨formula d n f bs, by simp [inline, hbs, bind, Except.bind, pure, Except.pure]⟩

lemma mem_uses_substitute_of_lookup {s : Substitutes} {p : Phrase} {u : Use} (hu : u ∈ p.uses)
    (h : s.lookup u.tag = none) : u ∈ (p.substitute s).uses := by
  induction p with
  | literal | parameter | column | embedding => exact hu
  | cast d n p ih => exact ih hu
  | reference d n t i =>
    obtain rfl : u = .item t i := by simpa [uses] using hu
    rw [substitute_reference, show s.lookup t = none from h]
    exact hu
  | formula d n f as ih =>
    rw [substitute_formula]
    obtain ⟨a, ha, hu⟩ := mem_uses_formula.1 hu
    exact mem_uses_formula.2 ⟨_, mem_map_of_mem ha, ih a ha hu⟩

end Phrase

namespace Frame

open Phrase

/-- What the decision to merge a head makes sure of. -/
structure Absorbable (p : Parts) (head : Clauses) (anchors rest : List (Anchor Frame)) : Prop where
  nonempty : anchors = [] → rest = []
  slice : head.isSliced → rest = [] ∧ p.clauses.filter = none ∧ p.clauses.group = [] ∧
    p.clauses.isSliced = false
  group : head.group ≠ [] → rest = [] ∧ p.clauses.group = [] ∧ head.having = none ∧ p.embedded = []

variable {p : Parts} {head : Clauses}

lemma exists_absorbsSlice_eq_ok (rest : List (Anchor Frame))
    (h : ∀ i ∈ p.clauses.order, ∃ q, i.1.inline head.tag head.select = .ok q) :
    ∃ b, absorbsSlice p head rest = .ok b ∧ (b → rest = [] ∧ p.clauses.filter = none ∧
      p.clauses.group = [] ∧ p.clauses.isSliced = false) := by
  dsimp only [absorbsSlice]
  split
  · exact ⟨false, rfl, by simp⟩
  · rename_i hnone
    have hparts : rest = [] ∧ p.clauses.filter = none ∧ p.clauses.group = [] ∧
        p.clauses.isSliced = false := by
      simp only [Bool.or_eq_true, Bool.not_eq_true', not_or, Bool.not_eq_false, List.isEmpty_iff,
        Bool.not_eq_true, Option.isSome_eq_false_iff, Option.isNone_iff_eq_none] at hnone
      exact ⟨hnone.1.1.1.1, hnone.1.1.1.2, hnone.1.1.2, hnone.2⟩
    split
    · exact ⟨true, rfl, fun _ => hparts⟩
    · obtain ⟨items, hitems⟩ := exists_mapM_eq_ok p.clauses.order
        (f := fun i => do pure (← i.1.inline head.tag head.select, i.2)) fun i hi => by
          obtain ⟨q, hq⟩ := h i hi
          exact ⟨(q, i.2), by simp [hq, bind, Except.bind, pure, Except.pure]⟩
      exact ⟨_, by rw [hitems]; rfl, fun _ => hparts⟩

lemma exists_absorbs_eq_ok (anchors rest : List (Anchor Frame))
    (h : ∀ i ∈ p.clauses.order, ∃ q, i.1.inline head.tag head.select = .ok q) :
    ∃ b, absorbs p head anchors rest = .ok b ∧ (b → Absorbable p head anchors rest) := by
  unfold absorbs
  split
  · exact ⟨false, rfl, by simp⟩
  · rename_i hnone
    simp only [Bool.or_eq_true, not_or, Bool.and_eq_true, Bool.not_eq_true', not_and,
      Bool.not_eq_false, List.isEmpty_iff] at hnone
    obtain ⟨b, hb, hslice⟩ := exists_absorbsSlice_eq_ok rest h
    rw [hb]
    dsimp only [bind, Except.bind]
    split
    · exact ⟨false, rfl, by simp⟩
    · rename_i hsliced
      refine ⟨_, rfl, fun htrue => ⟨hnone.2, fun hs => hslice ?_, fun hgroup => ?_⟩⟩
      · simpa [hs] using hsliced
      · simp only [Bool.or_eq_true, List.isEmpty_iff, hgroup, false_or, absorbsGroups,
          Bool.and_eq_true, Option.isNone_iff_eq_none] at htrue
        exact ⟨htrue.1.1.1.1.1, htrue.1.1.1.1.2, htrue.1.1.2, htrue.2⟩

lemma mergeClauses_eq (c head : Clauses) : mergeClauses c head = { c with
      filter := if head.group = [] then conjoin head.filter c.filter else head.filter
      group := if head.group = [] then c.group else head.group
      having := if head.group = [] then c.having else c.filter
      order := if head.isSliced ∨ c.order = [] ∧ c.group = [] then head.order else c.order
      limit := if head.isSliced then head.limit else c.limit
      offset := if head.isSliced then head.offset else c.offset } := by
  by_cases hgroup : head.group = [] <;> cases hslice : head.isSliced <;>
    by_cases hempty : c.order = [] ∧ c.group = [] <;>
    simp [mergeClauses, hgroup, hslice, hempty]

lemma mergeClauses_substitute (s : Substitutes) (c head : Clauses) :
    (mergeClauses c head).substitute s = { mergeClauses (c.substitute s) (head.substitute s) with
        filter := (mergeClauses c head).filter.map (·.substitute s) } := by
  have hslice : (head.substitute s).isSliced = head.isSliced := rfl
  rw [mergeClauses_eq, mergeClauses_eq, hslice]
  simp only [Clauses.substitute, map_eq_nil_iff]
  congr <;> split <;> rfl

variable {rest anchors : List (Anchor Frame)}

lemma Absorbable.substitute (h : Absorbable p head anchors rest) (s : Substitutes) :
    Absorbable (p.substitute s) (head.substitute s) (substituteAnchors s anchors)
      (substituteAnchors s rest) where
  nonempty hnil := by
    rw [substituteAnchors_eq, map_eq_nil_iff] at hnil ⊢
    exact h.nonempty hnil
  slice hs := by
    obtain ⟨rfl, hfilter, hgroup, hslice⟩ := h.slice hs
    exact ⟨rfl, by simp [Parts.substitute, Clauses.substitute, hfilter],
      by simp [Parts.substitute, Clauses.substitute, hgroup], hslice⟩
  group hne := by
    obtain ⟨rfl, hgroup, hhaving, hembedded⟩ := h.group (by simpa [Clauses.substitute] using hne)
    exact ⟨rfl, by simp [Parts.substitute, Clauses.substitute, hgroup],
      by simp [Clauses.substitute, hhaving], by simp [Parts.substitute, hembedded, Frame.substituteAll]⟩

lemma WellScoped.lt_of_item {c : Clauses}
    {inner outer : List Frame} {x : Option Phrase} {l r : Bool} {R : Reach}
    (hF : (query c (⟨query head anchors inner, x, l, r⟩ :: rest) outer).WellScoped R) {p : Phrase}
    (hp : p ∈ c.outputPhrases) {i : Nat} (hi : Use.item head.tag i ∈ p.uses) :
    i < head.select.length := by
  obtain ⟨y, hy, ho⟩ := (within_of_isScoped hF.clauses).2.2 p hp _ hi
  have htag : y.tag = head.tag := Export.tag_eq_of_offers ho
  rcases mem_answersWithin hy with ⟨f, -, rfl⟩ | hy
  · simp [Export.offers] at ho
  rcases mem_reachOf.1 hy with ⟨a, ha, hy⟩ | hy
  · have hfirst : a = ⟨query head anchors inner, x, l, r⟩ := by
      refine hF.eq_of_mem_tags ha mem_cons_self (t := head.tag) ?_ (tag_mem_tags _)
      rw [← htag, (of_mem_exports hy).1]
      exact a.frame.tag_mem_tags
    subst hfirst
    obtain rfl := mem_singleton.1 hy
    simpa [Export.offers] using ho
  · exact absurd (htag ▸ mem_map_of_mem hy) hF.first.tag_not_mem

/-- The query after a look at its first anchor, where `s` has what the references to frames that were
gone before read. -/
def Absorption.outcome (s : Substitutes) : Absorption → Parts
  | finished q => q.substitute s
  | absorbed q t => (q.substitute s).substitute (t.map fun x => (x.1, x.2.map (·.substitute s)))

end Frame

namespace Interpretation

open Phrase Frame

variable (I : Interpretation V) [DecidableEq V] (db : Database V)

/-- The queries of the planner: they have no right joins, no aggregates without groups, and a slice is
one of rows that are sorted without ties. -/
structure Regular (R : Reach) (o : Env V) (p : Parts) : Prop where
  wellScoped : p.frame.WellScoped R
  right : ∀ a ∈ p.anchors, a.right = false
  summary : p.clauses.isSummary = false
  untied : p.clauses.isSliced → p.clauses.order ≠ [] ∧ I.Untied p.clauses (I.draftsOf db p o)
  joined : ∀ a ∈ p.anchors, ∀ c anchors embedded, a.frame = query c anchors embedded →
    c.isSummary = false ∧ ∀ b ∈ anchors, b.right = false

variable {I}

/-- A conjunction keeps the rows that both conditions keep. -/
theorem holds_conjoin {φ : Phrase → Phrase}
    (hφ : ∀ d n f as, φ (.formula d n f as) = .formula d n f (as.map φ)) (p q : Option Phrase)
    (k : Scene V) : I.holds ((conjoin p q).map φ) k = (I.holds (p.map φ) k && I.holds (q.map φ) k) := by
  cases p with
  | none => rfl
  | some p =>
    cases q with
    | none => simp [conjoin]
    | some q =>
      simp only [conjoin, Option.map_some, hφ]
      exact I.isTrue_connect_pair _ _

variable {db} {c head m m₀ : Clauses} {anchors rest : List (Anchor Frame)} {inner outer : List Frame}
  {x : Option Phrase} {l r : Bool} {R : Reach} {o : Env V}

lemma rows_perm_of_regular {p : Parts} (h : I.Regular db R o p)
    (hdrafts : (I.draftsOf db p o).Perm (I.draftsOf db ⟨m₀, anchors, inner⟩ o))
    (hlimit : m₀.limit = p.clauses.limit) (hoffset : m₀.offset = p.clauses.offset)
    (horder : m₀.order.map (·.2) = p.clauses.order.map (·.2))
    (hm : m = m₀ ∨ p.clauses.order = [] ∧ m₀.isSummary = false ∧ m.isSummary = false ∧
      m = { m₀ with order := m.order }) :
    (I.rows db (query m anchors inner) o).Perm (I.rows db p.frame o) := by
  rcases hm with rfl | ⟨hnil, hm₀, hm, heq⟩
  · exact I.rows_perm_of_drafts db (q := ⟨m, anchors, inner⟩) hlimit hoffset horder
      (fun hs => (h.untied hs).2) hdrafts
  · have hsliced : p.clauses.isSliced = false := by
      by_contra hs
      exact (h.untied (by simpa using hs)).1 hnil
    have hitems : (I.draftsOf db ⟨m, anchors, inner⟩ o).map Candidate.items =
        (I.draftsOf db ⟨m₀, anchors, inner⟩ o).map Candidate.items := by
      rw [heq] at hm ⊢
      exact I.items_drafts_of_order hm₀ hm _
    refine I.rows_perm_of_items db (q := ⟨m, anchors, inner⟩) hsliced ?_ ?_
    · rw [← hsliced, isSliced, isSliced, heq, ← hlimit, ← hoffset]
    · exact (hdrafts.map _).trans (.of_eq hitems.symm)

lemma isSummary_merged (hhead : head.isSummary = false) (hc : c.isSummary = false)
    (hcgroup : c.group = []) (hgroup : m.group = [] → head.group = [] ∧ m.having = none)
    (hselect : m.select = (c.substitute head.substitutes).select)
    (horder : m.order = head.order ∨ m.order = (c.substitute head.substitutes).order) :
    m.isSummary = false := by
  refine isSummary_eq_false_iff.2 fun hm => ⟨(hgroup hm).2, fun p hp => ?_⟩
  have hplain := plain_substitutes hhead (hgroup hm).1
  have hheads := (isSummary_eq_false_iff.1 hhead (hgroup hm).1).2
  have hsubstitute : ∀ q ∈ c.outputPhrases, (q.substitute head.substitutes).hasAggregate = false :=
    fun q hq => (Substitutes.hasAggregate_substitute hplain q).trans
      ((isSummary_eq_false_iff.1 hc hcgroup).2 q hq)
  rcases mem_outputPhrases.1 hp with hp | hp | ⟨i, hi, rfl⟩
  · rw [hselect] at hp
    obtain ⟨q, hq, rfl⟩ := mem_map.1 hp
    exact hsubstitute q (mem_outputPhrases.2 (.inl hq))
  · simp [(hgroup hm).2] at hp
  · rcases horder with horder | horder
    · exact hheads i.1 (mem_outputPhrases.2 (.inr (.inr ⟨i, horder ▸ hi, rfl⟩)))
    · rw [horder] at hi
      obtain ⟨j, hj, rfl⟩ := mem_map.1 hi
      exact hsubstitute j.1 (mem_outputPhrases.2 (.inr (.inr ⟨j, hj, rfl⟩)))

section Merge

variable {f : Option Phrase}
  (h : I.Regular db R o ⟨c, ⟨query head anchors inner, x, l, r⟩ :: rest, outer⟩)
  (habsorbable : Absorbable ⟨c, ⟨query head anchors inner, x, l, r⟩ :: rest, outer⟩ head anchors rest)
  (hhead : head.isSummary = false) (hanchors : ∀ b ∈ anchors, b.right = false)
  (hself : head.substitute head.substitutes = head)
  (hfilter : ∀ k, I.holds (f.map (·.substitute head.substitutes)) k =
    I.holds ((mergeClauses c head).filter.map (·.substitute head.substitutes)) k)

variable (I db c head anchors rest inner outer x l r o f) in
/-- Merging leaves the rows, up to their order. -/
abbrev Merges : Prop :=
  (I.rows db (Parts.substitute head.substitutes
      ⟨{ mergeClauses c head with filter := f }, anchors ++ rest, inner ++ outer⟩).frame o).Perm
    (I.rows db (query c (⟨query head anchors inner, x, l, r⟩ :: rest) outer) o)

include hself hfilter in
lemma holds_filter_of_eq (hmerged : (mergeClauses c head).filter = head.filter) (k : Scene V) :
    I.holds (f.map (·.substitute head.substitutes)) k = I.holds head.filter k := by
  rw [hfilter, hmerged]
  exact congrArg (I.holds · k) (congrArg Clauses.filter hself)

include h habsorbable hhead hanchors hself hfilter

lemma rows_merge_plain (hgroup : head.group = []) (hslice : head.isSliced = false) :
    Merges I db c head anchors rest inner outer x l r o f := by
  have hc : c.isSummary = false := h.summary
  have hconj : ∀ k, I.holds (f.map (·.substitute head.substitutes)) k =
      (I.holds head.filter k && I.holds (c.substitute head.substitutes).filter k) := by
    intro k
    have hmerged : (mergeClauses c head).filter = conjoin head.filter c.filter := by
      rw [mergeClauses_eq, if_pos hgroup]
    have hheads : head.filter.map (·.substitute head.substitutes) = head.filter :=
      congrArg Clauses.filter hself
    rw [hfilter, hmerged, holds_conjoin (substitute_formula _), hheads]
    rfl
  have hdrafts := draftsOf_merged db (o := o) h.wellScoped habsorbable.nonempty hanchors h.right hhead
    hgroup hslice h.summary (m := { c.substitute head.substitutes with
      filter := f.map (·.substitute head.substitutes) }) rfl hconj
  refine rows_perm_of_regular h hdrafts rfl rfl (by simp [Clauses.substitute]) ?_
  by_cases hempty : c.order = [] ∧ c.group = []
  · have hhaving := (isSummary_eq_false_iff.1 hc hempty.2).1
    refine .inr ⟨hempty.1, ?_, ?_, ?_⟩
    · exact isSummary_merged hhead hc hempty.2
        (fun _ => ⟨hgroup, by simp [Clauses.substitute, hhaving]⟩) rfl (.inr rfl)
    · refine isSummary_merged hhead hc hempty.2 (fun _ => ⟨hgroup, ?_⟩) ?_ (.inl ?_)
      · simp [mergeClauses_eq, Parts.substitute, Clauses.substitute, hgroup, hhaving]
      · simp [mergeClauses_eq, Parts.substitute, Clauses.substitute]
      · rw [mergeClauses_eq]
        simpa [Parts.substitute, Clauses.substitute, hempty] using congrArg Clauses.order hself
    · simp [mergeClauses_eq, Parts.substitute, Clauses.substitute, hgroup, hslice, hempty]
  · left
    simp [mergeClauses_eq, Parts.substitute, Clauses.substitute, hgroup, hslice, hempty]

lemma rows_merge_groups (hgroup : head.group ≠ []) (hslice : head.isSliced = false) :
    Merges I db c head anchors rest inner outer x l r o f := by
  obtain ⟨rfl, hcgroup, hhaving, houter⟩ := habsorbable.group hgroup
  have hheads := holds_filter_of_eq hself hfilter (by rw [mergeClauses_eq, if_neg hgroup])
  have hgroups : head.group.map (·.substitute head.substitutes) = head.group :=
    congrArg Clauses.group hself
  have hdrafts := draftsOf_merged_groups db (o := o) h.wellScoped hanchors hhead (m := {
      c.substitute head.substitutes with
      filter := f.map (·.substitute head.substitutes)
      group := head.group
      having := (c.substitute head.substitutes).filter }) (by simp [isSummary, hgroup])
    hheads rfl (fun _ => houter) hhaving h.summary hcgroup rfl hslice rfl rfl
  refine rows_perm_of_regular h hdrafts rfl rfl (by simp [Clauses.substitute]) ?_
  by_cases hempty : c.order = []
  · refine .inr ⟨hempty, by simp [isSummary, hgroup], ?_, ?_⟩
    · simp [mergeClauses_eq, isSummary, Parts.substitute, Clauses.substitute, hgroup]
    · simp [mergeClauses_eq, Parts.substitute, Clauses.substitute, hgroup, hgroups, hslice, hempty]
  · left
    simp [mergeClauses_eq, Parts.substitute, Clauses.substitute, hgroup, hgroups, hslice, hempty]

lemma rows_merge_slice (hslice : head.isSliced) :
    Merges I db c head anchors rest inner outer x l r o f := by
  obtain ⟨rfl, hcfilter, hcgroup, hcslice⟩ := habsorbable.slice hslice
  have hc : c.isSummary = false := h.summary
  have hchaving := (isSummary_eq_false_iff.1 hc hcgroup).1
  have hheads := holds_filter_of_eq hself hfilter (by
    rw [mergeClauses_eq, hcfilter]
    cases head.filter <;> simp [conjoin])
  have hhaving : head.having = none := by
    by_cases hgroup : head.group = []
    · exact (isSummary_eq_false_iff.1 hhead hgroup).1
    · exact (habsorbable.group hgroup).2.2.1
  have hgroups : head.group.map (·.substitute head.substitutes) = head.group :=
    congrArg Clauses.group hself
  have horders : head.order.map (fun i => (i.1.substitute head.substitutes, i.2)) = head.order :=
    congrArg Clauses.order hself
  have hmgroup : (if head.group = [] then c.group else head.group) = head.group := by
    split <;> simp_all
  have hmhaving : (if head.group = [] then c.having else c.filter) = none := by
    split <;> assumption
  have horder : (Clauses.substitute head.substitutes { mergeClauses c head with filter := f }).order =
      head.order := by
    simpa [mergeClauses_eq, Clauses.substitute, hslice] using horders
  have hgroup : (Clauses.substitute head.substitutes { mergeClauses c head with filter := f }).group =
      head.group := by
    simpa [mergeClauses_eq, Clauses.substitute, hmgroup] using hgroups
  have hnone : (Clauses.substitute head.substitutes { mergeClauses c head with filter := f }).having =
      none := by
    simp [mergeClauses_eq, Clauses.substitute, hmhaving]
  have hselect : (Clauses.substitute head.substitutes { mergeClauses c head with filter := f }).select =
      (c.substitute head.substitutes).select := by
    simp [mergeClauses_eq, Clauses.substitute]
  refine rows_merged_slice db h.wellScoped hanchors hhead ?_ hheads hgroup (fun hne => (habsorbable.group hne).2.2.2)
    hhaving hc hcgroup hselect hcfilter hcslice hnone horder ?_ ?_
  · exact isSummary_merged hhead hc hcgroup (fun h => ⟨hgroup ▸ h, hnone⟩) hselect (.inl horder)
  · simp [mergeClauses_eq, Clauses.substitute, hslice]
  · simp [mergeClauses_eq, Clauses.substitute, hslice]

end Merge

variable {c : Clauses} {s : Substitutes}

variable {inner outer : List Frame} {anchors rest : List (Anchor Frame)} {head : Clauses}

lemma rows_merge (h : I.Regular db R o
      (Parts.substitute s ⟨c, ⟨query head anchors inner, x, l, r⟩ :: rest, outer⟩))
    (habsorbable : Absorbable ⟨c, ⟨query head anchors inner, x, l, r⟩ :: rest, outer⟩ head anchors rest) :
    (I.rows db ((Parts.substitute s ⟨mergeClauses c head, anchors ++ rest, inner ++ outer⟩).substitute
          (head.substitute s).substitutes).frame o).Perm
      (I.rows db (Parts.substitute s
        ⟨c, ⟨query head anchors inner, x, l, r⟩ :: rest, outer⟩).frame o) := by
  have hfilter : ∀ k, I.holds (((mergeClauses c head).filter.map (·.substitute s)).map
      (·.substitute (head.substitute s).substitutes)) k =
        I.holds ((mergeClauses (c.substitute s) (head.substitute s)).filter.map
          (·.substitute (head.substitute s).substitutes)) k := by
    intro k
    by_cases hgroup : head.group = []
    · have hgroup' : (head.substitute s).group = [] := by simp [Clauses.substitute, hgroup]
      rw [mergeClauses_eq, mergeClauses_eq, if_pos hgroup, if_pos hgroup', Option.map_map,
        holds_conjoin (by simp [substitute_formula]), holds_conjoin (substitute_formula _),
        ← Option.map_map, ← Option.map_map]
      rfl
    · have hgroup' : (head.substitute s).group ≠ [] := by simp [Clauses.substitute, hgroup]
      rw [mergeClauses_eq, mergeClauses_eq, if_neg hgroup, if_neg hgroup']
      rfl
  have hparts : Parts.substitute s ⟨mergeClauses c head, anchors ++ rest, inner ++ outer⟩ =
      ⟨{ mergeClauses (c.substitute s) (head.substitute s) with
          filter := (mergeClauses c head).filter.map (·.substitute s) },
        substituteAnchors s anchors ++ substituteAnchors s rest,
        Frame.substituteAll s inner ++ Frame.substituteAll s outer⟩ := by
    rw [Parts.substitute, mergeClauses_substitute, substituteAnchors_append, Frame.substituteAll_append]
  rw [hparts]
  have habsorbable' := habsorbable.substitute s
  obtain ⟨hhead, hanchors⟩ := h.joined _ mem_cons_self _ _ _ rfl
  have hself := (WellScoped.first h.wellScoped).substitute_self.1
  cases hslice : (head.substitute s).isSliced with
  | true => exact rows_merge_slice h habsorbable' hhead hanchors hself hfilter hslice
  | false =>
    by_cases hgroup : (head.substitute s).group = []
    · exact rows_merge_plain h habsorbable' hhead hanchors hself hfilter hgroup hslice
    · exact rows_merge_groups h habsorbable' hhead hanchors hself hfilter hgroup hslice

lemma rows_unit {t : Tag} {next : Anchor Frame} {more : List (Anchor Frame)} {embedded : List Frame}
    (h : I.Regular db R o (Parts.substitute s ⟨c, ⟨.scalar t, x, l, r⟩ :: next :: more, embedded⟩))
    (hinner : next.isOuter = false) :
    (I.rows db (Parts.substitute s ⟨{ c with filter := conjoin c.filter next.condition },
        { next with condition := none } :: more, embedded⟩).frame o).Perm
      (I.rows db (Parts.substitute s ⟨c, ⟨.scalar t, x, l, r⟩ :: next :: more, embedded⟩).frame o) := by
  rw [Anchor.isOuter, Bool.or_eq_false_iff] at hinner
  have hnext : (substituteAnchor s next).condition = next.condition.map (·.substitute s) := by
    rw [substituteAnchor_eq]
  have hright := (forall_mem_cons.1 h.right).2
  have hdrafts := draftsOf_scalar (I := I) db (o := o) (c := c.substitute s)
    (m := Clauses.substitute s { c with filter := conjoin c.filter next.condition }) rfl
    (fun k => by
      rw [hnext]
      exact (holds_conjoin (substitute_formula s) _ _ k).trans (Bool.and_comm _ _))
    h.wellScoped (by rw [substituteAnchor_eq]; exact hinner.1) hright
  have hparts : Parts.substitute s ⟨{ c with filter := conjoin c.filter next.condition },
      { next with condition := none } :: more, embedded⟩ =
        ⟨Clauses.substitute s { c with filter := conjoin c.filter next.condition },
          { substituteAnchor s next with condition := none } :: substituteAnchors s more,
          Frame.substituteAll s embedded⟩ := by
    rw [Parts.substitute, substituteAnchors, substituteAnchor_eq, substituteAnchor_eq]
    rfl
  rw [hparts]
  exact I.rows_perm_of_drafts db rfl rfl rfl (fun hs => (h.untied hs).2) (.of_eq hdrafts.symm)

lemma exists_inline_of_regular
    (hs : ∀ t ∈ (query c (⟨query head anchors inner, x, l, r⟩ :: rest) outer).tags,
      s.lookup t = none)
    (h : I.Regular db R o (Parts.substitute s ⟨c, ⟨query head anchors inner, x, l, r⟩ :: rest, outer⟩)) :
    ∀ i ∈ c.order, ∃ q, i.1.inline head.tag head.select = .ok q := by
  intro i hi
  refine exists_inline_eq_ok i.1 fun j hj => ?_
  have htag : s.lookup head.tag = none :=
    hs _ ((tags_subset_of_query _ _ _).1 _ mem_cons_self (tag_mem_tags (query head anchors inner)))
  have hlt : j < (head.substitute s).select.length := h.wellScoped.lt_of_item
    (mem_outputPhrases.2 (.inr (.inr ⟨_, mem_map_of_mem hi, rfl⟩)))
    (mem_uses_substitute_of_lookup hj htag)
  simpa [Clauses.substitute] using hlt

/-- Absorbing the first anchor keeps the rows of a regular query. -/
theorem rows_absorbHead (I : Interpretation V) (db : Database V) {R : Reach} {o : Env V}
    {s : Substitutes} {p : Parts} (hs : ∀ t ∈ p.frame.tags, List.lookup t s = none)
    (h : I.Regular db R o (p.substitute s)) :
    ∃ a, absorbHead p = .ok a ∧
      (I.rows db (a.outcome s).frame o).Perm (I.rows db (p.substitute s).frame o) := by
  obtain ⟨c, anchors, embedded⟩ := p
  cases anchors with
  | nil => exact ⟨.finished _, rfl, .refl _⟩
  | cons first rest =>
    obtain ⟨f, x, l, r⟩ := first
    cases f with
    | table t n => exact ⟨.finished _, rfl, .refl _⟩
    | scalar t =>
      cases rest with
      | nil => exact ⟨.finished _, rfl, .of_eq (rows_scalar db h.wellScoped)⟩
      | cons next more =>
        cases hinner : next.isOuter with
        | true => exact ⟨.finished _, by simp [absorbHead, hinner]; rfl, .refl _⟩
        | false =>
          refine ⟨.absorbed _ [], by simp only [absorbHead, hinner]; rfl, ?_⟩
          rw [Absorption.outcome, map_nil, Parts.substitute_nil]
          exact rows_unit h hinner
    | query head anchors inner =>
      obtain ⟨b, hb, habsorbable⟩ := exists_absorbs_eq_ok anchors rest (exists_inline_of_regular hs h)
      cases b with
      | true =>
        exact ⟨.absorbed ⟨mergeClauses c head, anchors ++ rest, inner ++ embedded⟩ head.substitutes,
          by simp only [absorbHead, hb]; rfl, rows_merge h (habsorbable rfl)⟩
      | false => exact ⟨.finished _, by simp only [absorbHead, hb]; rfl, .refl _⟩

/-- The first of two rows in an order, from a nested query whose column was selected by a frame that is
gone. -/
theorem rows_absorbHead_slicedSelection :
    let code : Phrase := .column true 3 ⟨0, "code", ⟨"ad", "school"⟩, .text, true, false⟩
    let head : Clauses := ⟨.nested, 2, [.reference .text true 5 0], none, [], none, [], none, none, []⟩
    let item : Phrase := .reference .text true 2 0
    let c : Clauses :=
      ⟨.segment, 0, [item], none, [], none, [(item, .ascending)], some 1, none, [0]⟩
    let school := Anchor.plain (table 3 ⟨⟨"ad", "school"⟩, [], [], [], []⟩)
    let p : Parts := ⟨c, [.plain (query head [school] [])], []⟩
    let s : Substitutes := [(5, [code])]
    let db : Database (Option (Option Bool)) := fun _ => [fun _ => some none, fun _ => none]
    let o : Env (Option (Option Bool)) := ⟨fun _ => coarse.missing, fun _ => none⟩
    coarse.Regular db [] o (p.substitute s) ∧ ∃ a, absorbHead p = .ok a ∧
      (coarse.rows db (a.outcome s).frame o).Perm (coarse.rows db (p.substitute s).frame o) := by
  intro code head item c school p s db o
  have hrows : coarse.rows db (query (head.substitute s) [school] []) o =
      [coarse.rowOf [some none], coarse.rowOf [none]] := by
    rw [rows, answers, coarse.arrange_of_order_eq_nil rfl]
    rfl
  have hdrafts : coarse.draftsOf db (p.substitute s) o =
      [⟨[some none], [some none]⟩, ⟨[none], [none]⟩] := by
    change coarse.drafts (c.substitute s) o (((coarse.rows db (query (head.substitute s) [school] [])
      o).map (o.bind 2)).map id) = _
    rw [hrows]
    rfl
  have hregular : coarse.Regular db [] o (p.substitute s) := by
    refine ⟨⟨by decide, by decide, by simp [Reach.tags]⟩, by decide, by decide, fun _ => ⟨by decide, ?_⟩, ?_⟩
    · rw [Untied, hdrafts]
      decide
    · intro a ha c anchors embedded heq
      obtain rfl := mem_singleton.1 ha
      injection heq with hc hanchors
      subst hc hanchors
      decide
  exact ⟨hregular, rows_absorbHead coarse db (by decide) hregular⟩

end Interpretation

end NavQuery
