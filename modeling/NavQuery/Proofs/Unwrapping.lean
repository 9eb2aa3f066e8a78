import Mathlib.Data.Fintype.EquivFin
import NavQuery.Proofs.FrameOffers
import NavQuery.Proofs.FrameSubstitution

/-!
A joined query that only selects from a table gives way to the table. The rows stay the same if none of
the selected phrases has an aggregate and, behind a left join, each is null where the row of the table is
missing. A constant, `IS NULL` or `COALESCE` is not: there the rows differ.
-/

namespace NavQuery

open List

variable {V : Type}

namespace Frame

open Phrase

variable {t : Tag}

def unwrapAnchor (a : Anchor Frame) : Anchor Frame :=
  { a with frame := a.frame.unwrapped?.elim a.frame (·.1) }

lemma unwrapAnchor_cases (a : Anchor Frame) : a.frame.unwrapped? = none ∧ unwrapAnchor a = a ∨
      ∃ c n table p l r, c.IsBare ∧ a.frame = .query c [⟨.table n table, p, l, r⟩] [] ∧
        a.frame.unwrapped? = some (.table n table, c.tag, c.select) ∧
        unwrapAnchor a = { a with frame := .table n table } := by
  cases h : a.frame.unwrapped? with
  | none => exact .inl ⟨rfl, by simp [unwrapAnchor, h]⟩
  | some x =>
    obtain ⟨c, n, table, p, l, r, hf, hg, ht, hselect, -, hc⟩ := unwrapped?_eq_some h
    obtain ⟨g, t, select⟩ := x
    subst hg ht hselect
    exact .inr ⟨c, n, table, p, l, r, hc, hf, rfl, by simp [unwrapAnchor, h]⟩

lemma tag_unwrapAnchor_mem (a : Anchor Frame) : (unwrapAnchor a).frame.tag ∈ a.frame.tags := by
  obtain ⟨-, h⟩ | ⟨c, n, table, p, l, r, -, hf, -, h⟩ := unwrapAnchor_cases a
  · rw [h]
    exact a.frame.tag_mem_tags
  · rw [h, hf]
    simp [tag, tags, anchorTags, tagsOfAnchor]

variable {R : Reach} {as : List (Anchor Frame)}

lemma within_of_mem_select {c : Clauses} {n : Tag} {table : Table} {p : Option Phrase}
    {l r : Bool} (h : (query c [⟨.table n table, p, l, r⟩] []).isScoped R) :
    ∀ q ∈ c.select, q.Within (.columns n :: R) := by
  intro q hq
  simp only [isScoped, Clauses.isScoped, Bool.and_eq_true, all_eq_true] at h
  have hw := (h.2.2 q (by simp [Clauses.outputPhrases, hq])).1
  exact of_decide_eq_true hw

/-- What substitutes do to a joined frame: they are those of its select list, or not about it. -/
structure Placed (s : Substitutes) (R : Reach) (a : Anchor Frame) : Prop where
  isScoped : a.frame.isScoped R = true
  outer : ∀ t ∈ a.frame.tags, t ∉ R.tags
  kept : a.frame.unwrapped? = none → ∀ t ∈ a.frame.tags, t ∉ s.tags
  lookup : ∀ f t select, a.frame.unwrapped? = some (f, t, select) → List.lookup t s = some select

lemma Placed.maps {s : Substitutes} {R' R'' : Reach} {a : Anchor Frame} (h : Placed s R a)
    (hs : s.Maps R' R'') (hR : R ⊆ R'') :
    s.Maps (a.frame.exports ++ R') ((unwrapAnchor a).frame.exports ++ R'') := by
  intro p hp hw
  rcases hw.append_or hp with hw | hw
  · obtain ⟨hnone, heq⟩ | ⟨c, n, table, q, l, r, -, hf, hsome, heq⟩ := unwrapAnchor_cases a
    · have htag : s.lookup a.frame.tag = none :=
        Substitutes.lookup_eq_none (h.kept hnone _ a.frame.tag_mem_tags)
      rw [heq, Substitutes.substitute_eq_self]
      · exact hw.mono (subset_append_left _ _)
      · intro u hu
        obtain ⟨x, hx, ho⟩ := hw u hu
        rw [← Export.tag_eq_of_offers ho, (of_mem_exports hx).1, htag]
    · rw [hf] at hw
      obtain ⟨d, b, i, rfl, hi⟩ := hw.eq_reference hp
      have hselect := within_of_mem_select (hf ▸ h.isScoped) _ (getElem_mem hi)
      rw [substitute_reference, h.lookup _ _ _ hsome, Option.bind_some,
        getElem?_eq_getElem hi, Option.getD_some, heq]
      exact hselect.mono (cons_subset_cons _ hR)
  · exact (hs p hp hw).mono (subset_append_right _ _)

lemma fst_unwrapAnchors (as : List (Anchor Frame)) : (unwrapAnchors as).1 = as.map unwrapAnchor := by
  induction as with
  | nil => rfl
  | cons a as ih =>
    rw [map_cons, ← ih, unwrapAnchors, unwrapAnchor]
    cases a.frame.unwrapped? <;> rfl

lemma mem_snd_unwrapAnchors {x : Tag × List Phrase} :
    x ∈ (unwrapAnchors as).2 ↔ ∃ a ∈ as, ∃ f, a.frame.unwrapped? = some (f, x) := by
  induction as with
  | nil => simp [unwrapAnchors]
  | cons a as ih =>
    rw [unwrapAnchors]
    cases h : a.frame.unwrapped? with
    | none => simp [h, ih]
    | some y =>
      obtain ⟨f, y⟩ := y
      simp [h, ih, or_comm, eq_comm]

lemma mem_tags_unwrapAnchors (has : ∀ a ∈ as, a.frame.isScoped R)
    (ht : t ∈ Substitutes.tags (unwrapAnchors as).2) :
    t ∈ R.tags ∨ ∃ a ∈ as, a.frame.unwrapped? ≠ none ∧ t ∈ a.frame.tags := by
  obtain ⟨x, hx, ht⟩ := mem_flatMap.1 ht
  obtain ⟨a, ha, f, hf⟩ := mem_snd_unwrapAnchors.1 hx
  obtain ⟨c, n, table, p, l, r, hframe, -, htag, hselect, -, -⟩ := unwrapped?_eq_some hf
  have htags : a.frame.tags = [c.tag, n] := by
    simp [hframe, tags, anchorTags, tagsOfAnchor, allTags]
  have hsome : a.frame.unwrapped? ≠ none := by simp [hf]
  rcases mem_cons.1 ht with rfl | ht
  · exact .inr ⟨a, ha, hsome, by simp [htags, htag]⟩
  · obtain ⟨q, hq, htq⟩ := mem_flatMap.1 ht
    obtain ⟨u, hu, rfl⟩ := mem_map.1 htq
    have hw := within_of_mem_select (hframe ▸ has a ha) q (hselect ▸ hq)
    rcases mem_cons.1 (hw.tag_mem hu) with hn | hR
    · exact .inr ⟨a, ha, hsome, by simp [htags, hn, Export.tag]⟩
    · exact .inl hR

lemma placed_unwrapAnchors (has : ∀ a ∈ as, a.frame.isScoped R)
    (hR : ∀ a ∈ as, ∀ t ∈ a.frame.tags, t ∉ R.tags)
    (hapart : ∀ a ∈ as, ∀ b ∈ as, ∀ t ∈ a.frame.tags, t ∈ b.frame.tags → a = b) :
    ∀ a ∈ as, Placed (unwrapAnchors as).2 R a := by
  intro a ha
  refine ⟨has a ha, hR a ha, fun hnone t hta hts => ?_, fun f t select hf => ?_⟩
  · rcases mem_tags_unwrapAnchors has hts with h | ⟨b, hb, hsome, htb⟩
    · exact hR a ha t hta h
    · exact hsome (hapart a ha b hb t hta htb ▸ hnone)
  · have hmem : (t, select) ∈ (unwrapAnchors as).2 := mem_snd_unwrapAnchors.2 ⟨a, ha, f, hf⟩
    have htag : ∀ {b : Anchor Frame} {g select'}, b.frame.unwrapped? = some (g, t, select') →
        t ∈ b.frame.tags := by
      intro b g select' hb
      obtain ⟨c, n, table, p, l, r, hframe, -, rfl, -⟩ := unwrapped?_eq_some hb
      simp [hframe, tags]
    cases hl : List.lookup t (unwrapAnchors as).2 with
    | none => exact absurd (lookup_eq_none_iff.1 hl _ hmem) (by simp)
    | some select' =>
      -- two entries of one tag are from one anchor
      obtain ⟨b, hb, g, hg⟩ := mem_snd_unwrapAnchors.1 (Substitutes.mem_of_lookup hl)
      obtain rfl := hapart a ha b hb t (htag hf) (htag hg)
      simp_all

end Frame

namespace Interpretation

open Phrase Frame

variable (I : Interpretation V) [DecidableEq V]

/-- Whether the row of the table may stand for the row of the query, also where it is missing. -/
def Transparent (o : Env V) (a : Anchor Frame) : Prop :=
  ∀ x ∈ a.frame.unwrapped?, ∀ p ∈ x.2.2, p.hasAggregate = false ∧
    (a.left → I.value p (.single (o.bind x.1.tag I.missing)) = I.null)

/-- The rows under two tags offer the same, whatever is joined beside them. -/
def Pairs (s : Substitutes) (R : Reach) (o : Env V) (X : Reach) (t t' : Tag) (r r' : Row V) : Prop :=
  ∀ e e' : Env V, I.Reads [] R o (.single e') → I.Reads s X (e.bind t r) (.single (e'.bind t' r'))

variable (db : Database V) {c : Clauses}

/-- A query that only selects has a row for each joined row. -/
theorem rows_of_isBare (hc : c.IsBare)
    (hselect : ∀ p ∈ c.select, p.hasAggregate = false) (anchors : List (Anchor Frame)) (o : Env V) :
    I.rows db (.query c anchors []) o = (I.joinAll id o (I.relations db anchors o)).map fun e =>
      I.rowOf (c.select.map (I.value · (.single e))) := by
  have hsummary : c.isSummary = false := by
    simpa [Clauses.isSummary, Clauses.outputPhrases, hc.group, hc.having, hc.order] using hselect
  have hsettle : I.settle db [] = id := funext fun e => rfl
  simp [rows, answers, I.arrange_of_order_eq_nil hc.order, drafts, scenes, hsummary, hc.group,
    candidates, hc.having, hc.filter, Clauses.slice, hc.limit, hc.offset, hsettle, candidate,
    Function.comp_def]

lemma rows_table_of_isBare (hc : c.IsBare)
    (hselect : ∀ p ∈ c.select, p.hasAggregate = false) (n : Tag) (table : Table) (p : Option Phrase)
    (l r : Bool) (o : Env V) :
    I.rows db (.query c [⟨.table n table, p, l, r⟩] []) o = (db table).map fun x =>
      I.rowOf (c.select.map (I.value · (.single (o.bind n ⟨x, []⟩)))) := by
  rw [I.rows_of_isBare db hc hselect]
  simp [joinAll, relations, relation, rows, tag]

variable {I} {s : Substitutes} {R : Reach} {o : Env V}

lemma pairs_of_not_mem {f : Frame} (ht : f.tag ∉ s.tags) (r : Row V) :
    I.Pairs s R o f.exports f.tag f.tag r r := by
  intro e e' _
  simpa using (Reads.nil e (.single e')).bind ht (fun _ => of_mem_exports) r

lemma pairs_items {n : Tag} (hlookup : s.lookup c.tag = some c.select)
    (hselect : ∀ p ∈ c.select, p.Within (.columns n :: R)) {r r' : Row V}
    (hr : ∀ i (p : Phrase), c.select[i]? = some p → I.item r i = I.value p (.single (o.bind n r'))) :
    I.Pairs s R o [.items c.tag c.select.length] c.tag n r r' := by
  intro e e' ho p hp hw
  obtain ⟨d, b, i, rfl, hi⟩ := hw.eq_reference hp
  have hget := getElem?_eq_getElem hi
  have hmem := getElem_mem hi
  rw [substitute_reference, hlookup, Option.bind_some, hget, Option.getD_some]
  have hread : I.value (.reference d b c.tag i) (.single (e.bind c.tag r)) = I.item r i := by
    simp [value, Scene.single]
  -- what is selected reads the table and the frames around the query
  have hbind : I.Reads [] (.columns n :: R) (o.bind n r') (.single (e'.bind n r')) :=
    ho.bind (X := [.columns n]) (by simp [Substitutes.tags]) (by simp [Export.tag]) r'
  rw [hread, hr i _ hget, hbind.value_eq (hselect _ hmem), Substitutes.substitute_nil]

variable {a : Anchor Frame} {settle settle' : Env V → Env V}

lemma forall₂_pairs (h : Placed s R a) (hs : s.Plain)
    (ho : I.Reads s R o (.single o)) (ha : I.Transparent o a) :
    List.Forall₂ (I.Pairs s R o a.frame.exports a.frame.tag (unwrapAnchor a).frame.tag)
      (I.rows db a.frame o) (I.rows db ((unwrapAnchor a).frame.substitute s) o) := by
  obtain ⟨hnone, heq⟩ | ⟨c, n, table, q, l, r, hc, hf, hsome, heq⟩ := unwrapAnchor_cases a
  · rw [heq, rows_substitute db hs a.frame (h.kept hnone) h.isScoped ho]
    exact forall₂_same.2 fun r _ => pairs_of_not_mem (h.kept hnone _ a.frame.tag_mem_tags) r
  · have hselect := within_of_mem_select (hf ▸ h.isScoped)
    rw [heq, hf, I.rows_table_of_isBare db hc fun p hp => (ha _ hsome p hp).1]
    refine rel_map (R := Eq) ?_ (forall₂_refl _)
    rintro x _ rfl
    refine pairs_items (h.lookup _ _ _ hsome) hselect fun i p hp => ?_
    simp [item, rowOf, hp]

lemma pairs_missing (h : Placed s R a) (ha : I.Transparent o a) (hleft : a.left) :
    I.Pairs s R o a.frame.exports a.frame.tag (unwrapAnchor a).frame.tag I.missing I.missing := by
  obtain ⟨hnone, heq⟩ | ⟨c, n, table, q, l, r, -, hf, hsome, heq⟩ := unwrapAnchor_cases a
  · rw [heq]
    exact pairs_of_not_mem (h.kept hnone _ a.frame.tag_mem_tags) _
  · rw [heq, hf]
    refine pairs_items (h.lookup _ _ _ hsome) (within_of_mem_select (hf ▸ h.isScoped)) fun i p hp => ?_
    exact ((ha _ hsome p (mem_of_getElem? hp)).2 hleft).symm

lemma forall₂_unwrapped_joins {extend : Reach → Reach} (hsettle : ∀ R e e', I.Reads s R e (.single e') →
      I.Reads s (extend R) (settle e) (.single (settle' e')))
    (hs : s.Plain) (ho : I.Reads s R o (.single o)) {blank blank' : Env V}
    (as : List (Anchor Frame)) (hplaced : ∀ a ∈ as, Placed s R a)
    (htransparent : ∀ a ∈ as, I.Transparent o a) (hright : ∀ a ∈ as, a.right = false)
    (hapart : as.Pairwise fun a b => List.Disjoint a.frame.tags b.frame.tags) {R' R'' : Reach}
    (hR' : ∀ a ∈ as, ∀ t ∈ a.frame.tags, t ∉ R'.tags)
    (hR'' : ∀ a ∈ as, ∀ t ∈ a.frame.tags, t ∉ R''.tags) (hR : R ⊆ R'') (hmaps : s.Maps R' R'')
    (hscoped : areConditionsScoped extend as R') {es es' : List (Env V)}
    (hes : List.Forall₂ (fun e e' => I.Reads s R' e (.single e') ∧ I.Reads [] R o (.single e')) es es') :
    I.ReadsAll s (reachOf as R') ((I.relations db as o).foldl (I.join settle blank) es)
      ((I.relations db (substituteAnchors s (as.map unwrapAnchor)) o).foldl
        (I.join settle' blank') es') := by
  induction as generalizing R' R'' es es' with
  | nil => exact hes.imp fun _ _ h => h.1
  | cons a as ih =>
    rw [areConditionsScoped, Bool.and_eq_true] at hscoped
    rw [forall_mem_cons] at hplaced htransparent hright hR' hR''
    rw [pairwise_cons] at hapart
    have htag := a.frame.tag_mem_tags
    have htag' := tag_unwrapAnchor_mem a
    have hbind : ∀ e e' r r', I.Reads s R' e (.single e') ∧ I.Reads [] R o (.single e') →
        I.Pairs s R o a.frame.exports a.frame.tag (unwrapAnchor a).frame.tag r r' →
        I.Reads s (a.frame.exports ++ R') (e.bind a.frame.tag r)
          (.single (e'.bind (unwrapAnchor a).frame.tag r')) ∧
        I.Reads [] R o (.single (e'.bind (unwrapAnchor a).frame.tag r')) := by
      intro e e' r r' he hr
      exact ⟨he.1.bind_pair hmaps (hR'.1 _ htag) (hR''.1 _ htag') (hr e e' he.2),
        he.2.bind_right (hplaced.1.outer _ htag') r'⟩
    have hafter : ∀ {g : Frame} {R : Reach}, g.tag ∈ a.frame.tags →
        (∀ b ∈ as, ∀ t ∈ b.frame.tags, t ∉ R.tags) →
        ∀ b ∈ as, ∀ t ∈ b.frame.tags, t ∉ Reach.tags (g.exports ++ R) := by
      intro g R hg hR b hb t ht hx
      rcases mem_tags_exports_append hx with rfl | hx
      · exact hapart.1 b hb hg ht
      · exact hR b hb t ht hx
    rw [map_cons, substituteAnchors, relations, relations, foldl_cons, foldl_cons,
      relation_eq, substituteAnchor_eq, relation_eq, tag_substitute]
    refine ih hplaced.2 htransparent.2 hright.2 hapart.2 (hafter htag hR'.2) (hafter htag' hR''.2)
      (subset_append_of_subset_right _ hR) (hplaced.1.maps hmaps hR) hscoped.2
      (I.forall₂_join hes (forall₂_pairs db hplaced.1 hs ho htransparent.1) rfl rfl hbind ?_ ?_ ?_)
    · exact fun hl e e' he => hbind e e' _ _ he (pairs_missing hplaced.1 htransparent.1 hl)
    · exact fun h => absurd h (by simp [hright.1])
    · exact fun e e' he => holds_substitute hscoped.1 (hsettle _ _ _ he.1)

structure Unwraps (s : Substitutes) (R : Reach) (as : List (Anchor Frame)) : Prop where
  plain : s.Plain
  lookup : ∀ t ∈ R.tags, List.lookup t s = none
  tags : ∀ t ∈ s.tags, t ∈ R.tags ∨ ∃ a ∈ as, t ∈ a.frame.tags
  placed : ∀ a ∈ as, Placed s R a

variable {c : Clauses} {first : Anchor Frame} {rest : List (Anchor Frame)} {embedded : List Frame}

section Unwrapped

variable (hF : (query c (first :: rest) embedded).WellScoped R) (hright : ∀ a ∈ rest, a.right = false)
  (ht : ∀ a ∈ rest, I.Transparent o a)
include hF ht

lemma unwraps_unwrapAnchors : Unwraps (unwrapAnchors rest).2 R rest := by
  have hrest : ∀ a ∈ rest, a ∈ first :: rest := fun _ => mem_cons_of_mem first
  have hscoped : ∀ a ∈ rest, a.frame.isScoped R := fun a ha =>
    (hF.anchor a (hrest a ha)).isScoped
  have houter : ∀ a ∈ rest, ∀ t ∈ a.frame.tags, t ∉ R.tags := fun a ha _ ht hR =>
    (hF.anchor a (hrest a ha)).disjoint ht hR
  constructor
  case plain =>
    intro x hx p hp
    obtain ⟨a, ha, f, hf⟩ := mem_snd_unwrapAnchors.1 hx
    exact (ht a ha _ hf p hp).1
  case lookup =>
    intro t ht
    cases hl : List.lookup t (unwrapAnchors rest).2 with
    | none => rfl
    | some select =>
      obtain ⟨a, ha, f, hf⟩ := mem_snd_unwrapAnchors.1 (Substitutes.mem_of_lookup hl)
      obtain ⟨c, n, table, p, l, r, hframe, -, rfl, -⟩ := unwrapped?_eq_some hf
      exact absurd ht (houter a ha _ (by simp [hframe, Frame.tags]))
  case tags =>
    intro t ht
    obtain hR | ⟨a, ha, _, h⟩ := mem_tags_unwrapAnchors hscoped ht
    · exact .inl hR
    · exact .inr ⟨a, ha, h⟩
  case placed =>
    exact placed_unwrapAnchors hscoped houter fun a ha b hb t hta htb =>
      hF.eq_of_mem_tags (hrest a ha) (hrest b hb) hta htb

include hright

lemma forall₂_unwrapped_joinAll (hs : Unwraps s R rest) (hsettle : ∀ R e e', I.Reads s R e (.single e') →
      I.Reads s (answersWithin embedded R) (settle e) (.single (settle' e'))) :
    I.ReadsAll s (reachOf (first :: rest) R) (I.joinAll settle o (I.relations db (first :: rest) o))
      (I.joinAll settle' o
        (I.relations db (substituteAnchors s (first :: rest.map unwrapAnchor)) o)) := by
  have ho : I.Reads s R o (.single o) := Reads.of_lookup_eq_none hs.lookup o
  have hfirst := hF.anchor first mem_cons_self
  have hapart := pairwise_cons.1 hF.pairwise
  have hconditions := hF.conditions
  rw [areConditionsScoped, Bool.and_eq_true] at hconditions
  have htags : ∀ t ∈ first.frame.tags, t ∉ s.tags := by
    intro t htf hts
    obtain hR | ⟨a, ha, hta⟩ := hs.tags t hts
    · exact hfirst.disjoint htf hR
    · exact hapart.1 a ha htf hta
  have htag := htags _ first.frame.tag_mem_tags
  have hreach : ∀ a ∈ rest, ∀ t ∈ a.frame.tags, t ∉ Reach.tags (first.frame.exports ++ R) := by
    intro a ha t ht hx
    rcases mem_tags_exports_append hx with rfl | hx
    · exact hapart.1 a ha first.frame.tag_mem_tags ht
    · exact (hs.placed a ha).outer t ht hx
  have hmaps : s.Maps (first.frame.exports ++ R) (first.frame.exports ++ R) := by
    refine Substitutes.maps_self fun t ht => ?_
    rcases mem_tags_exports_append ht with rfl | ht
    · exact Substitutes.lookup_eq_none htag
    · exact hs.lookup t ht
  refine forall₂_unwrapped_joins db hsettle hs.plain ho rest hs.placed ht hright hapart.2 hreach
    hreach (subset_append_right _ _) hmaps hconditions.2 ?_
  rw [relation_eq, substituteAnchor_eq, relation_eq, tag_substitute,
    rows_substitute db hs.plain _ htags hfirst.isScoped ho]
  refine rel_map (R := Eq) ?_ (forall₂_refl _)
  rintro r _ rfl
  exact ⟨ho.bind htag (fun _ => of_mem_exports) r,
    (Reads.refl R o).bind_right (fun hR => hfirst.disjoint first.frame.tag_mem_tags hR) r⟩

lemma rows_unwrapped : I.rows db ((query c (first :: (unwrapAnchors rest).1) embedded).substitute
        (unwrapAnchors rest).2) o =
      I.rows db (query c (first :: rest) embedded) o := by
  have hs := unwraps_unwrapAnchors hF ht
  rw [fst_unwrapAnchors]
  generalize (unwrapAnchors rest).2 = s at hs ⊢
  have hembedded : ∀ f ∈ embedded, ∀ t ∈ f.tags, t ∉ s.tags := fun f hf t htf hts =>
    (hs.tags t hts).elim (hF.embedded_disjoint f hf htf) fun ⟨a, ha, hta⟩ =>
      hF.disjoint_embedded a (mem_cons_of_mem first ha) f hf hta htf
  have hsettle : ∀ R e e', I.Reads s R e (.single e') →
      I.Reads s (answersWithin embedded R) (I.settle db embedded e)
        (.single (I.settle db (Frame.substituteAll s embedded) e')) := fun _ _ _ =>
    reads_settle db embedded (fun f hf => hembedded f hf _ f.tag_mem_tags)
      fun f hf => rows_substitute db hs.plain f (hembedded f hf)
  exact rows_query_substitute db hs.plain hF.clauses (Reads.of_lookup_eq_none hs.lookup o)
    (hsettle _) (forall₂_unwrapped_joinAll db hF hright ht hs hsettle)

end Unwrapped

lemma length_rows_of_isSummary (hc : c.IsBare) (hsummary : c.isSummary)
    (anchors : List (Anchor Frame)) : (I.rows db (.query c anchors []) o).length = 1 := by
  simp [rows, answers, I.arrange_of_order_eq_nil hc.order, drafts, scenes, hsummary, candidates,
    hc.having, Clauses.slice, hc.limit, hc.offset]

/-- A query that joins one frame to the unit row and selects one phrase. -/
def probe (m n : Tag) (p : Phrase) (f : Frame) (left : Bool) : Frame :=
  .query ⟨.segment, m, [p], none, [], none, [], none, none, []⟩
    [⟨.scalar n, none, false, false⟩, ⟨f, none, left, false⟩] []

section Probe

variable {m n : Tag} {p : Phrase} {f : Frame} {left : Bool}

lemma rows_probe (hp : p.hasAggregate = false) : I.rows db (probe m n p f left) o =
      (if left && (I.rows db f o).isEmpty then [I.missing] else I.rows db f o).map
        fun r => I.rowOf [I.value p (.single ((o.bind n I.missing).bind f.tag r))] := by
  rw [probe, I.rows_of_isBare db ⟨rfl, rfl, rfl, rfl, rfl, rfl⟩ (by simpa using hp)]
  simp only [joinAll, relations, foldl_cons, relation_eq]
  rw [I.join_of_condition_eq_none rfl rfl]
  simp [rows, tag]

lemma length_rows_probe (hp : p.hasAggregate = false) (hf : I.rows db f o ≠ []) :
    (I.rows db (probe m n p f left) o).length = (I.rows db f o).length := by
  rw [rows_probe db hp]
  simp [hf]

lemma wellScoped_probe (hf : f.WellScoped R) (hp : p.hasAggregate = false)
    (hw : p.Within (f.exports ++ R)) (hn : n ∉ f.tags ++ R.tags)
    (hm : m ∉ n :: (f.tags ++ R.tags)) : (probe m n p f left).WellScoped R := by
  have htags : (probe m n p f left).tags = m :: n :: f.tags := by
    simp [probe, tags, anchorTags_eq, allTags]
  simp only [mem_cons, mem_append, not_or] at hn hm
  constructor
  case isScoped =>
    simp only [probe, isScoped, areAnchorsScoped_eq, areEmbeddedScoped, areConditionsScoped,
      answersWithin, Clauses.isScoped, Clauses.isGrouped, Clauses.isSummary, Clauses.outputPhrases]
    have hreach : reachOf [⟨.scalar n, none, false, false⟩, ⟨f, none, left, false⟩] R =
      f.exports ++ R := rfl
    simp [hreach, hp, hw, hf.isScoped, isScoped]
  case nodup =>
    rw [htags]
    simp [hn.1, hm.1, hm.2.1, hf.nodup]
  case disjoint =>
    rw [htags]
    simp [hn.2, hm.2.2, hf.disjoint]

end Probe

section Difference

variable {k : Tag} {table : Table} {q : Option Phrase} {l r left : Bool}

/-- Behind a left join without rows, a phrase that is not null there is read as null. -/
theorem not_perm_of_ne_null (hc : c.IsBare) (hf : (query c [⟨.table k table, q, l, r⟩] []).isScoped R)
    (hselect : ∀ p ∈ c.select, p.hasAggregate = false) {i : Nat} (hi : i < c.select.length)
    (hvalue : I.value c.select[i] (.single (o.bind k I.missing)) ≠ I.null) {n : Tag}
    (hn : n ∉ R.tags) (m : Tag) (d : Domain) (b : Bool) :
    ¬(I.rows (fun _ => []) (probe m n c.select[i] (.table k table) true) o).Perm (I.rows (fun _ => [])
        (probe m n (.reference d b c.tag i) (.query c [⟨.table k table, q, l, r⟩] []) true) o) := by
  have hp := getElem_mem hi
  have hbind : I.Reads [] (.columns k :: R) (o.bind k I.missing)
      (.single ((o.bind n I.missing).bind k I.missing)) :=
    ((Reads.refl R o).bind_right hn I.missing).bind (X := [.columns k]) (by simp [Substitutes.tags])
      (by simp [Export.tag]) I.missing
  rw [hbind.value_eq (within_of_mem_select hf _ hp)] at hvalue
  rw [rows_probe _ (hselect _ hp), rows_probe _ rfl, I.rows_table_of_isBare _ hc hselect]
  intro hperm
  refine hvalue ?_
  simpa [rows, rowOf, tag, value, Scene.single] using hperm

/-- An aggregate is one row, however many rows the table has. -/
theorem not_perm_of_isSummary (hc : c.IsBare) (hsummary : c.isSummary) {p : Phrase}
    (hp : p.hasAggregate = false) (m n : Tag) :
    ¬(I.rows (fun _ => [fun _ => I.null, fun _ => I.null]) (probe m n p (.table k table) left) o).Perm
      (I.rows (fun _ => [fun _ => I.null, fun _ => I.null])
        (probe m n p (.query c [⟨.table k table, q, l, r⟩] []) left) o) := by
  intro hperm
  have hone := length_rows_of_isSummary (I := I) (o := o)
    (fun _ => [fun _ => I.null, fun _ => I.null]) hc hsummary [⟨.table k table, q, l, r⟩]
  have hne : ∀ {rs : List (Row V)}, rs.length = 1 → rs ≠ [] := fun h => by
    rintro rfl
    simp at h
  have hlength := hperm.length_eq
  rw [length_rows_probe _ hp (by simp [rows]), length_rows_probe _ hp (hne hone), hone] at hlength
  simp [rows] at hlength

/-- A joined query that is not transparent can be told from its table. -/
theorem exists_not_perm {a : Anchor Frame} (ha : a.frame.WellScoped R)
    (hcondition : a.condition = none) (hright : a.right = false) (h : ¬I.Transparent o a) :
    ∃ db c first, (query c [first, a] []).WellScoped R ∧
      ¬(I.rows db ((query c (first :: (unwrapAnchors [a]).1) []).substitute
        (unwrapAnchors [a]).2) o).Perm (I.rows db (query c [first, a] []) o) := by
  obtain ⟨n, hn⟩ := Infinite.exists_notMem_finset (a.frame.tags ++ R.tags).toFinset
  obtain ⟨m, hm⟩ := Infinite.exists_notMem_finset (n :: (a.frame.tags ++ R.tags)).toFinset
  rw [mem_toFinset] at hn hm
  simp only [Transparent, not_forall, not_and] at h
  obtain ⟨x, hx, p, hp, hnull⟩ := h
  obtain ⟨hnone, -⟩ | ⟨c, k, table, q, l, r, hc, hf, hsome, heq⟩ := unwrapAnchor_cases a
  · cases hnone ▸ hx
  obtain rfl := Option.some.inj (hsome.symm.trans hx)
  have hs : (unwrapAnchors [a]).2 = [(c.tag, c.select)] := by simp [unwrapAnchors, hsome]
  rw [fst_unwrapAnchors, hs, map_cons, heq]
  obtain ⟨f, condition, left, right⟩ := a
  obtain rfl : condition = none := hcondition
  obtain rfl : right = false := hright
  obtain rfl : f = _ := hf
  by_cases hagg : ∀ p ∈ c.select, p.hasAggregate = false
  · obtain ⟨i, hi, rfl⟩ := getElem_of_mem hp
    obtain ⟨rfl, hvalue⟩ := hnull (hagg _ hp)
    have hw : (reference .boolean true c.tag i).Within
        ((query c [⟨.table k table, q, l, r⟩] []).exports ++ R) := by
      simp [Within, uses, exports, Export.offers, hi]
    have hsub : (reference .boolean true c.tag i).substitute [(c.tag, c.select)] = c.select[i] := by
      simp [substitute_reference, hi]
    have hdiffer := not_perm_of_ne_null hc ha.isScoped hagg hi hvalue
      (fun h => hn (mem_append_right _ h)) m .boolean true
    rw [← hsub] at hdiffer
    exact ⟨_, _, _, wellScoped_probe ha rfl hw hn hm, hdiffer⟩
  · have hsummary : c.isSummary := by
      simpa [Clauses.isSummary, Clauses.outputPhrases, hc.group, hc.having, hc.order] using hagg
    exact ⟨_, _, _, wellScoped_probe ha (p := .literal .boolean false (.boolean true)) rfl
      (by simp [Within, uses]) hn hm, not_perm_of_isSummary hc hsummary rfl m n⟩

end Difference

/-- Unwrapping keeps the rows of every query whose joined queries are transparent, and for any other
joined query there is a query around it whose rows it changes. -/
theorem rows_unwrapAnchors (I : Interpretation V) (R : Reach) (o : Env V) :
    (∀ db c first rest embedded, (query c (first :: rest) embedded).WellScoped R →
      (∀ a ∈ rest, a.right = false) → (∀ a ∈ rest, I.Transparent o a) →
      I.rows db ((query c (first :: (unwrapAnchors rest).1) embedded).substitute
          (unwrapAnchors rest).2) o =
        I.rows db (query c (first :: rest) embedded) o) ∧
    ∀ a : Anchor Frame, a.frame.WellScoped R → a.condition = none → a.right = false → ¬I.Transparent o a →
      ∃ db c first, (query c [first, a] []).WellScoped R ∧
        ¬(I.rows db ((query c (first :: (unwrapAnchors [a]).1) []).substitute
          (unwrapAnchors [a]).2) o).Perm (I.rows db (query c [first, a] []) o) :=
  ⟨fun db _ _ _ _ hF hright ht => rows_unwrapped db hF hright ht,
    fun _ ha hcondition hright h => exists_not_perm ha hcondition hright h⟩

def selectingJoin (p : Phrase) : Anchor Frame :=
  ⟨query ⟨.nested, 2, [p], none, [], none, [], none, none, []⟩
    [.plain (table 3 ⟨⟨"ad", "school"⟩, [], [], [], []⟩)] [], none, true, false⟩

/-- A column is null where its row is missing, so the join gives way to the table. A constant is not. -/
theorem rows_unwrapAnchors_selectingJoin :
    let o : Env (Option (Option Bool)) := ⟨fun _ => coarse.missing, fun _ => none⟩
    let code := selectingJoin (.column true 3 ⟨0, "code", ⟨"ad", "school"⟩, .text, true, false⟩)
    let constant := selectingJoin (.literal .boolean false (.boolean true))
    let c : Clauses :=
      ⟨.segment, 0, [.reference .text true 2 0], none, [], none, [], none, none, [0]⟩
    let first := Anchor.plain (table 1 ⟨⟨"ad", "department"⟩, [], [], [], []⟩)
    (∀ db, coarse.rows db ((query c (first :: (unwrapAnchors [code]).1) []).substitute
        (unwrapAnchors [code]).2) o = coarse.rows db (query c [first, code] []) o) ∧
      ∃ db c first, (query c [first, constant] []).WellScoped [] ∧
        ¬(coarse.rows db ((query c (first :: (unwrapAnchors [constant]).1) []).substitute
          (unwrapAnchors [constant]).2) o).Perm (coarse.rows db (query c [first, constant] []) o) := by
  intro o code constant c first
  have h := rows_unwrapAnchors coarse [] o
  refine ⟨fun db => h.1 db c first [code] [] ⟨by decide, by decide, by simp [Reach.tags]⟩ ?_ ?_,
    h.2 constant ⟨by decide, by decide, by simp [Reach.tags]⟩ rfl rfl ?_⟩
  · simp [code, selectingJoin]
  · intro a ha x hx p hp
    obtain rfl := mem_singleton.1 ha
    obtain rfl := Option.some.inj hx
    obtain rfl := mem_singleton.1 hp
    exact ⟨rfl, fun _ => rfl⟩
  · intro ht
    exact absurd ((ht _ rfl _ mem_cons_self).2 rfl) (coarse.ofBool_ne_null true)

end Interpretation

end NavQuery
