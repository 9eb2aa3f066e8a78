import NavQuery.Proofs.ClosedFrames
import NavQuery.Proofs.GroundedFrames
import NavQuery.Proofs.NamedFrames

/-!
A closed segment is reduced to a closed segment, whose names are all there when the statement is written.
This needs that columns are read of tables only: columns that were read under the tag of a merged query
are not resolved.
-/

namespace NavQuery

open List Phrase Statement

/-- Some formula in the phrase has fewer operands than its operator needs. -/
inductive Phrase.Lacks : Phrase → Prop
  | formula {d : Domain} {n : Bool} {f : Operator} {as : List Phrase} (h : as.length < f.least) :
    Lacks (.formula d n f as)
  | operand {d : Domain} {n : Bool} {f : Operator} {as : List Phrase} {a : Phrase} (ha : a ∈ as)
    (h : a.Lacks) : Lacks (.formula d n f as)
  | cast {d : Domain} {n : Bool} {p : Phrase} (h : p.Lacks) : Lacks (.cast d n p)

def Error.isNameless : Error → Bool
  | invariant .embeddedFrame | missingEntry => false
  | _ => true

variable {d : Domain} {v : Value} {e : Error}

lemma isNameless_of_write (h : d.write v = .error e) (hv : ∀ vs, v ≠ .list vs) : e.isNameless := by
  unfold Domain.write at h
  split at h
  · cases h
    rfl
  split at h
  case h_4 =>
    unfold Domain.writeScalar at h
    split at h <;> cases h <;> rfl
  -- a list, a record or an identity, which the value is none of
  all_goals
    first | unfold Domain.writeList at h | unfold Domain.writeRecord at h | unfold Domain.writeIdentity at h
    split at h
    · exact absurd rfl (hv _)
    · cases h
      rfl

variable {dialect : Dialect}

lemma isNameless_of_writeMoment {word : Text}
    (h : writeMoment dialect word d v = .error e) (hv : ∀ vs, v ≠ .list vs) : e.isNameless := by
  unfold writeMoment at h
  cases hw : d.write v with
  | ok t =>
    rw [hw] at h
    cases h
  | error e' =>
    rw [hw] at h
    cases h
    exact isNameless_of_write hw hv

lemma isNameless_of_writeLiteral (h : writeLiteral dialect d v = .error e) : e.isNameless := by
  cases v with
  | null | boolean | text => cases h
  | list =>
    cases h
    rfl
  | integer n =>
    unfold writeLiteral writeInteger at h
    dsimp only at h
    split at h <;> cases h
    rfl
  | float x =>
    unfold writeLiteral writeFloat at h
    dsimp only at h
    split at h <;> cases h
    rfl
  | decimal => exact isNameless_of_write h fun _ => nofun
  | date | time | dateTime => exact isNameless_of_writeMoment h fun _ => nofun

/-- No embedded query is missing, and no entry is missing unless operands are. -/
abbrev Discipline.named (lacks : Prop) : Discipline.Spelling where
  literal _ _ := True
  formula _ f ds := f.least ≤ ds.length ∨ lacks
  missing := False
  error e := e.isNameless ∨ e = .missingEntry ∧ lacks
  truth _ := trivial
  conjunction _ := .inl (Nat.zero_le _)
  nullTest _ _ := .inl (Nat.le_refl 1)
  equality _ _ _ := .inl (Nat.le_refl 2)
  toPredicate _ := .inl (Nat.le_refl 1)
  fromPredicate _ := .inl (Nat.le_refl 1)
  query _ _ := .inl rfl
  endless := .inl rfl
  rule {rule} h := .inl (by cases rule <;> first | rfl | cases h)
  kind _ := .inr (.inr (.inl rfl))
  absent := False.elim
  spells dialect {d v} _ := by
    cases h : writeLiteral dialect d v with
    | ok => trivial
    | error e => exact .inl (isNameless_of_writeLiteral h)
  operands h := h.imp_right fun h => .inr ⟨rfl, h⟩

lemma Frame.exists_offer_of_mem_exports {f : Frame} {x : Export} (hf : f.isSegment = false)
    (hx : x ∈ f.exports) : ∃ o ∈ f.offers false, o.export = x := by
  cases f with
  | scalar => cases hx
  | table t =>
    exact mem_map.mp hx
  | query c anchors embedded =>
    obtain rfl := mem_singleton.1 hx
    refine ⟨.items c.tag (c.select.map domain), mem_offers_query.2 (.inl ?_), ?_⟩
    · rw [Clauses.offer, if_neg Bool.false_ne_true, if_neg (of_decide_eq_false hf)]
      exact mem_cons_self
    · rw [Offer.export, length_map]

section Writing

variable [Discipline] {lacks : Prop} (hliteral : ∀ d v, Discipline.literal d v)
  (hformula : ∀ d f ds, Operator.least f ≤ ds.length ∨ lacks → Discipline.formula d f ds)
include hliteral hformula

variable {O : List Offer} {R : Reach}

lemma Phrase.Within.writable {p : Phrase} (h : p.Within R)
    (hR : ∀ x ∈ R, ∃ o ∈ O, o.export = x) (hp : p.Lacks → lacks) : p.Writable O := by
  have hoffered {u : Use} (hu : u ∈ p.uses) : ∃ o ∈ O, o.export.offers u := by
    obtain ⟨x, hx, hu⟩ := h u hu
    obtain ⟨o, ho, rfl⟩ := hR x hx
    exact ⟨o, ho, hu⟩
  induction p with
  | literal d n v => exact .literal (hliteral d v)
  | parameter => exact .parameter
  | cast d n p ih => exact .cast (ih h (fun hl => hp (.cast hl)) hoffered)
  | formula d n f as ih =>
    rw [within_formula_iff] at h
    refine .formula (hformula _ _ _ ?_) fun a ha => ih a ha (h a ha) (fun hl => hp (.operand ha hl)) ?_
    · rw [length_map]
      by_cases hlt : as.length < f.least
      · exact .inr (hp (.formula hlt))
      · exact .inl (Nat.le_of_not_lt hlt)
    · intro u hu
      exact hoffered (mem_uses_formula.2 ⟨a, ha, hu⟩)
  | column n t c =>
    obtain ⟨o, ho, hu⟩ := hoffered mem_cons_self
    cases o with
    | columns t' =>
      obtain rfl : t' = t := of_decide_eq_true hu
      exact .column ho
    | items | answer => cases hu
  | reference d n t i =>
    obtain ⟨o, ho, hu⟩ := hoffered mem_cons_self
    cases o with
    | items t' ds =>
      obtain ⟨rfl, hi⟩ : t' = t ∧ i < ds.length := by simpa [Offer.export, Export.offers] using hu
      exact .reference ho hi
    | columns | answer => cases hu
  | embedding d t =>
    obtain ⟨o, ho, hu⟩ := hoffered mem_cons_self
    cases o with
    | answer t' =>
      obtain rfl : t' = t := of_decide_eq_true hu
      exact .embedding ho
    | columns | items => cases hu

lemma Frame.ClosedBy.writable {f : Frame} {e : Bool} (h : f.Held False [] R)
    (hn : f.tags.Nodup) (hp : ∀ p ∈ f.phrases, p.Lacks → lacks) (hR : ∀ x ∈ R, ∃ o ∈ O, o.export = x)
    (hoffers : f.offers e ⊆ O) (hanswers : ∀ y ∈ f.subqueries, .answer y.1 ∈ O)
    (hitems : ∀ t ds, .items t ds ∈ O → t ∈ f.tags → .items t ds ∈ f.offers e) : f.Writable O := by
  induction h generalizing e with
  | scalar => exact .scalar fun ds hds => absurd (hitems _ ds hds mem_cons_self) not_mem_nil
  | table => exact .table
  | @query R c as fs _ _ hjoins hphrases hconditions _ _ iha ihe =>
    obtain ⟨hanchors, hembedded⟩ := nodup_tags_of_query hn
    obtain ⟨hjoined, hdeep⟩ := tags_subset_of_query c as fs
    have hsegment : ∀ a ∈ as, a.frame.isSegment = false := fun a ha => Bool.eq_false_iff.2 (hjoins a ha)
    have hofAnchor {a : Anchor Frame} (ha : a ∈ as) : a.frame.offers false ⊆ O :=
      fun x hx => hoffers (mem_offers_query.2 (.inr (.inl ⟨a, ha, hx⟩)))
    have hofEmbedded {f : Frame} (hf : f ∈ fs) : f.offers true ⊆ O :=
      fun x hx => hoffers (mem_offers_query.2 (.inr (.inr ⟨f, hf, hx⟩)))
    have hview : ∀ x ∈ view exports as fs ++ R, ∃ o ∈ O, o.export = x := by
      refine forall_mem_append.2 ⟨forall_mem_append.2 ⟨fun x hx => ?_, fun x hx => ?_⟩, hR⟩
      · obtain ⟨a, ha, hx⟩ := mem_flatMap.1 hx
        obtain ⟨o, ho, rfl⟩ := exists_offer_of_mem_exports (hsegment a ha) hx
        exact ⟨o, hofAnchor ha ho, rfl⟩
      · obtain ⟨f, hf, rfl⟩ := mem_map.1 hx
        exact ⟨.answer f.tag, hanswers (f.tag, f) (mem_subqueries_query.2 (.inl ⟨f, hf, .inr rfl⟩)), rfl⟩
    have hwritable {p : Phrase} (hmem : p ∈ (Frame.query c as fs).phrases)
        (hreaches : Substitutes.Reaches [] (view exports as fs ++ R) p) : p.Writable O :=
      (Substitutes.reaches_nil_iff.1 hreaches).writable hliteral hformula hview (hp p hmem)
    refine .query ⟨fun p hpc => hwritable (mem_phrases_query.2 (.inl hpc)) (hphrases p hpc), fun ds hds => ?_⟩
      hsegment (fun a ha => iha a ha (e := false) (hanchors a ha) ?_ ?_ (hofAnchor ha) ?_ fun t ds hds ht => ?_)
      (fun a ha p hpa => hwritable (mem_phrases_query.2 (.inr (.inl ⟨a, ha, .inr hpa⟩))) (hconditions a ha p hpa))
      (fun f hf => ihe f hf (e := true) (hembedded f hf) ?_ hview (hofEmbedded hf) ?_ fun t ds hds ht => ?_)
    · have hself := mem_offer_of_tag hn (hitems _ ds hds (tag_mem_tags (.query c as fs))) rfl
      rw [← domains_of_mem_offer hself, length_map]
    · exact fun p hpa => hp p (mem_phrases_query.2 (.inr (.inl ⟨a, ha, .inl hpa⟩)))
    · exact fun x hx => hview x (answers_append_subset_view as fs hx)
    · exact fun y hy => hanswers y (mem_subqueries_query.2 (.inr ⟨a, ha, hy⟩))
    · exact mem_offers_of_anchor hn (hitems t ds hds (hjoined a ha ht)) ha ht
    · exact fun p hpf => hp p (mem_phrases_query.2 (.inr (.inr ⟨f, hf, hpf⟩)))
    · exact fun y hy => hanswers y (mem_subqueries_query.2 (.inl ⟨f, hf, .inl hy⟩))
    · exact mem_offers_of_embedded hn (hitems t ds hds (hdeep f hf ht)) hf ht

end Writing

namespace Frame

def FindsNames (f : Frame) : Prop :=
  ∀ dialect e, f.statement dialect = .error e →
    e ≠ .invariant .embeddedFrame ∧ (e = .missingEntry → ∃ p ∈ f.phrases, p.Lacks)

lemma ClosedBy.findsNames {f : Frame} (h : f.Held False [] []) (hn : f.tags.Nodup)
    (hsegment : f.isSegment) : f.FindsNames := by
  intro dialect e he
  let O := f.offers false ++ f.subqueries.map fun y => .answer y.1
  let _ := Discipline.named (∃ p ∈ f.phrases, p.Lacks)
  have hwritable : f.Writable O := by
    refine h.writable (e := false) (fun _ _ => trivial) (fun _ _ _ h => h) hn
      (fun p hp hl => ⟨p, hp, hl⟩) nofun (subset_append_left _ _) (fun y hy => ?_) fun t ds hds _ => ?_
    · exact mem_append_right _ (mem_map_of_mem hy)
    · refine (mem_append.1 hds).resolve_right fun hds => ?_
      obtain ⟨y, _, heq⟩ := mem_map.1 hds
      cases heq
  have hstatement : Ensures _ (f.statement dialect) := hwritable.statement (subset_append_left _ _) (fun x hx => ?_) hsegment
  · rw [he] at hstatement
    obtain hnameless | ⟨rfl, hlacks⟩ := hstatement
    · refine ⟨?_, ?_⟩ <;> rintro rfl <;> cases hnameless
    · exact ⟨nofun, fun _ => hlacks⟩
  · refine (mem_append.1 hx).imp_right fun hx => ?_
    obtain ⟨y, hy, rfl⟩ := mem_map.1 hx
    exact ⟨y, hy, rfl⟩

/-- A closed segment is reduced to a closed segment with as many select items and the same fields. Nothing
in it reads a frame that went, and if no segments are joined, its statement finds all names. -/
theorem reduced_closed_segment {j : Prop} {c : Clauses} {anchors : List (Anchor Frame)}
    {embedded : List Frame} (hsegment : c.role = .segment)
    (h : (query c anchors embedded).ClosedBy (.typical j) (fun R p => p.Within R) [])
    (hn : (query c anchors embedded).tags.Nodup) :
    ∃ k s d bs gs, (query c anchors embedded).collapse.run [] = .ok (k, s) ∧
      (query c anchors embedded).reduced = .ok (query d bs gs) ∧
      (query d bs gs).ClosedBy (.typical j) (fun R p => p.Within R) [] ∧ (query d bs gs).tags.Nodup ∧
      (∀ p ∈ (query d bs gs).phrases, ∀ u ∈ p.uses, u.tag ∈ (query d bs gs).tags ∧ u.tag ∉ s.keys) ∧
      d.role = .segment ∧ d.select.length = c.select.length ∧ d.outputs = c.outputs ∧
      (¬ j → (query d bs gs).FindsNames) := by
  obtain ⟨k, s, g, hrun, hreduced, hheld, hface, htags, hkeys⟩ := (held_nil_iff.2 h).reduced hn
  obtain ⟨-, hexports, hfields⟩ : g.tag = c.tag ∧ g.exports = [.items c.tag c.select.length] ∧
      g.fields? = some (c.role, c.outputs) := by simpa [face, tag, exports, fields?] using hface
  cases g with
  | scalar | table => cases hfields
  | query d bs gs =>
    obtain ⟨hrole, houtputs⟩ := Prod.mk.inj (Option.some.inj hfields)
    have hlength : d.select.length = c.select.length := (Export.items.inj (List.cons.inj hexports).1).2
    refine ⟨k, s, d, bs, gs, hrun, hreduced, held_nil_iff.1 hheld, htags, fun p hp u hu => ?_,
      hrole.trans hsegment, hlength, houtputs, fun hj => ?_⟩
    · have hin := (hheld.tag_mem hp hu).resolve_right not_mem_nil
      exact ⟨hin, fun hgone => hkeys _ hgone hin⟩
    · obtain rfl : j = False := eq_false hj
      exact hheld.findsNames htags (decide_eq_true (hrole.trans hsegment))

/-- A column of a table in a joined query, one of a table that is joined to it through another query, and
the value of an embedded query that reads the first of them from there. -/
theorem reduced_closed_segment_correlated :
    let table (t : Tag) : Frame := .table t ⟨⟨"ad", "school"⟩, [], [], [], []⟩
    let code (t : Tag) : Phrase := .column false t ⟨0, "code", ⟨"ad", "school"⟩, .text, false, false⟩
    let item (t : Tag) : Phrase := .reference .text false t 0
    let same (p q : Phrase) : Phrase := .formula .boolean false (.polar .isEqual 1) [p, q]
    let nested (m n : Tag) (filter : Option Phrase) : Frame :=
      query ⟨.nested, m, [code n], filter, [], none, [], none, none, []⟩ [.plain (table n)] []
    let c : Clauses := ⟨.segment, 0, [item 1, .embedding .text 5], none, [], none, [(item 3, .ascending)],
      none, none, [0, 1]⟩
    let anchors : List (Anchor Frame) :=
      [.plain (nested 1 2 none), ⟨nested 3 4 none, some (same (item 1) (item 3)), true, false⟩]
    let embedded := [nested 5 6 (some (same (item 1) (code 6)))]
    (query c anchors embedded).ClosedBy (.typical False) (fun R p => p.Within R) [] ∧
      (query c anchors embedded).tags.Nodup ∧
      ∃ k s d bs gs, (query c anchors embedded).collapse.run [] = .ok (k, s) ∧
        (query c anchors embedded).reduced = .ok (query d bs gs) ∧
        (query d bs gs).ClosedBy (.typical False) (fun R p => p.Within R) [] ∧ (query d bs gs).tags.Nodup ∧
        (∀ p ∈ (query d bs gs).phrases, ∀ u ∈ p.uses, u.tag ∈ (query d bs gs).tags ∧ u.tag ∉ s.keys) ∧
        d.role = .segment ∧ d.select.length = 2 ∧ d.outputs = [0, 1] ∧ (query d bs gs).FindsNames := by
  intro table code item same nested c anchors embedded
  have hnested (R : Reach) (m n : Tag) (filter : Option Phrase)
      (hf : ∀ p ∈ filter, p.Within (.columns n :: R)) :
      (nested m n filter).ClosedBy (.typical False) (fun R p => p.Within R) R := by
    refine .query (cons_ne_nil _ _) (fun a ha => Option.some.inj ha ▸ rfl) (forall_mem_singleton.2 nofun)
      (Clauses.forall_mem_phrases.2 ⟨forall_mem_singleton.2 ?_, hf, nofun, nofun, nofun⟩)
      (forall_mem_singleton.2 nofun) (forall_mem_singleton.2 .table) nofun
    exact forall_mem_singleton.2 ⟨.columns n, mem_cons_self, decide_eq_true rfl⟩
  have hclosed : (query c anchors embedded).ClosedBy (.typical False) (fun R p => p.Within R) [] := by
    refine .query (by decide) (fun a ha => Option.some.inj ha ▸ rfl) ?_ (by decide) ?_ ?_
      (forall_mem_singleton.2 (hnested _ 5 6 _ ?_))
    · exact forall_mem_cons.2 ⟨nofun, forall_mem_singleton.2 nofun⟩
    · exact forall_mem_cons.2 ⟨nofun, forall_mem_singleton.2 (by decide)⟩
    · exact forall_mem_cons.2
        ⟨hnested _ 1 2 none nofun, forall_mem_singleton.2 (hnested _ 3 4 none nofun)⟩
    · decide
  have hn : (query c anchors embedded).tags.Nodup := by decide
  obtain ⟨k, s, d, bs, gs, hrun, hreduced, hall, htags, huses, hrole, hselect, houtputs, hnames⟩ :=
    reduced_closed_segment rfl hclosed hn
  exact ⟨hclosed, hn, k, s, d, bs, gs, hrun, hreduced, hall, htags, huses, hrole, hselect, houtputs,
    hnames not_false⟩

/-- Any column may be read under the tag of any joined frame. -/
def Convention.loose : Convention := ⟨fun f => .columns f.tag :: f.exports, fun _ => True⟩

/-- A column that is read under the tag of a joined query stays behind when the query goes. -/
theorem reduced_reads_dissolved_query :
    let code (t : Tag) : Phrase := .column false t ⟨0, "code", ⟨"ad", "school"⟩, .text, false, false⟩
    let school : Frame := .table 2 ⟨⟨"ad", "school"⟩, [], [], [], []⟩
    let nested := query ⟨.nested, 1, [code 2], none, [], none, [], none, none, []⟩ [.plain school] []
    let c : Clauses := ⟨.segment, 0, [code 1], none, [], none, [], none, none, [0]⟩
    (query c [.plain nested] []).ClosedBy .loose (fun R p => p.Within R) [] ∧
      (query c [.plain nested] []).tags.Nodup ∧
      (query c [.plain nested] []).collapse.run [] = .ok (query c [.plain school] [], [(1, [code 2])]) ∧
      (query c [.plain nested] []).reduced = .ok (query c [.plain school] []) ∧
      ¬ (query c [.plain school] []).ClosedBy .loose (fun R p => p.Within R) [] ∧
      (query c [.plain school] []).statement .ansi = .error .missingEntry := by
  intro code school nested c
  refine ⟨?_, by decide, rfl, rfl, fun h => ?_, rfl⟩
  · have hnested : nested.ClosedBy .loose (fun R p => p.Within R) [] :=
      .query (cons_ne_nil _ _) (fun a ha => Option.some.inj ha ▸ rfl) (fun _ _ => trivial) (by decide)
        (forall_mem_singleton.2 nofun) (forall_mem_singleton.2 .table) nofun
    exact .query (cons_ne_nil _ _) (fun a ha => Option.some.inj ha ▸ rfl) (fun _ _ => trivial) (by decide)
      (forall_mem_singleton.2 nofun) (forall_mem_singleton.2 hnested) nofun
  · cases h with
    | query _ _ _ hphrases => exact absurd hphrases (by decide)

-- A segment is given no name where it is joined, so its select items have none either.
example :
    let school (t : Tag) : Anchor Frame := .plain (.table t ⟨⟨"ad", "school"⟩, [], [], [], []⟩)
    let code : Phrase := .column false 3 ⟨0, "code", ⟨"ad", "school"⟩, .text, false, false⟩
    let first := query ⟨.segment, 2, [code], none, [], none, [], some 1, none, [0]⟩ [school 3] []
    let c : Clauses := ⟨.segment, 0, [.reference .text false 2 0], none, [], none, [], none, none, [0]⟩
    (query c [school 1, .plain first] []).statement .ansi = .error .missingEntry := rfl

end Frame

end NavQuery
