import NavQuery.Plan
import NavQuery.Proofs.AssembledTerms
import NavQuery.Proofs.Denotations
import NavQuery.Proofs.FormedCompilation
import NavQuery.Proofs.NamedFrames
import NavQuery.Proofs.SelectLists
import NavQuery.Proofs.ShownStages

/-!
Every stage of planning keeps the domains of the values, so the columns of the statement are in the
domains of the fields. An error that is not about the query leaves planning only in the ways that
`Error.IsOutcome` tells.
-/

namespace NavQuery

section

open List

variable [Discipline.Lenient]

lemma Code.Formed.sayable {c : Code} (h : c.Formed) : c.Sayable := by
  cases h with
  | missing h => exact .missing (Discipline.Tolerant.absent h)
  | literal h => exact .literal h
  | parameter => exact .parameter
  | cast hc => exact .cast hc.sayable
  | formula hf has =>
    refine .formula hf fun a ha => ?_
    exact (has a ha).sayable
  | correlation => exact .correlation
  | column | single | aggregate | correlated | kernel | covering => exact .unit rfl
termination_by sizeOf c

namespace Term

variable {t top k : Term}

lemma Formed.isFitted (h : t.Formed) : t.isFitted := by
  cases h with
  | scalar => rfl
  | table _ ht => exact ht
  | filter _ _ hs _ _ | correlation _ _ hs | projection _ _ hs _ | order _ _ hs _ | wrapper _ _ hs
  | permanent _ _ hs | segment _ _ hs _ =>
    exact all_eq_true.2 (forall_mem_singleton.2 hs)
  | join _ _ hls _ hrs _ =>
    exact all_eq_true.2 (forall_mem_cons.2 ⟨hls, forall_mem_singleton.2 hrs⟩)
  | embedding _ _ hls _ hrc _ => exact Bool.and_eq_true_iff.2 ⟨hls, hrc⟩

lemma Formed.clauses (h : t.Formed) : ∀ x ∈ t.clauses, x.2.Formed := by
  cases h with
  | scalar | table | correlation | wrapper | permanent => exact forall_mem_nil _
  | filter _ _ _ hc _ => exact forall_mem_singleton.2 hc
  | join _ _ _ _ _ hjs =>
    intro x hx
    obtain ⟨j, hj, hx⟩ := mem_flatMap.1 hx
    rcases mem_cons.1 hx with rfl | hx
    · exact (hjs j hj).left
    · exact mem_singleton.1 hx ▸ (hjs j hj).right.1
  | embedding _ _ _ _ _ hcs | projection _ _ _ hcs | segment _ _ _ hcs => exact forall_mem_map.2 hcs
  | order _ _ _ his => exact forall_mem_map.2 his

lemma Formed.shown_kid {n : Nat} (hn : t.tags.Nodup) (ht : t.Formed) (hk : k ∈ t.kids) (h : n ∈ t.shown)
    (hnk : n ∈ k.tags) : n ∈ k.shown := by
  have htag := tag_not_mem_kid hn hk
  have hne : n ≠ t.tag := fun heq => htag (heq ▸ hnk)
  cases ht with
  | scalar | table => cases hk
  | filter | correlation | order | wrapper | permanent | segment =>
    obtain rfl := mem_singleton.1 hk
    exact (mem_cons.1 h).resolve_left hne
  | projection =>
    exact absurd (mem_singleton.1 h) hne
  | @join _ l r _ _ =>
    rcases mem_append.1 ((mem_cons.1 h).resolve_left hne) with h | h
    · exact kid_unique hn mem_cons_self hk (shown_subset_tags l h) hnk ▸ h
    · exact kid_unique hn (.tail _ mem_cons_self) hk (shown_subset_tags r h) hnk ▸ h
  | @embedding _ l r _ _ _ _ _ hrc =>
    rcases mem_cons.1 ((mem_cons.1 h).resolve_left hne) with rfl | h
    · obtain rfl := kid_unique hn (.tail _ mem_cons_self) hk (tag_mem_tags r) hnk
      cases r <;> first | exact mem_cons_self | cases hrc
    · exact kid_unique hn mem_cons_self hk (shown_subset_tags l h) hnk ▸ h

/-- A unit that a term looks up is proper, and its target is shown by the kid that leads to it. -/
theorem Formed.looks {r : Routes} {u : Code} {n : Nat} (hn : t.tags.Nodup) (ht : t.Formed) (hr : t.Looks r)
    (hu : r.find? u = some n) (hk : k ∈ t.kids) (hnk : n ∈ k.tags) : n ∈ k.shown ∧ u.isProper := by
  rcases hr with rfl | ⟨l, hl, rfl⟩
  · obtain ⟨hshown, hproper⟩ := ht.fits.routes.find hu
    exact ⟨ht.shown_kid hn hk hshown hnk, hproper⟩
  · obtain ⟨hshown, hproper⟩ := (ht.kid hl).fits.routes.find hu
    obtain rfl := kid_unique hn hl hk (shown_subset_tags l hshown) hnk
    exact ⟨hshown, hproper⟩

structure Proper (top : Term) (c : Claim) : Prop where
  formed : c.unit.Formed
  proper : c.unit.isProper = true
  shown : ∃ t ∈ top.subterms, t.tag = c.broker ∧ c.target ∈ t.shown

lemma Formed.proper (h : top.Formed) (hn : top.tags.Nodup) {c : Claim} (hc : top.Demands c) :
    top.Proper c := by
  have hlooks {t : Term} {r : Routes} {u : Code} {n b : Nat} (ht : t ∈ top.subterms) (hr : t.Looks r)
      (hu : u.Formed) (hfind : r.find? u = some n) (hb : t.offspring? n = some b) :
      top.Proper ⟨u, b, n⟩ := by
    obtain ⟨k, hk, rfl, hnk⟩ := of_offspring hb
    obtain ⟨hshown, hproper⟩ := (h.subterm ht).looks (nodup_subterm hn ht) hr hfind hk hnk
    exact ⟨hu, hproper, k, subterms_trans ht (mem_subterms_of_kid hk), rfl, hshown⟩
  induction hc with
  | clause ht hx hu hfind hb =>
    exact hlooks ht (looks_of_clauses hx) (((h.subterm ht).clauses _ hx).units hu) hfind hb
  | operand _ ht _ _ hop hu hfind hb ih =>
    exact hlooks ht (looks_inner _) ((ih.formed.operand hop).units hu) hfind hb
  | forward _ ht hbroker _ hb ih =>
    obtain ⟨k, hk, rfl, hnk⟩ := of_offspring hb
    obtain ⟨t', ht', htag, hshown⟩ := ih.shown
    obtain rfl := eq_of_tag_eq hn ht' ht (htag.trans hbroker)
    refine ⟨ih.formed, ih.proper, k, subterms_trans ht (mem_subterms_of_kid hk), rfl, ?_⟩
    exact (h.subterm ht).shown_kid (nodup_subterm hn ht) hk hshown hnk

lemma Formed.workable (h : top.Formed) (hn : top.tags.Nodup) : top.Workable where
  nodup := hn
  fitted t ht := (h.subterm ht).isFitted
  routes t ht u n hfind := shown_subset_tags t ((h.subterm ht).fits.routes.find hfind).1
  clauses t ht x hx := ((h.subterm ht).clauses x hx).sayable
  scalars head hmem c hc hb := by
    obtain ⟨t, ht, htag, hshown⟩ := (h.proper hn hc).shown
    obtain rfl := eq_of_tag_eq hn ht hmem (htag.trans hb)
    exact absurd hshown not_mem_nil
  units c hc := by
    have hproper := h.proper hn hc
    exact ⟨hproper.proper, fun k hk => (hproper.formed.operand hk).sayable⟩
  routed := .inl Discipline.tolerates

end Term

end

open Phrase Statement

attribute [local instance] Discipline.typed

lemma ensures_writeLiteral {dialect : Dialect} {d : Domain} {v : Value} (h : d.writes v) :
    Passes (writeLiteral dialect d v) := by
  cases v with
  | null | boolean | text => exact trivial
  | list => cases d <;> cases h
  | integer n =>
    unfold writeLiteral writeInteger
    dsimp only
    split
    · exact trivial
    · exact .query _ _
  | float x =>
    unfold writeLiteral writeFloat
    dsimp only
    split
    · exact .query _ _
    · exact trivial
  | decimal | date | time | dateTime =>
    cases d with
    | decimal | date | time | dateTime => first | exact trivial | cases h
    | _ => cases h

abbrev Discipline.spelled : Discipline.Spelling where
  toLenient := Discipline.typed
  spells _ := ensures_writeLiteral
  operands h := .inl h.least

lemma Phrase.Grounded.writable {R : List Offer} {p : Phrase} (h : p.Grounded R) : p.Writable R := by
  induction h with
  | literal h => exact .literal h
  | parameter => exact .parameter
  | cast _ ih => exact .cast ih
  | formula hf _ ih => exact .formula hf ih
  | column h => exact .column h
  | reference h hd => exact .reference h (List.getElem?_eq_some_iff.1 hd).1
  | embedding h => exact .embedding h

namespace Frame

variable {R : List Offer} {f : Frame}

lemma In.writable (h : f.In R) : f.Writable R := by
  induction h with
  | scalar h => exact .scalar h
  | table => exact .table
  | query hc hj _ hp _ iha ihe =>
    refine .query ⟨fun p hmem => (hc.phrases p hmem).writable, fun ds hds => ?_⟩ hj iha
      (fun a ha p hpa => (hp a ha p hpa).grounded.writable) ihe
    rw [← hc.domains ds hds, List.length_map]

lemma In.statement {dialect : Dialect} (hf : f.In (f.offers false)) (hsegment : f.isSegment) :
    Passes (f.statement dialect) :=
  @Writable.statement Discipline.spelled _ _ _ hf.writable (List.Subset.refl _) (fun _ hx => .inl hx)
    hsegment

end Frame

open Segment

variable {t : Term} {codes : List Code}

lemma Term.Formed.booleanFilters (h : t.Formed) : t.BooleanFilters := by
  intro s hs c hc
  cases h.subterm hs with
  | filter _ _ _ _ hb => exact Option.mem_some.1 hc ▸ hb
  | _ => cases hc

namespace Frame

/-- The frame of a term reads what is in scope and keeps the domains of the codes. -/
structure Finished (codes : List Code) (f : Frame) : Prop where
  inScope : f.Scoped (fun O p => p.Grounded O) []
  nodup : f.tags.Nodup
  boolean : f.BooleanConditions
  result : ∃ ds outputs, f.result? = some (ds, outputs) ∧
    List.Forall₂ (fun c i => ds[i]? = some (Code.domain c)) codes outputs

lemma Assembles.finished {h : Term.Head} {k : Term} {l : Ledger} {q : Frame × Ledger}
    (hq : Assembles (.segment h k codes) [] (.segment h k codes) l q)
    (ht : (Term.segment h k codes).Formed) (hn : (Term.segment h k codes).tags.Nodup) :
    Finished codes q.1 := by
  refine ⟨hq.inScope, ?_, hq.boolean ht.booleanFilters, ?_⟩
  · rw [hq.tags]
    exact hn.map fun a b => Int.ofNat.inj
  · obtain ⟨f, m⟩ := q
    cases f with
    | scalar | table => exact nomatch hq.segment
    | query c anchors embedded =>
      have hrole : c.role = .segment := of_decide_eq_true hq.segment
      exact ⟨_, _, if_pos hrole, hq.outputs c anchors embedded rfl⟩

end Frame

lemma Term.Complete.ofTerm (h : t.Complete codes) :
    Ensures (fun made => made.frame.Finished codes) (Frame.ofTerm t) := by
  obtain ⟨hformed, hnodup, head, k, rfl⟩ := h
  refine ((hformed.workable hnodup).assemble rfl).bind fun q hq => ?_
  obtain ⟨hq, hperm, -⟩ := hq
  have hlength : q.2.claims.length = q.2.phrases.length := by rw [← hperm.length_eq, List.length_map]
  show Ensures _ (do
    ensure (q.2.claims.length == q.2.phrases.length) .suppliedClaims
    return (⟨q.1, q.2.claims.length⟩ : Frame.Assembled))
  rw [hlength, BEq.rfl]
  exact .pure (hq.finished hformed hnodup)

lemma Segment.ofBinding_eq (b : Binding) : ofBinding b = match b with
      | .collect l base seed =>
        do ofContent l.mark (← base.relate) (Content.ofBinding seed)
      | b => .error (.query .flowExpected b.mark) := by
  cases b with
  | collect l base seed => exact ofBinding_collect l base seed
  | _ => rfl

namespace Plan

variable {o : Options} {b : Binding}

lemma ensures_stage {name : Text} {text : Unit → Result Text} (h : Passes (text ())) :
    Passes (stage o name text) := by
  unfold stage
  split
  · exact h.map
  · exact trivial

structure Coherent (dialect : Dialect) (p : Plan) : Prop where
  fields : List.Forall₂ (fun f k => p.domains[k]? = some (Field.domain f)) p.profile.fields p.outputs
  select : ∃ select : List Phrase, select.map Phrase.domain = p.domains ∧
    Statement.Selects dialect select p.sql

lemma domains_profileOf (l : Label) (base seed : Binding) :
    (profileOf (.collect l base seed)).fields.map Field.domain = domainsOf seed := by
  cases seed with
  | selection => simp [profileOf, domainsOf, Segment.Content.elements?, Function.comp_def]
  | _ => rfl

lemma ensures_ofBinding (h : b.Typed) : Ensures (fun e => Coherent o.dialect e.plan) (ofBinding o b) := by
  refine (ensures_stage (Ensures.pure trivial)).bind fun bound => ?_
  cases h with
  | @collect l base seed hb hs =>
    refine (Segment.ensures_ofBinding hb hs).bind fun segment hsegment => ?_
    refine (ensures_stage hsegment.formed.render).bind fun encoded => ?_
    refine hsegment.formed.simplify.bind fun segment' hsegment' => ?_
    refine (ensures_stage hsegment'.formed.render).bind fun simplified => ?_
    refine hsegment'.formed.term.bind fun term hterm => ?_
    refine (ensures_stage hterm.formed.render).bind fun compiled => ?_
    refine hterm.ofTerm.bind fun made hmade => ?_
    refine (ensures_stage (Frame.ensures_render (hmade.inScope.grounded false))).bind fun assembled => ?_
    refine (hmade.inScope.reduced hmade.nodup hmade.boolean).bind fun frame hframe => ?_
    refine (ensures_stage (Frame.ensures_render hframe.2.phrases)).bind fun reduced => ?_
    obtain ⟨ds, outputs, hresult, houtputs⟩ := hmade.result
    obtain ⟨hsame, hin⟩ := hframe
    rw [hresult] at hsame
    have hisSegment : frame.isSegment := by rw [Frame.isSegment_eq, hsame]; rfl
    refine (hin.statement hisSegment).and_eq.bind fun st hst => ?_
    refine (ensures_stage (Ensures.pure trivial)).bind fun serialized => .pure ?_
    cases frame with
    | scalar | table => cases hsame
    | query c anchors embedded =>
      have hrole : c.role = .segment := of_decide_eq_true hisSegment
      obtain ⟨rfl, rfl⟩ : c.select.map Phrase.domain = ds ∧ c.outputs = outputs := by
        simpa [Frame.result?, Clauses.result?, hrole] using hsame
      refine ⟨?_, c.select, rfl, Frame.selects_of_statement hst.2⟩
      -- the codes of the segment have the domains of the fields through all stages
      have hdomains : segment'.codes.map Code.domain =
          (profileOf (.collect l base seed)).fields.map Field.domain := by
        rw [hsegment'.domains, hsegment.domains, domains_profileOf]
      have hboth : List.Forall₂ (fun d i => (c.select.map Phrase.domain)[i]? = some d)
          (segment'.codes.map Code.domain) c.outputs := List.forall₂_map_left_iff.2 houtputs
      rw [hdomains] at hboth
      exact List.forall₂_map_left_iff.1 hboth
  | _ => exact .query _ _

lemma ensures_ofText (catalog : Catalog) (environment : Environment) (o : Options) (query : Text) :
    Ensures (fun e => e.plan.sql ≠ [] → Coherent o.dialect e.plan) (ofText catalog environment o query) := by
  refine Ensures.bind (P := fun _ => True) ?_ fun q _ => ?_
  · unfold parse
    split
    · exact trivial
    · exact .query _ _
  · refine (Binding.ensures_ofQuery _ q o.limit).bind fun b hb => ?_
    cases b with
    | none => exact fun h => absurd rfl h
    | some b => exact (ensures_ofBinding (hb b rfl)).imp fun e he _ => he

/-- A plan that runs a statement has one column for each field, and the column is in the domain of the field.
The domains are those of the items that the statement selects. -/
theorem coherent_of_ofText {catalog : Catalog} {environment : Environment} {o : Options} {query : Text}
    {e : Explained} (h : ofText catalog environment o query = .ok e) (hsql : e.plan.sql ≠ []) :
    e.plan.outputs.length = e.plan.profile.fields.length ∧
      (∀ k ∈ e.plan.outputs, k < e.plan.domains.length) ∧
      (∃ select : List Phrase, select.map Phrase.domain = e.plan.domains ∧
        Statement.Selects o.dialect select e.plan.sql) ∧
      List.Forall₂ (fun f k => e.plan.domains[k]? = some (Field.domain f))
        e.plan.profile.fields e.plan.outputs := by
  obtain ⟨hfields, hselect⟩ := (ensures_ofText catalog environment o query).of_ok h hsql
  refine ⟨hfields.length_eq.symm, fun k hk => ?_, hselect, hfields⟩
  obtain ⟨i, hi, rfl⟩ := List.getElem_of_mem hk
  exact (List.getElem?_eq_some_iff.1 (hfields.get (hfields.length_eq ▸ hi) hi)).1

theorem coherent_of_ofText_schoolCodes :
    ∃ e, ofText ⟨[⟨"ad", [Sample.school]⟩], []⟩ [] ⟨none, .ansi, false⟩ "/school{code}" = .ok e ∧
      e.plan.sql ≠ [] ∧ e.plan.outputs.length = e.plan.profile.fields.length ∧
      (∀ k ∈ e.plan.outputs, k < e.plan.domains.length) ∧
      (∃ select : List Phrase, select.map Phrase.domain = e.plan.domains ∧
        Statement.Selects .ansi select e.plan.sql) ∧
      List.Forall₂ (fun f k => e.plan.domains[k]? = some (Field.domain f))
        e.plan.profile.fields e.plan.outputs := by
  have hplanned : (ofText ⟨[⟨"ad", [Sample.school]⟩], []⟩ [] ⟨none, .ansi, false⟩
      "/school{code}").toOption.any (fun e => e.plan.sql ≠ []) = true := by
    simp only [ofText, ofBinding, ofBinding_eq, simplify, tidy, accompany,
      rebuild_eq, unmask_eq, units_eq]
    decide +kernel
  cases h : ofText ⟨[⟨"ad", [Sample.school]⟩], []⟩ [] ⟨none, .ansi, false⟩ "/school{code}" with
  | error err => rw [h] at hplanned; exact nomatch hplanned
  | ok e =>
    rw [h] at hplanned
    have hsql : e.plan.sql ≠ [] := of_decide_eq_true hplanned
    exact ⟨e, rfl, hsql, coherent_of_ofText h hsql⟩

/-- Planning ends in a plan or in one of the outcomes. -/
theorem ofText_isOutcome (catalog : Catalog) (environment : Environment) (o : Options) (query : Text) :
    (∃ e, ofText catalog environment o query = .ok e) ∨
      ∃ err, ofText catalog environment o query = .error err ∧ err.IsOutcome := by
  have h := ensures_ofText catalog environment o query
  cases hp : ofText catalog environment o query with
  | ok e => exact .inl ⟨e, rfl⟩
  | error err => exact .inr ⟨err, rfl, by rwa [hp] at h⟩

/-- The fault of a literal that a computation ends in. -/
def fault? {α : Type} : Result α → Option Fault
  | .error (.literal f) => some f
  | _ => none

lemma eq_error_of_fault? {α : Type} {x : Result α} {f : Fault} (h : fault? x = some f) :
    x = .error (.literal f) := by
  unfold fault? at h
  split at h
  · rw [Option.some.inj h]
  · cases h

/-- A whole number beyond the floating-point numbers. -/
def overflowing : Text :=
  Text.ofString "/school\x7bfloat(1" ++ List.replicate 309 48 ++ Text.ofString ")\x7d"

/-- The error for such a number says nothing about the place in the query. -/
theorem ofText_overflowing :
    ∃ fault, ofText ⟨[⟨"ad", [Sample.school]⟩], []⟩ [] ⟨none, .ansi, false⟩ overflowing =
      .error (.literal fault) := by
  have hfault : (fault? (ofText ⟨[⟨"ad", [Sample.school]⟩], []⟩ [] ⟨none, .ansi, false⟩ overflowing)).isSome := by
    simp only [ofText, ofBinding, ofBinding_eq]
    decide +kernel
  obtain ⟨fault, h⟩ := Option.isSome_iff_exists.1 hfault
  exact ⟨fault, eq_error_of_fault? h⟩

end Plan

end NavQuery
