import NavQuery.Proofs.FormedTerms
import NavQuery.Proofs.GroundedFrames

/-!
Only a literal can be without a text, so a formed segment, a formed term and a frame of grounded phrases
can always be shown.
-/

namespace NavQuery

open List Phrase

attribute [local instance] Discipline.typed

lemma ensures_renderLiteral {d : Domain} {v : Value} (h : d.writes v) : Passes (renderLiteral d v) := by
  cases v with
  | null | boolean | text => exact trivial
  | list => cases d <;> cases h
  | integer | float | decimal | date | time | dateTime =>
    cases d <;> first | exact trivial | cases h

lemma Code.renderAll_eq (cs : List Code) : Code.renderAll cs = cs.mapM (·.render) :=
  eq_mapM_of_cons cs rfl fun _ _ => rfl

lemma Code.renderImages_eq (is : List (Code × Code)) : Code.renderImages is = is.mapM Code.renderImage :=
  eq_mapM_of_cons is rfl fun _ _ => rfl

lemma Code.renderOrder_eq (os : List (Code × Direction)) : Code.renderOrder os = os.mapM Code.renderItem :=
  eq_mapM_of_cons os rfl fun _ _ => rfl

mutual

lemma Space.Formed.render {s : Space} (h : s.Formed) : Passes s.render := by
  cases h with
  | root => exact trivial
  | scalar hb | table hb | fiber hb | complement hb _ =>
    exact hb.render.map
  | moniker hb hs _ | filtered hb hs =>
    exact hb.render.map₂ hs.render
  | quotient hb hs hks _ =>
    rw [Space.render, Code.renderAll_eq]
    exact hb.render.map₃ hs.render (.mapM fun k hk => (hks k hk).render)
  | forked hb _ hks _ =>
    rw [Space.render, Code.renderAll_eq]
    exact hb.render.map₂ (.mapM fun k hk => (hks k hk).render)
  | linked hb hs hl hr _ =>
    rw [Space.render, Code.renderImages_eq]
    refine hb.render.map₃ hs.render (.mapM fun ⟨a, c⟩ hi => ?_)
    have hlt := sizeOf_pair_lt hi
    have ha : a.Formed := hl _ hi
    have hc : c.Formed := hr _ hi
    exact ha.render.map₂ hc.render
  | ordered hb hos =>
    rw [Space.render, Code.renderOrder_eq]
    refine hb.render.map₂ (.mapM fun ⟨c, d⟩ hi => ?_)
    have hlt := sizeOf_pair_lt hi
    have hc : c.Formed := hos _ hi
    exact hc.render.map
termination_by sizeOf s

lemma Code.Formed.render {c : Code} (h : c.Formed) : Passes c.render := by
  cases h with
  | missing h => exact h.elim
  | literal h => exact ensures_renderLiteral h
  | parameter => exact trivial
  | cast hc | correlation hc | column hc =>
    exact hc.render.map
  | formula _ has =>
    rw [Code.render, Code.renderAll_eq]
    exact (Passes.mapM fun a ha => (has a ha).render).map
  | single hc hs _ | kernel hc hs | covering hc hs =>
    exact hc.render.map₂ hs.render
  | aggregate hc hp hs _ | correlated hc hp hs =>
    exact hc.render.map₃ hp.render hs.render
termination_by sizeOf c

end

lemma Code.ensures_renderAll {cs : List Code} (h : ∀ c ∈ cs, c.Formed) : Passes (Code.renderAll cs) := by
  rw [Code.renderAll_eq]
  exact .mapM fun c hc => (h c hc).render

lemma Segment.Formed.render {s : Segment} (h : s.Formed) : Passes s.render :=
  h.space.render.map₂ (Code.ensures_renderAll h.codes)

namespace Term

variable {t : Term}

lemma Formed.renderDetails (h : t.Formed) : Passes t.renderDetails := by
  cases h with
  | scalar | table | embedding | correlation | wrapper | permanent | segment => exact trivial
  | filter _ _ _ hc _ => exact hc.render.map
  | join _ _ _ _ _ hjs =>
    exact (Passes.mapM fun j hj => (hjs j hj).left.render.map₂ (hjs j hj).right.1.render).map
  | projection _ _ _ hks => exact (Code.ensures_renderAll hks).map
  | order _ _ _ his => exact (Passes.mapM fun i hi => (his i hi).render.map).map

lemma Formed.renderLine (h : t.Formed) (depth : Nat) : Passes (t.renderLine depth) :=
  h.fits.space.render.map₂ h.renderDetails

lemma Formed.renderAt (h : t.Formed) (depth : Nat) : Passes (t.renderAt depth) := by
  induction t generalizing depth with
  | scalar | table => exact h.renderLine depth
  | filter _ _ _ ih | correlation _ _ ih | projection _ _ _ ih | order _ _ _ _ _ ih | wrapper _ _ ih
  | permanent _ _ ih | segment _ _ _ ih =>
    exact (h.renderLine depth).map₂ (ih (h.kid mem_cons_self) _)
  | join _ _ _ _ _ ihl ihr | embedding _ _ _ _ ihl ihr =>
    exact (h.renderLine depth).map₃ (ihl (h.kid mem_cons_self) _) (ihr (h.kid (.tail _ mem_cons_self)) _)

lemma Formed.render (h : t.Formed) : Passes t.render := h.renderAt 0

end Term

namespace Phrase

variable {O : List Offer} {p : Phrase}

lemma ensures_renderAll {ps : List Phrase} (h : ∀ p ∈ ps, Passes p.render) : Passes (renderAll ps) := by
  induction ps with
  | nil => exact trivial
  | cons p ps ih =>
    rw [forall_mem_cons] at h
    exact h.1.map₂ (ih h.2)

lemma Grounded.render (h : p.Grounded O) : Passes p.render := by
  induction h with
  | literal h => exact ensures_renderLiteral h
  | parameter | column | reference | embedding => exact trivial
  | cast _ ih => exact ih.map
  | formula _ _ ih => exact (ensures_renderAll ih).map

end Phrase

namespace Frame

variable {c : Clauses} {f : Frame} {depth : Nat} {word : Text}

def Shown (ps : List Phrase) : Prop := ∀ p ∈ ps, Passes p.render

lemma ensures_renderList {ps : List Phrase} (h : Shown ps) : Passes (renderList depth word ps) :=
  (ensures_renderAll h).map

lemma ensures_renderPhrase {p : Option Phrase} (h : ∀ q ∈ p, Passes q.render) :
    Passes (renderPhrase depth word p) := by
  cases p with
  | none => exact trivial
  | some p => exact (h p rfl).map

lemma ensures_renderOrder {items : List SortItem} (h : Shown (items.map (·.1))) :
    Passes (renderOrder depth items) := by
  unfold renderOrder
  split
  · exact trivial
  · exact (Passes.mapM fun i hi => (h i.1 (mem_map_of_mem hi)).map).map

lemma ensures_renderClauses (h : Shown c.phrases) : Passes (renderClauses depth c) := by
  obtain ⟨-, hfilter, hgroup, hhaving, horder⟩ := Clauses.forall_mem_phrases.1 h
  refine (ensures_renderPhrase hfilter).bind fun _ => ?_
  have horder : Passes (renderOrder depth c.order) := ensures_renderOrder (forall_mem_map.2 horder)
  split
  · exact (ensures_renderPhrase hhaving).map₂ horder
  · exact (ensures_renderList hgroup).map₃ (ensures_renderPhrase hhaving) horder

lemma ensures_renderAnchors {as : List (Anchor Frame)}
    (h : ∀ a ∈ as, ∀ depth, Passes (a.frame.renderAt depth))
    (hp : ∀ a ∈ as, ∀ p ∈ a.condition, Passes p.render) : Passes (renderAnchors as depth) := by
  induction as with
  | nil => exact trivial
  | cons a as ih =>
    rw [forall_mem_cons] at h hp
    obtain ⟨f, condition, left, right⟩ := a
    have hon : Passes (renderCondition condition) := by
      cases condition with
      | none => exact trivial
      | some p => exact (hp.1 p rfl).map
    exact (hon.map₂ (h.1 (depth + 1))).map₂ (ih h.2 hp.2)

lemma ensures_renderEmbedded {fs : List Frame} (h : ∀ f ∈ fs, ∀ depth, Passes (f.renderAt depth)) :
    Passes (renderEmbedded fs depth) := by
  induction fs with
  | nil => exact trivial
  | cons f fs ih =>
    rw [forall_mem_cons] at h
    exact (h.1 _).map₂ (ih h.2)

lemma Shown.renderAt (h : Shown f.phrases) : Passes (f.renderAt depth) := by
  induction f generalizing depth with
  | scalar | table => exact trivial
  | query c anchors embedded iha ihe =>
    have hclauses : Shown c.phrases := fun p hp => h p (mem_phrases_query.2 (.inl hp))
    have hselect : Shown c.select := fun p hp => hclauses p (Clauses.mem_phrases.2 (.inl hp))
    have hframe : ∀ a ∈ anchors, Shown a.frame.phrases := fun a ha p hp =>
      h p (mem_phrases_query.2 (.inr (.inl ⟨a, ha, .inl hp⟩)))
    have hcondition : ∀ a ∈ anchors, ∀ p ∈ a.condition, Passes p.render := fun a ha p hp =>
      h p (mem_phrases_query.2 (.inr (.inl ⟨a, ha, .inr hp⟩)))
    have hembedded : ∀ f ∈ embedded, Shown f.phrases := fun f hf p hp =>
      h p (mem_phrases_query.2 (.inr (.inr ⟨f, hf, hp⟩)))
    exact (ensures_renderList hselect).bind fun _ =>
      (ensures_renderAnchors (fun a ha depth => iha a ha (hframe a ha)) hcondition).map₃
        (ensures_renderEmbedded fun f hf depth => ihe f hf (hembedded f hf))
        (ensures_renderClauses hclauses)

lemma ensures_render {O : List Offer} (h : ∀ p ∈ f.phrases, p.Grounded O) : Passes f.render :=
  Shown.renderAt fun p hp => (h p hp).render

lemma In.phrases {R : List Offer} (h : f.In R) : ∀ p ∈ f.phrases, p.Grounded R := by
  induction h with
  | scalar | table => exact nofun
  | query hc _ _ hp _ iha ihe =>
    intro p hmem
    rcases mem_phrases_query.1 hmem with hmem | ⟨a, ha, hmem | hmem⟩ | ⟨f, hf, hmem⟩
    · exact hc.phrases p hmem
    · exact iha a ha p hmem
    · exact (hp a ha p hmem).grounded
    · exact ihe f hf p hmem

end Frame

end NavQuery
