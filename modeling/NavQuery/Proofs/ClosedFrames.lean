import NavQuery.Proofs.FrameOffers
import NavQuery.Proofs.ReducedPhrases

/-!
A frame is closed if its phrases read what they see. While frames are merged, references to those that
are gone lead on through their select lists: `Frame.Held` is what holds all the time.
-/

namespace NavQuery

open List Phrase

attribute [local instance] Discipline.total

namespace Phrase

variable {R : Reach} {p : Phrase} {d : Domain} {n : Bool} {f : Operator} {as : List Phrase}

def Reach.Offers (R : Reach) (u : Use) : Prop := ∃ x ∈ R, x.offers u = true

section Rules

lemma within_ofValue (d : Domain) (v : Value) : (ofValue d v).Within R :=
  nofun

lemma Within.asNullable (h : p.Within R) : p.asNullable.Within R := by
  cases p with
  | literal | parameter | cast | formula | column | reference | embedding => exact h

lemma within_rules : Phrase.Rules (fun _ _ as => ∀ a ∈ as, a.Within R) fun _ p => p.Within R where
  null := within_ofValue _ _
  truth _ _ _ := within_ofValue _ _
  formula h _ := within_formula_iff.2 h
  operand h _ := h
  inner h _ := within_formula_iff.1 h
  operands _ _ _ h := h
  nullTest h _ a ha := forall_mem_singleton.2 (h a ha)
  filled {d f as} h _ := forall_mem_map.2 fun a ha => by
    unfold Phrase.filled
    split
    · exact within_ofValue _ _
    split
    · exact within_formula_iff.2 (forall_mem_cons.2 ⟨h a ha, forall_mem_singleton.2 (within_ofValue _ _)⟩)
    · exact h a ha

end Rules

def Use.Served (resolve : Tag → Nat → Result (Option Phrase)) (R : Reach) : Use → Prop
  | .item t i => Ensures (fun r => r.elim (R.Offers (.item t i)) (Within R)) (resolve t i)
  | u => R.Offers u

lemma ensures_reduceWith {resolve : Tag → Nat → Result (Option Phrase)}
    (h : ∀ u ∈ p.uses, u.Served resolve R) : Ensures (Within R) (p.reduceWith resolve) := by
  induction p with
  | literal | parameter => exact nofun
  | column | embedding => exact forall_mem_singleton.2 (h _ mem_cons_self)
  | cast d n p ih =>
    refine (ih h).bind fun q hq => ?_
    split
    · exact within_ofValue d .null
    · exact hq
  | reference d n t i =>
    refine (h (.item t i) mem_cons_self).bind fun r hr => ?_
    cases r with
    | none => exact forall_mem_singleton.2 hr
    | some q =>
      change Within R (if n = true then q.asNullable else q)
      split
      · exact Within.asNullable hr
      · exact hr
  | formula d n f as ih =>
    rw [reduceWith, reduceAllWith_eq]
    refine (Ensures.mapM fun a ha => ih a ha fun u hu => ?_).bind fun bs hbs => within_rules.reduceFormula hbs
    exact h u (mem_uses_formula.2 ⟨a, ha, hu⟩)

end Phrase

namespace Substitutes

def keys (s : Substitutes) : List Tag := s.map (·.1)

/-- A use leads to what is in reach, through the select lists of the frames that are gone. -/
inductive Leads (s : Substitutes) (R : Reach) : Use → Prop
  | offered {u : Use} {x : Export} (hx : x ∈ R) (h : x.offers u) : Leads s R u
  | gone {t : Tag} {i : Nat} {select : List Phrase} {p : Phrase} (hs : (t, select) ∈ s)
    (hp : select[i]? = some p) (h : ∀ u ∈ p.uses, Leads s R u) : Leads s R (.item t i)

def Reaches (s : Substitutes) (R : Reach) (p : Phrase) : Prop := ∀ u ∈ p.uses, s.Leads R u

variable {s s' : Substitutes} {R R' : Reach} {u : Use} {p : Phrase}

/-- What led somewhere still does where nothing is forgotten and what was in reach leads there as well. -/
theorem Leads.transport (h : s.Leads R u) (hs : s ⊆ s')
    (hR : ∀ x ∈ R, ∀ u, x.offers u → s'.Leads R' u) : s'.Leads R' u := by
  induction h with
  | offered hx h => exact hR _ hx _ h
  | gone hmem hp _ ih => exact .gone (hs hmem) hp ih

lemma Leads.mono (h : s.Leads R u) (hs : s ⊆ s') (hR : R ⊆ R') : s'.Leads R' u :=
  h.transport hs fun _ hx _ hu => .offered (hR hx) hu

lemma reaches_nil_iff : Reaches [] R p ↔ p.Within R := by
  refine ⟨fun h u hu => ?_, fun h u hu => ?_⟩
  · cases h u hu with
    | offered hx hu => exact ⟨_, hx, hu⟩
    | gone hs => cases hs
  · obtain ⟨x, hx, hu⟩ := h u hu
    exact .offered hx hu

lemma reaches_formula_iff {d : Domain} {n : Bool} {f : Operator} {as : List Phrase} :
    s.Reaches R (.formula d n f as) ↔ ∀ a ∈ as, s.Reaches R a := by
  simp only [Reaches, mem_uses_formula]
  refine ⟨fun h a ha u hu => h u ⟨a, ha, hu⟩, ?_⟩
  rintro h u ⟨a, ha, hu⟩
  exact h a ha u hu

lemma lookup_eq_some_of_mem {t : Tag} {select : List Phrase} (hn : s.keys.Nodup) (h : (t, select) ∈ s) :
    s.lookup t = some select := by
  induction s with
  | nil => cases h
  | cons x s ih =>
    rw [keys, map_cons, nodup_cons] at hn
    obtain rfl | h := mem_cons.1 h
    · simp
    · have hne : t ≠ x.1 := fun heq => hn.1 (heq ▸ mem_map_of_mem h)
      rw [lookup_cons, beq_eq_false_iff_ne.2 hne]
      exact ih hn.2 h

lemma lookup_eq_none_of_not_mem_keys {t : Tag} (h : t ∉ s.keys) : s.lookup t = none := by
  rw [lookup_eq_none_iff]
  intro x hx
  have hne : t ≠ x.1 := fun heq => h (by rw [heq]; exact mem_map_of_mem hx)
  simpa using hne

lemma exists_depth {Q : Use → Nat → Prop} (hmono : ∀ u m n, m ≤ n → Q u m → Q u n) (us : List Use)
    (h : ∀ u ∈ us, ∃ n, Q u n) : ∃ n, ∀ u ∈ us, Q u n := by
  induction us with
  | nil => exact ⟨0, nofun⟩
  | cons u us ih =>
    rw [forall_mem_cons] at h
    obtain ⟨m, hm⟩ := h.1
    obtain ⟨n, hn⟩ := ih h.2
    exact ⟨max m n, forall_mem_cons.2
      ⟨hmono _ _ _ (le_max_left m n) hm, fun v hv => hmono _ _ _ (le_max_right m n) (hn v hv)⟩⟩

lemma Served.mono {m n : Nat} (hmn : m ≤ n) (h : u.Served (s.resolve m) R) :
    u.Served (s.resolve n) R := by
  cases u with
  | column | answer => exact h
  | item t i =>
    obtain ⟨r, hr, hR⟩ := Ensures.exists_eq_ok h
    exact .of_eq_ok (s.resolve_mono hmn hr) hR

section Reduce

variable (hn : s.keys.Nodup) (hR : ∀ x ∈ R, x.tag ∉ s.keys)
include hn hR

lemma Leads.served (h : s.Leads R u) : ∃ m, u.Served (s.resolve m) R := by
  induction h with
  | @offered u x hx hu =>
    refine ⟨0, ?_⟩
    cases u with
    | column | answer => exact ⟨x, hx, hu⟩
    | item t i =>
      have htag : x.tag = t := Export.tag_eq_of_offers hu
      have hnone : s.lookup t = none := lookup_eq_none_of_not_mem_keys (htag ▸ hR x hx)
      refine Ensures.of_eq_ok (a := none) ?_ ⟨x, hx, hu⟩
      rw [resolve, hnone]
      rfl
  | @gone t i select p hs hp _ ih =>
    obtain ⟨m, hm⟩ := exists_depth (Q := fun u m => u.Served (s.resolve m) R)
      (fun u m n hmn h => Served.mono hmn h) p.uses ih
    obtain ⟨q, hq, hwithin⟩ := (ensures_reduceWith hm).exists_eq_ok
    exact ⟨m + 1, .of_eq_ok (resolve_succ (lookup_eq_some_of_mem hn hs) hp hq) hwithin⟩

lemma Reaches.reduce (h : s.Reaches R p) : Ensures (Within R) (s.reduce p) := by
  refine ensures_reduceWith fun u hu => ?_
  obtain ⟨m, hm⟩ := (h u hu).served hn hR
  cases u with
  | column | answer => exact hm
  | item t i =>
    obtain ⟨r, hr, hserved⟩ := Ensures.exists_eq_ok hm
    obtain ⟨r', hr'⟩ := exists_resolve_count_eq_ok hr
    have hsame : r' = r := by
      have h₁ := s.resolve_mono (le_max_left m s.count) hr
      have h₂ := s.resolve_mono (le_max_right m s.count) hr'
      exact Except.ok.inj (h₂.symm.trans h₁)
    exact .of_eq_ok hr' (hsame ▸ hserved)

end Reduce

end Substitutes

open Clauses Substitutes

variable {p : Phrase} {x : Export} {first : Anchor Frame}

namespace Frame

structure Convention where
  offer : Frame → Reach
  joins : Frame → Prop

def answers (embedded : List Frame) : Reach := embedded.map fun f => .answer f.tag

def view (offer : Frame → Reach) (anchors : List (Anchor Frame)) (embedded : List Frame) : Reach :=
  anchors.flatMap (fun a => offer a.frame) ++ answers embedded

/-- The phrases of a frame have a property with regard to what they see. Select lists are not empty and
the first joined frame has no condition. -/
inductive ClosedBy (k : Convention) (P : Reach → Phrase → Prop) : Reach → Frame → Prop
  | scalar {R : Reach} {t : Tag} : ClosedBy k P R (.scalar t)
  | table {R : Reach} {n : Tag} {t : Table} : ClosedBy k P R (.table n t)
  | query {R : Reach} {c : Clauses} {anchors : List (Anchor Frame)} {embedded : List Frame}
    (hselect : c.select ≠ [])
    (hfirst : ∀ a ∈ anchors.head?, a.condition = none)
    (hjoins : ∀ a ∈ anchors, k.joins a.frame)
    (hphrases : ∀ p ∈ c.phrases, P (view k.offer anchors embedded ++ R) p)
    (hconditions : ∀ a ∈ anchors, ∀ p ∈ a.condition, P (view k.offer anchors embedded ++ R) p)
    (hanchors : ∀ a ∈ anchors, a.frame.ClosedBy k P (answers embedded ++ R))
    (hembedded : ∀ f ∈ embedded, f.ClosedBy k P (view k.offer anchors embedded ++ R)) :
    ClosedBy k P R (.query c anchors embedded)

/-- A table offers its columns and a query its select items. Whether segments are joined is left open. -/
def Convention.typical (j : Prop) : Convention := ⟨exports, fun f => f.isSegment → j⟩

abbrev Held (j : Prop) (s : Substitutes) (R : Reach) (f : Frame) : Prop :=
  f.ClosedBy (Convention.typical j) s.Reaches R

lemma held_nil_iff {j : Prop} {R : Reach} {f : Frame} :
    f.Held j [] R ↔ f.ClosedBy (.typical j) (fun R p => p.Within R) R := by
  have hwithin : Reaches [] = fun R p => p.Within R :=
    funext fun R => funext fun p => propext reaches_nil_iff
  rw [Held, hwithin]

section Transport

variable {j : Prop} {s s' : Substitutes} {R R' : Reach} {f : Frame}

/-- What was in reach leads to what is in reach now, and nothing is forgotten. -/
structure Rescopes (s : Substitutes) (R : Reach) (s' : Substitutes) (R' : Reach) : Prop where
  kept : s ⊆ s'
  leads : ∀ x ∈ R, ∀ u, x.offers u → s'.Leads R' u

lemma Rescopes.of_subset (hs : s ⊆ s') (hR : R ⊆ R') : Rescopes s R s' R' :=
  ⟨hs, fun _ hx _ hu => .offered (hR hx) hu⟩

lemma Rescopes.append (h : Rescopes s R s' R') (X : Reach) : Rescopes s (X ++ R) s' (X ++ R') where
  kept := h.kept
  leads x hx u hu := by
    obtain hx | hx := mem_append.1 hx
    · exact .offered (mem_append_left _ hx) hu
    · exact (h.leads x hx u hu).mono (List.Subset.refl _) (subset_append_right X R')

lemma Rescopes.reaches (h : Rescopes s R s' R') (hp : s.Reaches R p) : s'.Reaches R' p :=
  fun u hu => (hp u hu).transport h.kept h.leads

lemma ClosedBy.rescope (hf : f.Held j s R) (h : Rescopes s R s' R') : f.Held j s' R' := by
  induction hf generalizing R' with
  | scalar => exact .scalar
  | table => exact .table
  | query hselect hfirst hjoins hphrases hconditions _ _ iha ihe =>
    exact .query hselect hfirst hjoins (fun p hp => (h.append _).reaches (hphrases p hp))
      (fun a ha p hp => (h.append _).reaches (hconditions a ha p hp))
      (fun a ha => iha a ha (h.append _)) fun f hf => ihe f hf (h.append _)

lemma ClosedBy.mono (hf : f.Held j s R) (hs : s ⊆ s') (hR : R ⊆ R') : f.Held j s' R' :=
  hf.rescope (.of_subset hs hR)

end Transport

section Dissolving

variable {j : Prop} {s : Substitutes} {R : Reach} {c c' head : Clauses} {a : Anchor Frame}
  {before after inner inner' : List (Anchor Frame)} {deep embedded : List Frame}

lemma answers_append (fs gs : List Frame) : answers (fs ++ gs) = answers fs ++ answers gs :=
  map_append

/-- The frames in place of a joined query, with those embedded in it beside the others. -/
def merged (before inner after : List (Anchor Frame)) (deep embedded : List Frame) : Reach :=
  view exports (before ++ inner ++ after) (deep ++ embedded)

lemma view_subset_merged (hinner : inner'.map (·.frame) = inner.map (·.frame)) :
    view exports inner deep ++ (answers embedded ++ R) ⊆ merged before inner' after deep embedded ++ R := by
  have hexports : inner'.flatMap (fun a => a.frame.exports) = inner.flatMap fun a => a.frame.exports := by
    rw [← flatMap_map (f := fun a : Anchor Frame => a.frame), hinner, flatMap_map]
  intro x hx
  simp only [merged, view, answers_append, flatMap_append, mem_append, hexports] at hx ⊢
  obtain (hx | hx) | hx | hx := hx
  · exact .inl (.inl (.inl (.inr hx)))
  · exact .inl (.inr (.inl hx))
  · exact .inl (.inr (.inr hx))
  · exact .inr hx

lemma tag_mem_of_mem_view {as : List (Anchor Frame)} {fs : List Frame}
    (hx : x ∈ view exports as fs) : x.tag ∈ (query c as fs).tags := by
  obtain ⟨hjoined, hdeep⟩ := tags_subset_of_query c as fs
  obtain hx | hx := mem_append.1 hx
  · obtain ⟨a, ha, hx⟩ := mem_flatMap.1 hx
    exact (of_mem_exports hx).1 ▸ hjoined a ha a.frame.tag_mem_tags
  · obtain ⟨f, hf, rfl⟩ := mem_map.1 hx
    exact hdeep f hf f.tag_mem_tags

lemma answers_append_subset_view (as : List (Anchor Frame)) (fs : List Frame) :
    answers fs ++ R ⊆ view exports as fs ++ R :=
  append_subset.2 ⟨fun _ hx => mem_append_left _ (mem_append_right _ hx), subset_append_right _ _⟩

lemma eq_or_mem_merged (ha : a.frame = .query head inner deep)
    (hx : x ∈ view exports (before ++ a :: after) embedded ++ R) :
    x = .items head.tag head.select.length ∨ x ∈ merged before inner' after deep embedded ++ R := by
  simp only [merged, view, answers_append, flatMap_append, flatMap_cons, mem_append, ha] at hx ⊢
  obtain ((hx | hx | hx) | hx) | hx := hx
  · exact .inr (.inl (.inl (.inl (.inl hx))))
  · exact .inl (mem_singleton.1 hx)
  · exact .inr (.inl (.inl (.inr hx)))
  · exact .inr (.inl (.inr (.inr hx)))
  · exact .inr (.inr hx)

/-- Where the frames in a joined query take its place, all that was read around it or in it still leads
somewhere: references to the query lead on through its select list. -/
theorem ClosedBy.rescopes (h : (Frame.query c (before ++ a :: after) embedded).Held j s R)
    (ha : a.frame = .query head inner deep) (inner' : List (Anchor Frame))
    (hinner : inner'.map (·.frame) = inner.map (·.frame)) :
    Rescopes s (view exports (before ++ a :: after) embedded ++ R) ((head.tag, head.select) :: s)
        (merged before inner' after deep embedded ++ R) ∧
      Rescopes s (view exports inner deep ++ (answers embedded ++ R)) ((head.tag, head.select) :: s)
        (merged before inner' after deep embedded ++ R) := by
  have hinside : Rescopes s (view exports inner deep ++ (answers embedded ++ R))
      ((head.tag, head.select) :: s) (merged before inner' after deep embedded ++ R) :=
    .of_subset (subset_cons_self _ _) (view_subset_merged hinner)
  refine ⟨⟨subset_cons_self _ _, fun x hx u hu => ?_⟩, hinside⟩
  obtain rfl | hx := eq_or_mem_merged ha hx
  · cases u with
    | column | answer => cases hu
    | item t i =>
      simp only [Export.offers, Bool.and_eq_true, decide_eq_true_eq] at hu
      obtain ⟨rfl, hi⟩ := hu
      cases h with
      | query _ _ _ _ _ hanchors _ =>
        have hhead := hanchors a (mem_append_right _ mem_cons_self)
        rw [ha] at hhead
        cases hhead with
        | query _ _ _ hphrases _ _ _ =>
          refine .gone mem_cons_self (getElem?_eq_getElem hi) ?_
          exact hinside.reaches (hphrases _ (mem_phrases.2 (.inl (getElem_mem hi))))
  · exact .offered hx hu

/-- A joined query may go if the frames in it take its place. -/
theorem ClosedBy.dissolve (h : (Frame.query c (before ++ a :: after) embedded).Held j s R)
    (ha : a.frame = .query head inner deep) (inner' : List (Anchor Frame))
    (hinner : inner'.map (·.frame) = inner.map (·.frame)) (hselect : c'.select ≠ [])
    (hfirst : ∀ a ∈ (before ++ inner' ++ after).head?, a.condition = none)
    (hphrases : ∀ p ∈ c'.phrases, Reaches ((head.tag, head.select) :: s)
      (merged before inner' after deep embedded ++ R) p)
    (hconditions : ∀ a ∈ inner', ∀ p ∈ a.condition, Reaches ((head.tag, head.select) :: s)
      (merged before inner' after deep embedded ++ R) p) :
    (Frame.query c' (before ++ inner' ++ after) (deep ++ embedded)).Held j
      ((head.tag, head.select) :: s) R := by
  obtain ⟨houter, hinside⟩ := h.rescopes ha inner' hinner
  have hkept : s ⊆ (head.tag, head.select) :: s := subset_cons_self _ _
  have hanswers : answers embedded ++ R ⊆ answers (deep ++ embedded) ++ R := by
    rw [answers_append, append_assoc]
    exact subset_append_right _ _
  have hframes {P : Frame → Prop} (h : ∀ a ∈ inner, P a.frame) : ∀ a ∈ inner', P a.frame := by
    rw [← forall_mem_map (f := fun a : Anchor Frame => a.frame) (P := P), hinner]
    exact forall_mem_map.2 h
  cases h with
  | query _ _ hj _ hp hanchors he =>
    rw [forall_mem_append, forall_mem_cons] at hj hp hanchors
    obtain ⟨hbefore, hhead, hafter⟩ := hanchors
    rw [ha] at hhead
    cases hhead with
    | query _ _ hji _ _ hai hei =>
      refine .query hselect hfirst ?_ hphrases ?_ ?_ ?_
      · exact forall_mem_append.2 ⟨forall_mem_append.2 ⟨hj.1, hframes hji⟩, hj.2.2⟩
      · refine forall_mem_append.2 ⟨forall_mem_append.2 ⟨fun b hb p hpb => ?_, hconditions⟩,
          fun b hb p hpb => ?_⟩
        · exact houter.reaches (hp.1 b hb p hpb)
        · exact houter.reaches (hp.2.2 b hb p hpb)
      · refine forall_mem_append.2 ⟨forall_mem_append.2 ⟨fun b hb => ?_, hframes fun b hb => ?_⟩,
          fun b hb => ?_⟩
        · exact (hbefore b hb).mono hkept hanswers
        · refine (hai b hb).mono hkept ?_
          rw [answers_append, append_assoc]
          exact List.Subset.refl _
        · exact (hafter b hb).mono hkept hanswers
      · exact forall_mem_append.2
          ⟨fun f hf => (hei f hf).rescope hinside, fun f hf => (he f hf).rescope houter⟩

end Dissolving

section Phrases

variable {P : Phrase → Prop} {c head : Clauses}

lemma forall_conjoin {p q : Option Phrase} (hp : ∀ a ∈ p, P a) (hq : ∀ a ∈ q, P a)
    (hboth : ∀ a b d n f, P a → P b → P (.formula d n f [a, b])) : ∀ a ∈ conjoin p q, P a := by
  unfold conjoin
  split
  next => exact hq
  next => exact hp
  next a b =>
    intro r hr
    obtain rfl := Option.mem_some.1 hr
    exact hboth a b _ _ _ (hp a rfl) (hq b rfl)

lemma forall_mergeClauses (hc : ∀ p ∈ c.phrases, P p) (hh : ∀ p ∈ head.phrases, P p)
    (hboth : ∀ a b d n f, P a → P b → P (.formula d n f [a, b])) :
    ∀ p ∈ (mergeClauses c head).phrases, P p := by
  obtain ⟨hselect, hfilter, hgroup, hhaving, horder⟩ := forall_mem_phrases.1 hc
  obtain ⟨_, hfilter', hgroup', _, horder'⟩ := forall_mem_phrases.1 hh
  rw [mergeClauses_eq]
  refine forall_mem_phrases.2 ⟨hselect, ?_, ?_, ?_, ?_⟩ <;> dsimp only <;> split
  · exact forall_conjoin hfilter' hfilter hboth
  · exact hfilter'
  · exact hgroup
  · exact hgroup'
  · exact hhaving
  · exact hfilter
  · exact horder'
  · exact horder

lemma reaches_pair {s : Substitutes} {R : Reach} (a b : Phrase) (d : Domain) (n : Bool) (f : Operator)
    (ha : s.Reaches R a) (hb : s.Reaches R b) : s.Reaches R (.formula d n f [a, b]) :=
  reaches_formula_iff.2 (forall_mem_cons.2 ⟨ha, forall_mem_singleton.2 hb⟩)

end Phrases

section Faces

def fields? : Frame → Option (Role × List Nat)
  | query c _ _ => some (c.role, c.outputs)
  | _ => none

def face (f : Frame) : Tag × Reach × Option (Role × List Nat) := (f.tag, f.exports, f.fields?)

variable {f g : Frame}

lemma isSegment_eq_fields (f : Frame) : f.isSegment = f.fields?.any (·.1 = .segment) := by
  cases f <;> rfl

lemma face_mergeClauses {c head : Clauses} {as bs : List (Anchor Frame)} {fs gs : List Frame} :
    (query (mergeClauses c head) as fs).face = (query c bs gs).face := by
  rw [mergeClauses_eq]
  rfl

lemma count_tags_query {c : Clauses} {anchors : List (Anchor Frame)} {embedded : List Frame} (t : Tag) :
    (query c anchors embedded).tags.count t = [c.tag].count t +
      ((anchors.flatMap (·.frame.tags)).count t + (embedded.flatMap tags).count t) := by
  rw [tags, anchorTags_eq, allTags_eq, ← singleton_append, count_append, count_append]

end Faces

def isRow : Export → Bool
  | .columns _ | .items _ _ => true
  | .answer _ => false

structure Collapsed (j : Prop) (R : Reach) (f g : Frame) (s : Substitutes) : Prop where
  held : g.Held j s R
  tags : ∀ t, s.keys.count t + g.tags.count t ≤ f.tags.count t
  face : g.face = f.face

section Absorbing

variable {j : Prop} {R : Reach} {f : Frame} {s : Substitutes} {c head : Clauses}
  {inner rest : List (Anchor Frame)} {deep embedded : List Frame} {condition : Option Phrase}
  {left right : Bool}

/-- An item of the first joined frame that can be reached is one that it selects. -/
theorem lt_of_leads {i : Nat} (hkeys : head.tag ∉ s.keys) (hrest : ∀ a ∈ rest, a.frame.tag ≠ head.tag)
    (hR : ∀ x ∈ R, isRow x → x.tag ≠ head.tag) (h : s.Leads
      (view exports (⟨.query head inner deep, condition, left, right⟩ :: rest) embedded ++ R)
      (.item head.tag i)) : i < head.select.length := by
  cases h with
  | gone hs => exact absurd (mem_map_of_mem hs) hkeys
  | @offered _ x hx hu =>
    have htag := Export.tag_eq_of_offers hu
    simp only [view, flatMap_cons, mem_append, mem_flatMap, answers, mem_map] at hx
    obtain ((hx | ⟨a, ha, hx⟩) | ⟨g, _, rfl⟩) | hx := hx
    · obtain rfl := mem_singleton.1 hx
      simp only [Export.offers, Bool.and_eq_true, decide_eq_true_eq] at hu
      exact hu.2
    · exact absurd ((of_mem_exports hx).1.symm.trans htag) (hrest a ha)
    · cases hu
    · cases x with
      | columns | answer => cases hu
      | items t n => exact absurd htag (hR _ hx rfl)

variable (hn : f.tags.Nodup) (hR : ∀ x ∈ R, isRow x → x.tag ∉ f.tags)
include hn hR

lemma Collapsed.absorbs
    (h : Collapsed j R f (query c (⟨.query head inner deep, condition, left, right⟩ :: rest) embedded) s) :
    ∃ b, absorbs ⟨c, ⟨.query head inner deep, condition, left, right⟩ :: rest, embedded⟩ head inner rest =
      .ok b ∧ (b → inner = [] → rest = []) := by
  have hcount := fun t => (h.tags t).trans (nodup_iff_count_le_one.1 hn t)
  have htags := h.tags head.tag
  have hhead := hcount head.tag
  have hone : 0 < [head.tag].count head.tag := count_pos_iff.2 mem_cons_self
  rw [count_tags_query, flatMap_cons, count_append, count_tags_query] at htags hhead
  have hkeys : head.tag ∉ s.keys := fun hmem => by
    have := count_pos_iff.2 hmem
    omega
  have hrest : ∀ a ∈ rest, a.frame.tag ≠ head.tag := fun a ha heq => by
    have : 0 < (rest.flatMap (·.frame.tags)).count head.tag :=
      count_pos_iff.2 (mem_flatMap.2 ⟨a, ha, heq ▸ a.frame.tag_mem_tags⟩)
    omega
  have hself : head.tag ∈ f.tags := count_pos_iff.1 (by omega)
  cases h.held with
  | query _ _ _ hphrases _ _ _ =>
    obtain ⟨_, _, _, _, horder⟩ := forall_mem_phrases.1 hphrases
    have hinline : ∀ i ∈ c.order, ∃ q, i.1.inline head.tag head.select = .ok q :=
      fun i hi => exists_inline_eq_ok i.1 fun k hk => lt_of_leads hkeys hrest
        (fun x hx hrow heq => hR x hx hrow (heq ▸ hself)) (horder i hi _ hk)
    obtain ⟨b, hb, habsorbable⟩ := exists_absorbs_eq_ok
      (p := ⟨c, ⟨.query head inner deep, condition, left, right⟩ :: rest, embedded⟩) inner rest hinline
    exact ⟨b, hb, fun htrue => (habsorbable htrue).nonempty⟩

lemma Collapsed.absorbHead {p : Parts} (h : Collapsed j R f p.frame s) :
    Ensures (Absorption.Holds (Collapsed j R f) s) (absorbHead p) := by
  obtain ⟨c, anchors, embedded⟩ := p
  unfold Frame.absorbHead
  rcases anchors with _ | ⟨⟨t | _ | ⟨head, inner, deep⟩, condition, left, right⟩, rest⟩
  case nil | cons.table => exact h
  case cons.scalar =>
    rcases rest with _ | ⟨next, more⟩
    case nil =>
      refine ⟨?_, fun u => ?_, h.face⟩
      · cases h.held with
        | query hselect _ _ hphrases _ _ he =>
          exact .query hselect (by rintro _ ⟨⟩) (forall_mem_nil _) hphrases (forall_mem_nil _)
            (forall_mem_nil _) he
      · have htags := h.tags u
        simp only [Parts.frame, count_tags_query, flatMap_cons, count_append,
          flatMap_nil, count_nil] at htags ⊢
        omega
    case cons =>
      dsimp only
      split
      · exact h
      refine ⟨?_, fun u => ?_, h.face⟩
      · cases h.held with
        | query hselect _ hj hphrases hp ha he =>
          rw [forall_mem_cons, forall_mem_cons] at hj hp ha
          refine .query hselect ?_ (forall_mem_cons.2 hj.2) ?_ ?_ (forall_mem_cons.2 ha.2) he
          · exact fun a ha => Option.some.inj ha ▸ rfl
          · obtain ⟨hselect, hfilter, hrest⟩ := forall_mem_phrases.1 hphrases
            exact forall_mem_phrases.2 ⟨hselect, forall_conjoin hfilter hp.2.1 reaches_pair, hrest⟩
          · exact forall_mem_cons.2 ⟨by rintro _ ⟨⟩, hp.2.2⟩
      · have htags := h.tags u
        simp only [Parts.frame, count_tags_query, flatMap_cons, count_append] at htags ⊢
        simp only [nil_append]
        omega
  case cons.query =>
    obtain ⟨b, hb, hempty⟩ := h.absorbs hn hR
    dsimp only
    rw [hb]
    cases b with
    | false => exact h
    | true =>
      refine ⟨?_, fun u => ?_, face_mergeClauses.trans h.face⟩
      · have hquery : (Frame.query c ([] ++ ⟨.query head inner deep, condition, left, right⟩ :: rest)
            embedded).Held j s R := h.held
        obtain ⟨houter, hinside⟩ := hquery.rescopes rfl inner rfl
        have hparts := hquery
        cases hparts with
        | query hselect _ _ hphrases _ hanchors _ =>
          cases hanchors _ mem_cons_self with
          | query _ hfirst _ hhead hconditions _ _ =>
            refine hquery.dissolve rfl inner rfl ?_ ?_ ?_ fun a ha p hp => ?_
            · rwa [mergeClauses_eq]
            · intro a ha
              cases inner with
              | nil =>
                rw [hempty rfl rfl] at ha
                cases ha
              | cons b bs => exact hfirst a ha
            · exact forall_mergeClauses (fun p hp => houter.reaches (hphrases p hp))
                (fun p hp => hinside.reaches (hhead p hp)) reaches_pair
            · exact hinside.reaches (hconditions a ha p hp)
      · have htags := h.tags u
        simp only [Parts.frame, count_tags_query, flatMap_cons, flatMap_append,
          count_append, Substitutes.keys, map_append, map_cons, map_nil] at htags ⊢
        rw [mergeClauses_eq]
        simp only [count_cons] at htags ⊢
        omega

end Absorbing

section Unwrapping

variable {j : Prop} {R : Reach} {s : Substitutes} {c : Clauses} {embedded : List Frame}

/-- Joined queries that only select from a table may go, if they are not the first. -/
theorem ClosedBy.unwrapAnchors {as : List (Anchor Frame)}
    (before : List (Anchor Frame)) (h : (Frame.query c (first :: before ++ as) embedded).Held j s R) :
    (Frame.query c (first :: before ++ (unwrapAnchors as).1) embedded).Held j
      ((unwrapAnchors as).2 ++ s) R := by
  induction as generalizing before with
  | nil => exact h
  | cons a as ih =>
    have hquery : (Frame.query c (first :: before ++ a :: (Frame.unwrapAnchors as).1) embedded).Held j
        ((Frame.unwrapAnchors as).2 ++ s) R := by
      simpa using ih (before ++ [a]) (by simpa using h)
    simp only [Frame.unwrapAnchors]
    split
    next g entry hunwrapped =>
      obtain ⟨head, n, t, _, _, _, ha, rfl, htag, hlist, -⟩ := unwrapped?_eq_some hunwrapped
      obtain rfl : entry = (head.tag, head.select) := Prod.ext htag hlist
      let b : Anchor Frame := { a with frame := .table n t }
      obtain ⟨houter, -⟩ := hquery.rescopes ha [b] rfl
      have hparts := hquery
      cases hparts with
      | query hselect hfirst _ hphrases hconditions _ _ =>
        have hdissolved := hquery.dissolve ha [b] rfl hselect hfirst
          (fun p hp => houter.reaches (hphrases p hp)) (forall_mem_singleton.2 fun p hp =>
            houter.reaches (hconditions a (mem_append_right _ mem_cons_self) p hp))
        rw [append_assoc] at hdissolved
        refine hdissolved.mono (cons_subset.2 ⟨?_, ?_⟩) (List.Subset.refl R)
        · simp
        · exact append_subset.2 ⟨by simp, subset_append_right _ _⟩
    next => exact hquery

lemma count_tags_unwrapAnchors (as : List (Anchor Frame)) (t : Tag) :
    (unwrapAnchors as).2.keys.count t + ((unwrapAnchors as).1.flatMap (·.frame.tags)).count t ≤
      (as.flatMap (·.frame.tags)).count t := by
  induction as with
  | nil => exact Nat.le_refl _
  | cons a as ih =>
    simp only [unwrapAnchors]
    split
    next g entry hunwrapped =>
      obtain ⟨head, n, t', _, _, _, hframe, rfl, htag, -⟩ := unwrapped?_eq_some hunwrapped
      simp only [flatMap_cons, hframe, Substitutes.keys, map_append, map_cons, map_nil,
        count_append, count_tags_query, flatMap_nil, count_nil, htag] at ih ⊢
      omega
    next =>
      simp only [flatMap_cons, count_append]
      omega

end Unwrapping

section Collapsing

variable {j : Prop} {R : Reach} {f g : Frame} {fs gs : List Frame} {as bs : List (Anchor Frame)}
  {c : Clauses}
  {s s' s₀ : Substitutes}

lemma Collapsed.unwrapAnchors (h : Collapsed j R f (.query c (first :: as) fs) s) :
    Collapsed j R f (.query c (first :: (unwrapAnchors as).1) fs) ((unwrapAnchors as).2 ++ s) := by
  have hheld : (Frame.query c (first :: [] ++ as) fs).Held j s R := h.held
  refine ⟨hheld.unwrapAnchors [], fun t => ?_, h.face⟩
  have htags := h.tags t
  have hrest := count_tags_unwrapAnchors as t
  simp only [count_tags_query, flatMap_cons, count_append, Substitutes.keys, map_append] at htags hrest ⊢
  omega

/-- Frames in the places of others, with the select lists of the frames that went. -/
structure CollapsedAll (j : Prop) (R : Reach) (fs gs : List Frame) (s : Substitutes) : Prop where
  held : ∀ g ∈ gs, g.Held j s R
  tags : ∀ t, s.keys.count t + (gs.flatMap tags).count t ≤ (fs.flatMap tags).count t
  faces : gs.map face = fs.map face

lemma Gathered.collapsedAll (h : Gathered (Collapsed j R) fs gs s) : CollapsedAll j R fs gs s := by
  induction h with
  | nil => exact ⟨nofun, fun _ => Nat.le_refl _, rfl⟩
  | cons hf _ ih =>
    refine ⟨forall_mem_cons.2 ⟨hf.held.mono (subset_append_right _ _) (List.Subset.refl R),
      fun k hk => (ih.held k hk).mono (subset_append_left _ _) (List.Subset.refl R)⟩, fun t => ?_, ?_⟩
    · have hhead := hf.tags t
      have htail := ih.tags t
      simp only [flatMap_cons, count_append, Substitutes.keys, map_append] at hhead htail ⊢
      omega
    · rw [map_cons, map_cons, hf.face, ih.faces]

lemma view_eq_faces (as : List (Anchor Frame)) (fs : List Frame) : view exports as fs =
    ((as.map (·.frame)).map face).flatMap (·.2.1) ++ (fs.map face).map fun x => .answer x.1 := by
  rw [flatMap_map, flatMap_map, map_map]
  rfl

lemma answers_eq_faces (fs : List Frame) : answers fs = (fs.map face).map fun x => .answer x.1 := by
  rw [map_map]
  rfl

lemma joins_of_faces (h : (bs.map (·.frame)).map face = (as.map (·.frame)).map face)
    (ha : ∀ a ∈ as, (Convention.typical j).joins a.frame) :
    ∀ b ∈ bs, (Convention.typical j).joins b.frame := by
  have hfaces : ∀ x ∈ (as.map (·.frame)).map face, x.2.2.any (·.1 = .segment) → j := by
    simpa [← isSegment_eq_fields, face, Convention.typical] using ha
  rw [← h] at hfaces
  simpa [← isSegment_eq_fields, face, Convention.typical] using hfaces

lemma ClosedBy.collapsed (h : (Frame.query c as fs).Held j [] R)
    (ha : CollapsedAll j (answers fs ++ R) (as.map (·.frame)) (bs.map (·.frame)) s)
    (hc : bs.map (·.condition) = as.map (·.condition))
    (he : CollapsedAll j (view exports as fs ++ R) fs gs s') :
    Collapsed j R (.query c as fs) (.query c bs gs) (s' ++ s) := by
  have hview : view exports bs gs = view exports as fs := by
    rw [view_eq_faces, view_eq_faces, ha.faces, he.faces]
  have hanswers : answers gs = answers fs := by rw [answers_eq_faces, answers_eq_faces, he.faces]
  refine ⟨?_, fun t => ?_, rfl⟩
  · cases h with
    | query hselect hfirst hj hphrases hconditions _ _ =>
      have hkept : Rescopes [] (view exports as fs ++ R) (s' ++ s) (view exports bs gs ++ R) := by
        rw [hview]
        exact .of_subset (nil_subset _) (List.Subset.refl _)
      refine .query hselect ?_ ?_ (fun p hp => hkept.reaches (hphrases p hp)) ?_ ?_ ?_
      · have hnone : ∀ o ∈ (as.map (·.condition)).head?, o = none := by simpa [head?_map] using hfirst
        rw [← hc] at hnone
        simpa [head?_map] using hnone
      · exact joins_of_faces ha.faces hj
      · exact forall_conditions hc fun a ha p hp => hkept.reaches (hconditions a ha p hp)
      · rw [hanswers]
        exact fun b hb => (ha.held _ (mem_map_of_mem hb)).mono (subset_append_right _ _)
          (List.Subset.refl _)
      · rw [show view (Convention.typical j).offer bs gs = _ from hview]
        exact fun g hg => (he.held g hg).mono (subset_append_left _ _) (List.Subset.refl _)
  · have hat := ha.tags t
    have het := he.tags t
    rw [flatMap_map, flatMap_map] at hat
    simp only [count_tags_query, Substitutes.keys, map_append, count_append] at hat het ⊢
    omega

/-- Collapsing returns, and references to the frames that went lead on through their select lists. -/
theorem ClosedBy.collapse (h : f.Held j [] R) (hn : f.tags.Nodup)
    (hR : ∀ x ∈ R, isRow x → x.tag ∉ f.tags) : Ensures (Recorded (Collapsed j R f) s) (f.collapse s) := by
  induction f generalizing R s with
  | scalar | table => exact ⟨[], rfl, h, fun _ => by simp [Substitutes.keys], rfl⟩
  | query c as fs iha ihe =>
    have hparts := h
    cases hparts with
    | query _ _ _ _ _ ha he =>
      obtain ⟨hanchors, hembedded⟩ := nodup_tags_of_query hn
      obtain ⟨hjoined, hdeep⟩ := tags_subset_of_query c as fs
      refine (ensures_collapseAnchors (I := Collapsed j (answers fs ++ R))
        fun a hmem s => ?_).run_bind fun bs m hbs => ?_
      · refine iha a hmem (ha a hmem) (hanchors a hmem) fun x hx hrow htag => ?_
        obtain hx | hx := mem_append.1 hx
        · obtain ⟨g, _, rfl⟩ := mem_map.1 hx
          cases hrow
        · exact hR x hx hrow (hjoined a hmem htag)
      obtain ⟨s₁, rfl, hbs⟩ : ∃ new, m = new ++ s ∧ Gathered _ as bs new := hbs
      refine (ensures_collapseAll (I := Collapsed j (view exports as fs ++ R))
        fun f hmem s => ?_).run_bind fun gs m hgs => ?_
      · refine ihe f hmem (he f hmem) (hembedded f hmem) fun x hx hrow htag => ?_
        simp only [view, mem_append, mem_flatMap] at hx
        obtain (⟨a, hjoin, hx⟩ | hx) | hx := hx
        · exact disjoint_tags_of_query hn hjoin hmem ((of_mem_exports hx).1 ▸ a.frame.tag_mem_tags) htag
        · obtain ⟨g, _, rfl⟩ := mem_map.1 hx
          cases hrow
        · exact hR x hx hrow (hdeep f hmem htag)
      obtain ⟨s₂, rfl, hgs⟩ : ∃ new, m = new ++ (s₁ ++ s) ∧ Gathered _ fs gs new := hgs
      have hquery := h.collapsed hbs.frames.collapsedAll hbs.conditions hgs.collapsedAll
      rw [← append_assoc]
      exact ensures_collapseParts (P := Collapsed j R (.query c as fs)) (p := ⟨c, bs, gs⟩)
        (Collapsed.absorbHead hn hR) Collapsed.unwrapAnchors hquery

end Collapsing

section Reducing

variable {j : Prop} {R : Reach} {f : Frame} {fs : List Frame} {as : List (Anchor Frame)} {c : Clauses}
  {s : Substitutes}

structure Reduced (j : Prop) (R : Reach) (f g : Frame) : Prop where
  held : g.Held j [] R
  tags : g.tags = f.tags
  face : g.face = f.face

lemma ClosedBy.reduceFrame (hf : f.Held j s R) (hn : s.keys.Nodup) (htags : ∀ t ∈ f.tags, t ∉ s.keys)
    (hR : ∀ x ∈ R, x.tag ∉ s.keys) : Ensures (Reduced j R f) (reduceFrame s f) := by
  induction hf with
  | scalar => exact ⟨.scalar, rfl, rfl⟩
  | table => exact ⟨.table, rfl, rfl⟩
  | @query R c as fs hselect hfirst hjoins hphrases hconditions ha he iha ihe =>
    have hview : ∀ x ∈ view exports as fs ++ R, x.tag ∉ s.keys :=
      forall_mem_append.2 ⟨fun x hx => htags _ (tag_mem_of_mem_view hx), hR⟩
    have hanswers : ∀ x ∈ answers fs ++ R, x.tag ∉ s.keys :=
      fun x hx => hview x (answers_append_subset_view as fs hx)
    obtain ⟨hjoined, hdeep⟩ := tags_subset_of_query c as fs
    have hreduce {p : Phrase} (hp : s.Reaches (view exports as fs ++ R) p) :
        Ensures (Within (view exports as fs ++ R)) (s.reduce p) := hp.reduce hn hview
    refine (ensures_reduceAnchors (Q := fun _ q => q.Within _) (fun a hmem => iha a hmem ?_ hanswers)
      fun a hmem p hp => hreduce (hconditions a hmem p hp)).bind fun bs hbs => ?_
    · exact fun t ht => htags t (hjoined a hmem ht)
    refine (ensures_reduceAll fun f hmem => ihe f hmem ?_ hview).bind fun gs hgs => ?_
    · exact fun t ht => htags t (hdeep f hmem ht)
    refine (ensures_reduceClauses (Q := fun _ q => q.Within _) fun p hp => hreduce (hphrases p hp)).bind
      fun d hd => .pure ⟨?_, ?_, ?_⟩
    · have hfaces : (bs.map (·.frame)).map face = (as.map (·.frame)).map face := by
        rw [map_map, map_map]
        exact (map_eq_map_of_forall₂ hbs fun _ _ h => h.1.face.symm).symm
      have hall : gs.map face = fs.map face := (map_eq_map_of_forall₂ hgs fun _ _ h => h.face.symm).symm
      have hview : view exports bs gs = view exports as fs := by
        rw [view_eq_faces, view_eq_faces, hfaces, hall]
      have hanswers : answers gs = answers fs := by rw [answers_eq_faces, answers_eq_faces, hall]
      refine .query ?_ ?_ (joins_of_faces hfaces hjoins) ?_ ?_ ?_ ?_
      · exact fun hnil => hselect (forall₂_nil_right_iff.1 (hnil ▸ hd.select))
      · cases hbs with
        | nil => exact nofun
        | cons hb _ =>
          intro b hmem
          obtain rfl := Option.some.inj hmem
          refine Option.eq_none_iff_forall_not_mem.2 fun q hq => ?_
          obtain ⟨p, hp, _⟩ := hb.2 q hq
          rw [hfirst _ rfl] at hp
          cases hp
      all_goals simp only [Convention.typical, hview, hanswers, reaches_nil_iff]
      · exact hd.forall_mem_phrases fun _ _ hq => hq
      · exact forall_mem_of_forall₂ hbs fun _ _ h q hq => (h.2 q hq).elim fun _ hq => hq.2
      · exact forall_mem_of_forall₂ hbs fun _ _ h => h.1.held
      · exact forall_mem_of_forall₂ hgs fun _ _ h => h.held
    · have hanchors := map_eq_map_of_forall₂ hbs fun _ _ h => h.1.tags.symm
      have hembedded := map_eq_map_of_forall₂ hgs fun _ _ h => h.tags.symm
      rw [tags, tags, anchorTags_eq, anchorTags_eq, allTags_eq, allTags_eq, hd.tag, flatMap_def,
        flatMap_def, flatMap_def, flatMap_def, hanchors, hembedded]
    · rw [face, face, fields?, fields?, exports, exports, hd.role, hd.outputs, hd.select.length_eq, hd.tag]
      exact congrArg (·, _) hd.tag

lemma ClosedBy.reduced (h : f.Held j [] []) (hn : f.tags.Nodup) : ∃ k s g,
    f.collapse.run [] = .ok (k, s) ∧ f.reduced = .ok g ∧ g.Held j [] [] ∧ g.face = f.face ∧ g.tags.Nodup ∧
      ∀ t ∈ s.keys, t ∉ g.tags := by
  obtain ⟨⟨k, _⟩, hrun, s, rfl, hk⟩ := (h.collapse (s := []) hn nofun).exists_eq_ok
  rw [append_nil] at hrun
  change f.collapse.run [] = _ at hrun
  have hcount (t : Tag) : s.keys.count t + k.tags.count t ≤ 1 :=
    (hk.tags t).trans (nodup_iff_count_le_one.1 hn t)
  have hkeys : s.keys.Nodup := nodup_iff_count_le_one.2 fun t => (Nat.le_add_right _ _).trans (hcount t)
  have htags : k.tags.Nodup := nodup_iff_count_le_one.2 fun t => (Nat.le_add_left _ _).trans (hcount t)
  have hdisjoint : ∀ t ∈ k.tags, t ∉ s.keys := fun t ht hs => by
    have := hcount t
    have := count_pos_iff.2 ht
    have := count_pos_iff.2 hs
    omega
  obtain ⟨g, hg, hreduced⟩ := (hk.held.reduceFrame hkeys hdisjoint nofun).exists_eq_ok
  refine ⟨k, s, g, hrun, ?_, hreduced.held, hreduced.face.trans hk.face, hreduced.tags ▸ htags, ?_⟩
  · rw [Frame.reduced, hrun]
    exact hg
  · rw [hreduced.tags]
    exact fun t hs ht => hdisjoint t ht hs

lemma ClosedBy.tag_mem {u : Use} (hf : f.Held j [] R) (hp : p ∈ f.phrases) (hu : u ∈ p.uses) :
    u.tag ∈ f.tags ∨ u.tag ∈ R.map Export.tag := by
  induction hf with
  | scalar | table => cases hp
  | @query R c as fs _ _ _ hphrases hconditions _ _ iha ihe =>
    have hview (h : u.tag ∈ (view exports as fs ++ R).map Export.tag) :
        u.tag ∈ (Frame.query c as fs).tags ∨ u.tag ∈ R.map Export.tag := by
      rw [map_append, mem_append] at h
      refine h.imp_left fun h => ?_
      obtain ⟨x, hx, heq⟩ := mem_map.1 h
      exact heq ▸ tag_mem_of_mem_view hx
    have hseen {R : Reach} (h : Reaches [] R p) : u.tag ∈ R.map Export.tag := by
      obtain ⟨x, hx, ho⟩ := reaches_nil_iff.1 h u hu
      exact mem_map.2 ⟨x, hx, Export.tag_eq_of_offers ho⟩
    obtain ⟨hjoined, hdeep⟩ := tags_subset_of_query c as fs
    obtain hp | ⟨a, ha, hp | hp⟩ | ⟨f, hf, hp⟩ := mem_phrases_query.1 hp
    · exact hview (hseen (hphrases p hp))
    · obtain htag | htag := iha a ha hp
      · exact .inl (hjoined a ha htag)
      · exact hview (map_subset _ (answers_append_subset_view as fs) htag)
    · exact hview (hseen (hconditions a ha p hp))
    · obtain htag | htag := ihe f hf hp
      · exact .inl (hdeep f hf htag)
      · exact hview htag

end Reducing

end Frame

end NavQuery
