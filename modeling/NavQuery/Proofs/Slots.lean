import NavQuery.Proofs.FrameRows
import NavQuery.Proofs.Markers

/-!
The slots of a frame are its parameters, in the order of the text or in the order in which they are
written; the two differ in membership tests only. `instantiate` puts literals in place of the parameters.
-/

namespace NavQuery

open List Statement

variable {as : List (Anchor Frame)} {fs : List Frame} {f : Frame}

/-- A statement is read from left to right; when it is written, the items of a membership test come before
its left operand. -/
inductive Pass
  | reading
  | writing

def Operator.written {α : Type} (f : Operator) (pass : Pass) (xs : List α) : List α :=
  match f.kind, pass with
  | .toPredicate, _ | .fromPredicate, _ | .isNull, _ | .not, _ | .negate, _ | .exists, _ => xs.take 1
  | .isEqual, _ | .isTotallyEqual, _ | .compare, _ | .add, _ | .subtract, _ | .multiply, _ | .divide, _
  | .concat, _ | .like, _ => xs.take 2
  | .isIn, .writing => xs.drop 1 ++ xs.take 1
  | _, _ => xs

namespace Phrase

mutual

def slots (pass : Pass) (embed : Tag → List Slot) : Phrase → List Slot
  | parameter d n => [⟨d, n⟩]
  | cast _ _ p => slots pass embed p
  | formula _ _ f as => (f.written pass (slotsEach pass embed as)).flatten
  | embedding _ t => embed t
  | _ => []

def slotsEach (pass : Pass) (embed : Tag → List Slot) : List Phrase → List (List Slot)
  | [] => []
  | p :: ps => slots pass embed p :: slotsEach pass embed ps

end

lemma slotsEach_eq (pass : Pass) (embed : Tag → List Slot) (ps : List Phrase) :
    slotsEach pass embed ps = ps.map (slots pass embed) := eq_map_of_cons ps rfl fun _ _ => rfl

mutual

def instantiate (σ : Slot → Value) : Phrase → Phrase
  | parameter d n => ofValue d (σ ⟨d, n⟩)
  | cast d n p => cast d n (instantiate σ p)
  | formula d n f as => formula d n f (instantiateAll σ as)
  | p => p

def instantiateAll (σ : Slot → Value) : List Phrase → List Phrase
  | [] => []
  | p :: ps => instantiate σ p :: instantiateAll σ ps

end

lemma instantiateAll_eq (σ : Slot → Value) (ps : List Phrase) :
    instantiateAll σ ps = ps.map (instantiate σ) := eq_map_of_cons ps rfl fun _ _ => rfl

mutual

/-- Whether the symbols of comparisons have nothing in common with markers and quotes. -/
def isSpelled : Phrase → Bool
  | cast _ _ p => isSpelled p
  | formula _ _ f as => (f.kind != .compare || f.symbol.all isQuiet) && areSpelled as
  | _ => true

def areSpelled : List Phrase → Bool
  | [] => true
  | p :: ps => isSpelled p && areSpelled ps

end

lemma areSpelled_eq (ps : List Phrase) : areSpelled ps = ps.all isSpelled :=
  eq_all_of_cons ps rfl fun _ _ => rfl

end Phrase

namespace Clauses

def mapPhrases (g : Phrase → Phrase) (c : Clauses) : Clauses :=
  { c with
    select := c.select.map g
    filter := c.filter.map g
    group := c.group.map g
    having := c.having.map g
    order := c.order.map fun i => (g i.1, i.2) }

def phrases (c : Clauses) : List Phrase :=
  c.select ++ c.filter.toList ++ c.group ++ c.having.toList ++ c.order.map (·.1)

def slots (P : Phrase → List Slot) (c : Clauses) : List Slot :=
  c.filter.toList.flatMap P ++ c.group.flatMap P ++ c.having.toList.flatMap P ++
    c.order.flatMap fun i => P i.1

end Clauses

namespace Frame

mutual

def mapPhrases (g : Phrase → Phrase) : Frame → Frame
  | scalar t => scalar t
  | table n t => table n t
  | query c anchors embedded => query (c.mapPhrases g) (mapAnchors g anchors) (mapAll g embedded)

def mapAnchors (g : Phrase → Phrase) : List (Anchor Frame) → List (Anchor Frame)
  | [] => []
  | a :: as => mapAnchor g a :: mapAnchors g as

def mapAnchor (g : Phrase → Phrase) : Anchor Frame → Anchor Frame
  | ⟨f, condition, left, right⟩ => ⟨mapPhrases g f, condition.map g, left, right⟩

def mapAll (g : Phrase → Phrase) : List Frame → List Frame
  | [] => []
  | f :: fs => mapPhrases g f :: mapAll g fs

end

def instantiate (σ : Slot → Value) : Frame → Frame := mapPhrases (Phrase.instantiate σ)

mutual

def phrases : Frame → List Phrase
  | scalar _ | table _ _ => []
  | query c anchors embedded => c.phrases ++ anchorPhrases anchors ++ allPhrases embedded

def anchorPhrases : List (Anchor Frame) → List Phrase
  | [] => []
  | a :: as => phrasesOfAnchor a ++ anchorPhrases as

def phrasesOfAnchor : Anchor Frame → List Phrase
  | ⟨f, condition, _, _⟩ => phrases f ++ condition.toList

def allPhrases : List Frame → List Phrase
  | [] => []
  | f :: fs => phrases f ++ allPhrases fs

end

mutual

/-- The embedded queries in a frame by their tags, the latest first. -/
def subqueries : Frame → List (Tag × Frame)
  | scalar _ | table _ _ => []
  | query _ anchors embedded => allSubqueries embedded ++ anchorSubqueries anchors

def anchorSubqueries : List (Anchor Frame) → List (Tag × Frame)
  | [] => []
  | a :: as => anchorSubqueries as ++ subqueriesOfAnchor a

def subqueriesOfAnchor : Anchor Frame → List (Tag × Frame)
  | ⟨f, _, _, _⟩ => subqueries f

def allSubqueries : List Frame → List (Tag × Frame)
  | [] => []
  | f :: fs => allSubqueries fs ++ (subqueries f ++ [(f.tag, f)])

end

mutual

/-- The slots of the SELECT of a frame. The first joined frame has no condition. -/
def slotsBy (P : Phrase → List Slot) : Frame → List Slot
  | scalar _ | table _ _ => []
  | query c anchors _ => c.select.flatMap P ++ anchorSlots P anchors true ++ c.slots P

def anchorSlots (P : Phrase → List Slot) : List (Anchor Frame) → Bool → List Slot
  | [], _ => []
  | a :: as, isFirst => slotsOfAnchor P a isFirst ++ anchorSlots P as false

def slotsOfAnchor (P : Phrase → List Slot) : Anchor Frame → Bool → List Slot
  | ⟨f, condition, _, _⟩, isFirst => slotsBy P f ++ if isFirst then [] else condition.toList.flatMap P

end

/-- The slots of the embedded query of a tag, where embedded queries nest to a depth. -/
def embeddedSlots (pass : Pass) (subqueries : List (Tag × Frame)) : Nat → Tag → List Slot
  | 0, _ => []
  | n + 1, t => (List.lookup t subqueries).elim []
      (slotsBy (Phrase.slots pass (embeddedSlots pass subqueries n)))

def slots (f : Frame) (pass : Pass) : List Slot :=
  f.slotsBy (Phrase.slots pass (embeddedSlots pass f.subqueries f.subqueries.length))

lemma anchorPhrases_eq (as : List (Anchor Frame)) :
    anchorPhrases as = as.flatMap fun a => a.frame.phrases ++ a.condition.toList := by
  induction as with
  | nil => rfl
  | cons a as ih =>
    rw [anchorPhrases, ih]
    cases a
    rfl

lemma allPhrases_eq (fs : List Frame) : allPhrases fs = fs.flatMap phrases :=
  eq_flatMap_of_cons fs rfl fun _ _ => rfl

variable {embedded : List Frame} {anchors : List (Anchor Frame)} {c : Clauses}

lemma mem_phrases_query {p : Phrase} : p ∈ (query c anchors embedded).phrases ↔ p ∈ c.phrases ∨
      (∃ a ∈ anchors, p ∈ a.frame.phrases ∨ p ∈ a.condition) ∨ ∃ f ∈ embedded, p ∈ f.phrases := by
  simp only [phrases, anchorPhrases_eq, allPhrases_eq, mem_append, mem_flatMap,
    Option.mem_toList, Option.mem_def, or_assoc]

variable {x : Tag × Frame}

lemma mem_anchorSubqueries :
    x ∈ anchorSubqueries as ↔ ∃ a ∈ as, x ∈ a.frame.subqueries := by
  induction as with
  | nil => simp [anchorSubqueries]
  | cons a as ih =>
    obtain ⟨g, condition, left, right⟩ := a
    simp only [anchorSubqueries, mem_append, ih, mem_cons, exists_eq_or_imp]
    exact or_comm

lemma mem_allSubqueries :
    x ∈ allSubqueries fs ↔ ∃ f ∈ fs, x ∈ f.subqueries ∨ x = (f.tag, f) := by
  induction fs with
  | nil => simp [allSubqueries]
  | cons f fs ih =>
    simp only [allSubqueries, mem_append, ih, mem_cons, exists_eq_or_imp, not_mem_nil, or_false]
    exact or_comm

lemma mem_subqueries_query : x ∈ (query c anchors embedded).subqueries ↔
      (∃ f ∈ embedded, x ∈ f.subqueries ∨ x = (f.tag, f)) ∨ ∃ a ∈ anchors, x ∈ a.frame.subqueries := by
  rw [subqueries, mem_append, mem_allSubqueries, mem_anchorSubqueries]

lemma phrases_subset_of_mem_subqueries (hx : x ∈ f.subqueries) : x.2.phrases ⊆ f.phrases := by
  induction f with
  | scalar | table => cases hx
  | query c anchors embedded iha ihe =>
    intro p hp
    rw [mem_phrases_query]
    rcases mem_subqueries_query.1 hx with ⟨g, hg, h | rfl⟩ | ⟨a, ha, h⟩
    · exact .inr (.inr ⟨g, hg, ihe g hg h hp⟩)
    · exact .inr (.inr ⟨g, hg, hp⟩)
    · exact .inr (.inl ⟨a, ha, .inl (iha a ha h hp)⟩)

@[simp] lemma tag_mapPhrases (g : Phrase → Phrase) (f : Frame) : (f.mapPhrases g).tag = f.tag := by
  cases f <;> rfl

@[simp] lemma isSegment_mapPhrases (g : Phrase → Phrase) (f : Frame) :
    (f.mapPhrases g).isSegment = f.isSegment := by
  cases f <;> rfl

lemma base_mapPhrases (g : Phrase → Phrase) (f : Frame) : Names.base (f.mapPhrases g) = Names.base f := by
  induction f with
  | scalar | table => rfl
  | query c anchors embedded ih _ =>
    cases anchors with
    | nil => rfl
    | cons a as =>
      obtain ⟨f, condition, left, right⟩ := a
      exact ih _ mem_cons_self

end Frame

namespace Names

def mapEmbedded (g : Frame → Frame) (n : Names) : Names :=
  { n with embedded := n.embedded.map fun x => (x.1, g x.2) }

def withAlias (n : Names) (tag : Tag) (wanted : Text) : Names :=
  { n with
    counts := (n.counts.choose wanted).2
    frames := (tag, (n.counts.choose wanted).1) :: n.frames }

variable {m n : Names}

lemma ofPhrase_instantiate (σ : Slot → Value) (h : m.selects = n.selects) (p : Phrase) :
    m.ofPhrase (p.instantiate σ) = n.ofPhrase p := by
  induction p with
  | literal | parameter | column | embedding => rfl
  | reference => simp only [Phrase.instantiate, ofPhrase, h]
  | cast d k p ih => exact ih
  | formula d k f as ih =>
    cases as with
    | nil => rfl
    | cons a as =>
      have ha := ih a mem_cons_self
      simp only [Phrase.instantiate, Phrase.instantiateAll, ofPhrase, ha]

lemma ofSelect_instantiate (σ : Slot → Value) (h : m.selects = n.selects)
    (ps : List Phrase) (counts : NameCounts) :
    m.ofSelect (ps.map (Phrase.instantiate σ)) counts = n.ofSelect ps counts := by
  induction ps generalizing counts with
  | nil => rfl
  | cons p ps ih => simp only [map_cons, ofSelect, ofPhrase_instantiate σ h, ih]

end Names

namespace Frame

/-- Naming adds the embedded queries to the table, and goes the same way in the instantiated frame. -/
def NamedAlike (σ : Slot → Value) (x x' : Naming Unit) (added : List (Tag × Frame)) : Prop :=
  ∀ n n', x n = .ok ((), n') → n'.embedded = added ++ n.embedded ∧
    x' (n.mapEmbedded (instantiate σ)) = .ok ((), n'.mapEmbedded (instantiate σ))

variable {σ : Slot → Value}

lemma namedAlike_pure : NamedAlike σ (pure ()) (pure ()) [] := by
  rintro n n' ⟨⟩
  exact ⟨rfl, rfl⟩

lemma NamedAlike.seq {x x' y y' : Naming Unit} {S U : List (Tag × Frame)} (hx : NamedAlike σ x x' S)
    (hy : NamedAlike σ y y' U) : NamedAlike σ (do x; y) (do x'; y') (U ++ S) := by
  intro n n' h
  obtain ⟨⟨⟩, m, hm, h⟩ := exists_of_run_bind_eq_ok h
  obtain ⟨hS, hx'⟩ := hx n m hm
  obtain ⟨hU, hy'⟩ := hy m n' h
  refine ⟨by rw [hU, hS, append_assoc], ?_⟩
  rw [run_bind_eq_ok hx', hy']

lemma run_giveNames (tag : Tag) (wanted : Text) (select : List Phrase) (n : Names) :
    giveNames tag wanted select n = (((n.withAlias tag wanted).ofSelect select []).map fun items =>
      ((), { n.withAlias tag wanted with selects := (tag, items) :: n.selects })) := by
  change ((n.withAlias tag wanted).ofSelect select [] >>= _) >>= _ = _
  cases (n.withAlias tag wanted).ofSelect select [] <;> rfl

lemma namedAlike_giveNames (tag : Tag) (wanted : Text) (select : List Phrase) :
    NamedAlike σ (giveNames tag wanted select)
      (giveNames tag wanted (select.map (Phrase.instantiate σ))) [] := by
  intro n n' h
  have hselect := Names.ofSelect_instantiate σ (n := n.withAlias tag wanted)
    (m := (n.mapEmbedded (instantiate σ)).withAlias tag wanted) rfl select []
  rw [run_giveNames] at h
  cases hitems : (n.withAlias tag wanted).ofSelect select [] with
  | error => simp [hitems, Except.map] at h
  | ok items =>
    rw [hitems] at h hselect
    cases h
    refine ⟨rfl, ?_⟩
    rw [run_giveNames, hselect]
    rfl

lemma namedAlike_nameTable (tag : Tag) (t : Table) :
    NamedAlike σ (nameTable tag t) (nameTable tag t) [] := by
  rintro n n' ⟨⟩
  exact ⟨rfl, rfl⟩

lemma namedAlike_anchors
    (h : ∀ a ∈ as, ∀ b, NamedAlike σ (a.frame.nameFrames b) ((a.frame.instantiate σ).nameFrames b)
      a.frame.subqueries) :
    NamedAlike σ (nameAnchors as) (nameAnchors (mapAnchors (Phrase.instantiate σ) as))
      (anchorSubqueries as) := by
  induction as with
  | nil => exact namedAlike_pure
  | cons a as ih =>
    rw [forall_mem_cons] at h
    obtain ⟨f, condition, left, right⟩ := a
    exact (h.1 false).seq (ih h.2)

lemma namedAlike_embedded
    (h : ∀ f ∈ fs, ∀ b, NamedAlike σ (f.nameFrames b) ((f.instantiate σ).nameFrames b) f.subqueries) :
    NamedAlike σ (nameEmbedded fs) (nameEmbedded (mapAll (Phrase.instantiate σ) fs))
      (allSubqueries fs) := by
  induction fs with
  | nil => exact namedAlike_pure
  | cons f fs ih =>
    rw [forall_mem_cons] at h
    have hpush : NamedAlike σ (modify fun n => { n with embedded := (f.tag, f) :: n.embedded })
        (modify fun n => { n with
          embedded := ((f.mapPhrases (Phrase.instantiate σ)).tag, f.mapPhrases (Phrase.instantiate σ)) ::
            n.embedded }) [(f.tag, f)] := by
      rintro n n' ⟨⟩
      exact ⟨rfl, by rw [tag_mapPhrases]; rfl⟩
    rw [allSubqueries, ← append_assoc]
    exact hpush.seq ((h.1 true).seq (ih h.2))

lemma namedAlike_nameFrames (f : Frame) (isEmbedded : Bool) :
    NamedAlike σ (f.nameFrames isEmbedded) ((f.instantiate σ).nameFrames isEmbedded) f.subqueries := by
  induction f generalizing isEmbedded with
  | scalar t =>
    cases isEmbedded with
    | false => exact namedAlike_giveNames t "_" []
    | true => exact namedAlike_pure
  | table n t => exact namedAlike_nameTable n t
  | query c anchors embedded iha ihe =>
    have hself : NamedAlike σ (if c.role = .segment || isEmbedded then pure ()
          else giveNames c.tag (Names.base (.query c anchors embedded)) c.select)
        (if c.role = .segment || isEmbedded then pure ()
          else giveNames c.tag (Names.base (instantiate σ (.query c anchors embedded)))
            (c.select.map (Phrase.instantiate σ))) [] := by
      rw [instantiate, base_mapPhrases]
      split
      · exact namedAlike_pure
      · exact namedAlike_giveNames _ _ _
    exact (namedAlike_anchors iha).seq ((namedAlike_embedded ihe).seq hself)

lemma names_instantiate {n : Names} (h : f.names = .ok n) :
    n.embedded = f.subqueries ∧ (f.instantiate σ).names = .ok (n.mapEmbedded (instantiate σ)) := by
  obtain ⟨⟨⟨⟩, m⟩, hm, h⟩ := exists_of_bind_eq_ok h
  cases h
  obtain ⟨hembedded, hrun⟩ := namedAlike_nameFrames (σ := σ) f false .empty m hm
  refine ⟨by rw [hembedded]; exact append_nil _, ?_⟩
  change (((f.instantiate σ).nameFrames false) .empty >>= _) = _
  rw [show Names.empty = Names.empty.mapEmbedded (instantiate σ) from rfl, hrun]
  rfl

end Frame

end NavQuery
