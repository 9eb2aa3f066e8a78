import Mathlib.Order.Defs.Unbundled
import NavQuery.Proofs.FrameOffers

/-!
`Keeps` says of a writer how the draft after it relates to the one before, and that it ends in no error
but those that may occur.
-/

namespace NavQuery

open List Statement Discipline

variable {isNamed : Bool} {c : Clauses} {as : List (Anchor Frame)}

namespace Statement

def Writing.Keeps [Discipline] {α : Type} (I : Draft → Draft → Prop) (w : Writing α) : Prop :=
  ∀ d, Ensures (fun r => I d r.2) (w d)

lemma operands_eq (s : Style) (depth : Nat) (ps : List Phrase) :
    Phrase.operands s depth ps = ps.map fun p nested => p.write s depth nested :=
  eq_map_of_cons ps rfl fun _ _ => rfl

variable {I : Draft → Draft → Prop} [IsPreorder Draft I]

namespace Writing.Keeps

variable [Discipline] {α β : Type} {w : Writing α} {f : α → Writing β}

lemma pure {a : α} : Keeps I (Pure.pure a : Writing α) := fun d => refl_of I d

lemma bind (h : w.Keeps I) (hf : ∀ a, (f a).Keeps I) : Keeps I (w >>= f) := fun d =>
  (h d).run_bind fun a e he => (hf a e).imp fun _ hr => trans_of I he hr

lemma map {f : α → β} (h : w.Keeps I) : Keeps I (do return f (← w)) := h.bind fun _ => pure

lemma lift {x : Result α} (h : Passes x) : Keeps I (liftM x : Writing α) := fun d =>
  (Ensures.run_lift h).imp fun _ hr => hr.2.symm ▸ refl_of I d

lemma mapM {l : List α} (h : ∀ a ∈ l, (f a).Keeps I) : Keeps I (l.mapM f) := by
  induction l with
  | nil => exact pure
  | cons a l ih =>
    rw [forall_mem_cons] at h
    rw [mapM_cons]
    exact h.1.bind fun _ => (ih h.2).map

end Writing.Keeps

variable [Tolerant]

section Formulas

variable {ws : List Operand} (h : ∀ w ∈ ws, ∀ nested, (w nested).Keeps I)
include h

lemma keeps_writeEach (nested : Bool) : (writeEach nested ws).Keeps I := by
  induction ws with
  | nil => exact .pure
  | cons w ws ih =>
    rw [forall_mem_cons] at h
    exact (h.1 nested).bind fun _ => (ih h.2).map

lemma keeps_writeCall (name : Text) : (writeCall name ws).Keeps I := (keeps_writeEach h false).map

lemma keeps_writeInfix (nested : Bool) (symbol : Text)
    (hn : 2 ≤ ws.length ∨ error .missingEntry) : (writeInfix nested symbol ws).Keeps I := by
  match ws, hn, h with
  | [], .inr hn, _ | [_], .inr hn, _ => exact fun _ => hn
  | a :: b :: ws, _, h => exact (h a (by simp) true).bind fun _ => (h b (by simp) true).map

lemma keeps_writeLike (dialect : Dialect) (nested positive : Bool)
    (hn : 2 ≤ ws.length ∨ error .missingEntry) :
    (writeLike dialect nested positive ws).Keeps I := by
  match ws, hn, h with
  | [], .inr hn, _ | [_], .inr hn, _ => exact fun _ => hn
  | a :: b :: ws, _, h =>
    have hpair (isNested : Bool) (k : Text → Text → Text) :
        Writing.Keeps I (do return k (← a isNested) (← b isNested)) :=
      (h a (by simp) isNested).bind fun _ => (h b (by simp) isNested).map
    cases dialect with
    | ansi => exact hpair false _
    | pgsql | sqlite => exact hpair true _

/-- A formula is written of its operands if it has those that its operator needs, or else fails for want
of them. -/
theorem keeps_writeFormula (dialect : Dialect) (nested isSubquery : Bool) {f : Operator}
    (hn : f.least ≤ ws.length ∨ error .missingEntry) :
    (writeFormula dialect f nested isSubquery ws).Keeps I := by
  unfold Operator.least at hn
  unfold writeFormula
  cases hf : f.kind
  all_goals rw [hf] at hn
  case isEqual | isTotallyEqual | compare | add | subtract | multiply | divide | concat =>
    exact keeps_writeInfix h _ _ hn
  case and | or => exact (keeps_writeEach h true).map
  case nullIf | ifNull | replace | count | sum | min | max | avg => exact keeps_writeCall h _
  case like => exact keeps_writeLike h _ _ _ hn
  case «exists» =>
    refine Writing.Keeps.bind (.lift ((Ensures.ensure _ rfl).imp fun _ _ => trivial)) fun _ => ?_
    match ws, hn, h with
    | [], .inr hn, _ => exact fun _ => hn
    | a :: ws, _, h => exact (h a mem_cons_self false).map
  all_goals
    match ws, hn, h with
    | [], .inr hn, _ => exact fun _ => hn
    | a :: ws, _, h =>
      rw [forall_mem_cons] at h
      first
        | exact h.1 nested
        | exact (h.1 true).map
        | exact (keeps_writeEach h.2 false).bind fun _ => (h.1 true).map

end Formulas

lemma passes_writeType {dialect : Dialect} {d : Domain} : Passes (writeType dialect d) := by
  unfold writeType
  dsimp only
  split
  all_goals first | exact trivial | exact Ensures.query _ _

/-- What is looked up for some phrases and joined frames is found, and writing them keeps to a relation
where they are not made of others. -/
structure Style.Suits (I : Draft → Draft → Prop) (L : Phrase → Prop) (F : Frame → Prop) (s : Style) : Prop where
  placeholder : ∀ d l, I d { d with placeholders := l }
  unit : ∀ d : Draft, I d { d with counts := (d.counts.choose "_").2 }
  literal : ∀ {d n v}, L (.literal d n v) → Passes (writeLiteral s.dialect d v)
  cast : ∀ {d n p}, L (.cast d n p) → L p
  formula : ∀ {d n f as}, L (.formula d n f as) →
    (Operator.least f ≤ as.length ∨ error .missingEntry) ∧ ∀ a ∈ as, L a
  column : ∀ {n t c}, L (.column n t c) → Passes (s.names.frame t)
  reference : ∀ {d n t i}, L (.reference d n t i) → Passes (s.names.frame t) ∧ Passes (s.names.item t i)
  embedding : ∀ {d t}, L (.embedding d t) → ∀ depth, (s.embed t depth).Keeps I
  table : ∀ {n t}, F (.table n t) → Passes (s.names.frame n)
  query : ∀ {c as fs}, F (.query c as fs) →
    Passes (s.names.frame c.tag) ∧ ∀ i < c.select.length, Passes (s.names.item c.tag i)
  phrases : ∀ {c as fs}, F (.query c as fs) → ∀ p ∈ c.phrases, L p
  anchors : ∀ {c as fs}, F (.query c as fs) → ∀ a ∈ as, F a.frame ∧ ∀ p ∈ a.condition, L p

namespace Style.Suits

variable {L : Phrase → Prop} {F : Frame → Prop} {s : Style} (hs : s.Suits I L F) {depth : Nat}
include hs

lemma write {p : Phrase} (hp : L p) (nested : Bool) : (p.write s depth nested).Keeps I := by
  induction p generalizing nested with
  | literal d n v => exact .lift (hs.literal hp)
  | parameter d n =>
    intro draft
    refine Ensures.run_bind (R := fun q => q = (draft, draft)) rfl fun _ _ hd => ?_
    cases hd
    cases s.dialect <;> cases draft.placeholders.find? (·.name == n) <;> exact hs.placeholder draft _
  | cast d n p ih => exact (ih (hs.cast hp) false).bind fun _ => .map (.lift passes_writeType)
  | formula d n f as ih =>
    obtain ⟨hn, has⟩ := hs.formula hp
    rw [Phrase.write, operands_eq]
    exact keeps_writeFormula (forall_mem_map.2 fun a ha => ih a ha (has a ha)) _ _ _ (by rwa [length_map])
  | column n t c => exact .map (.lift (hs.column hp))
  | reference d n t i => exact .bind (.lift (hs.reference hp).1) fun _ => .map (.lift (hs.reference hp).2)
  | embedding d t => exact hs.embedding hp depth

lemma writeItems {tag : Tag} {ps : List Phrase} {index : Nat} (h : ∀ p ∈ ps, L p)
    (hnamed : isNamed → ∀ i < index + ps.length, Passes (s.names.item tag i)) :
    (Frame.writeItems s depth tag isNamed ps index).Keeps I := by
  induction ps generalizing index with
  | nil => exact .pure
  | cons p ps ih =>
    rw [forall_mem_cons] at h
    rw [length_cons] at hnamed
    have hrest : (Frame.writeItems s depth tag isNamed ps (index + 1)).Keeps I :=
      ih h.2 fun hn i hi => hnamed hn i (by omega)
    refine (hs.write h.1 false).bind fun _ => ?_
    cases isNamed with
    | false => exact hrest.map
    | true => exact .bind (.lift (hnamed rfl index (by omega))) fun _ => hrest.map

lemma writeClauses (hc : ∀ p ∈ c.phrases, L p) : (Frame.writeClauses s depth c).Keeps I := by
  obtain ⟨_, hfilter, hgroup, hhaving, horder⟩ := Clauses.forall_mem_phrases.1 hc
  have hclause {word : Text} {o : Option Phrase} (h : ∀ p ∈ o, L p) :
      (Frame.writeClause s depth word o).Keeps I := by
    cases o with
    | none => exact .pure
    | some p => exact (hs.write (h p rfl) false).map
  have hlist : (Frame.writeList s depth "GROUP BY " c.group).Keeps I := by
    unfold Frame.writeList
    rw [operands_eq]
    split
    · exact .pure
    · exact (keeps_writeEach (forall_mem_map.2 fun p hp => hs.write (hgroup p hp)) false).map
  have hitems : (Frame.writeOrder s depth c.order).Keeps I := by
    unfold Frame.writeOrder
    split
    · exact .pure
    · exact (Writing.Keeps.mapM fun i hi => (hs.write (horder i hi) false).map).map
  exact (hclause hfilter).bind fun _ => hlist.bind fun _ => (hclause hhaving).bind fun _ => hitems.map

lemma writeAnchors {isFirst : Bool}
    (h : ∀ a ∈ as, (Frame.writeSource s a.frame depth).Keeps I ∧ ∀ p ∈ a.condition, L p) :
    (Frame.writeAnchors s as depth isFirst).Keeps I := by
  induction as generalizing isFirst with
  | nil => exact .pure
  | cons a as ih =>
    rw [forall_mem_cons] at h
    obtain ⟨f, condition, left, right⟩ := a
    refine Writing.Keeps.bind (h.1.1.bind fun target => ?_) fun _ => (ih h.2).map
    split
    · exact .pure
    unfold Frame.writeJoin
    split
    · exact .pure
    cases condition with
    | none => exact .pure
    | some p => exact (hs.write (h.1.2 p rfl) false).map

lemma writeQuery (hc : ∀ p ∈ c.phrases, L p)
    (hnamed : isNamed → ∀ i < c.select.length, Passes (s.names.item c.tag i))
    (ha : ∀ a ∈ as, (Frame.writeSource s a.frame depth).Keeps I ∧ ∀ p ∈ a.condition, L p) :
    (Frame.writeQuery s depth c isNamed (Frame.writeAnchors s as depth true)).Keeps I :=
  (hs.writeItems (Clauses.forall_mem_phrases.1 hc).1 (by rwa [Nat.zero_add])).bind fun _ =>
    (hs.writeAnchors ha).bind fun _ => (hs.writeClauses hc).map

lemma writeSource {f : Frame} (hf : F f) : (Frame.writeSource s f depth).Keeps I := by
  induction f generalizing depth with
  | scalar t => exact hs.unit
  | table n t => exact .map (.lift (hs.table hf))
  | query c anchors embedded iha _ =>
    refine (hs.writeQuery (hs.phrases hf) (fun _ => (hs.query hf).2) fun a ha => ?_).bind fun _ =>
      .map (.lift (hs.query hf).1)
    exact ⟨iha a ha (hs.anchors hf a ha).1, (hs.anchors hf a ha).2⟩

lemma writeSelect {f : Frame} (hf : ∀ c anchors embedded, f = .query c anchors embedded →
      (∀ p ∈ c.phrases, L p) ∧ ∀ a ∈ anchors, F a.frame ∧ ∀ p ∈ a.condition, L p) :
    (Frame.writeSelect s depth f).Keeps I := by
  cases f with
  | scalar | table => exact .pure
  | query c anchors embedded =>
    obtain ⟨hc, ha⟩ := hf c anchors embedded rfl
    exact hs.writeQuery hc nofun fun a hmem => ⟨hs.writeSource (ha a hmem).1, (ha a hmem).2⟩

end Style.Suits

end Statement

end NavQuery
