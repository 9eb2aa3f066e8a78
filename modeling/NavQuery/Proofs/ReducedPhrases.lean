import NavQuery.Proofs.Absorption
import NavQuery.Proofs.GroundedPhrases
import NavQuery.Proofs.PhraseReduction

/-!
Each rule of reduction puts a phrase of the same domain in the place of a formula, and it reads nothing
new. So a grounded phrase is reduced to a grounded phrase of its domain.
-/

namespace NavQuery

open List Operator

attribute [local instance] Discipline.typed

namespace Phrase

structure GroundedAs (O : List Offer) (d : Domain) (p : Phrase) : Prop where
  grounded : p.Grounded O
  domain : p.domain = d

variable {O O' : List Offer} {p q : Phrase} {d : Domain} {n : Bool} {f : Operator} {as : List Phrase}

lemma groundedAs_formula (hf : f.Takes d (as.map domain)) (h : ∀ a ∈ as, a.Grounded O) :
    (formula d n f as).GroundedAs O d := ⟨.formula hf h, rfl⟩

lemma GroundedAs.asNullable (h : p.GroundedAs O d) : p.asNullable.GroundedAs O d := by
  obtain ⟨h, rfl⟩ := h
  cases h with
  | literal h => exact ⟨.literal h, rfl⟩
  | parameter => exact ⟨.parameter, rfl⟩
  | cast h => exact ⟨.cast h, rfl⟩
  | formula hf h => exact ⟨.formula hf h, rfl⟩
  | column h => exact ⟨.column h, rfl⟩
  | reference h hd => exact ⟨.reference h hd, rfl⟩
  | embedding h => exact ⟨.embedding h, rfl⟩

/-- The phrases that rules put in the place of a formula: `T d f as` says that a formula may be built,
`P d p` that a phrase may stand for one of the domain. -/
structure Rules (T : Domain → Operator → List Phrase → Prop) (P : Domain → Phrase → Prop) : Prop where
  null : ∀ {d}, P d (null d)
  truth : ∀ {d f as}, T d f as → f.result? = some .boolean → ∀ b, P d (ofBool b)
  formula : ∀ {d f as}, T d f as → ∀ n, P d (formula d n f as)
  operand : ∀ {d f as}, T d f as → f.isUniform → ∀ a ∈ as, P d a
  inner : ∀ {d e n f as}, P d (.formula e n f as) → f.isUniform → ∀ a ∈ as, P d a
  operands : ∀ {d f as bs}, T d f as → f.isUniform → f.least = 0 → (∀ b ∈ bs, P d b) → T d f bs
  nullTest : ∀ {d f as}, T d f as → f.result? = some .boolean → ∀ a ∈ as, T d (.polar .isNull f.polarity) [a]
  filled : ∀ {d f as}, T d f as → f.kind = .concat → T d f (as.map (filled d))

namespace Rules

variable {T : Domain → Operator → List Phrase → Prop} {P : Domain → Phrase → Prop} {kind : Kind}
  (r : Rules T P) (h : T d f as)
include r

lemma under {e : Kind} (he : ∀ g : Operator, g.kind = e → g.isUniform) (hp : P d p)
    (hq : p.under? e = some q) : P d q := by
  obtain ⟨d, n, g, as, rfl, hg⟩ := Interpretation.exists_of_under? hq
  exact r.inner hp (he g hg) q mem_cons_self

include h

lemma regular : P d (regular d n f as) := by
  unfold Phrase.regular
  split
  · exact r.null
  · exact r.formula h _

lemma reduceConversion (hkind : ∀ g : Operator, g.kind = kind → g.isUniform) (hp : P d p) :
    P d (reduceConversion kind d n f p as) := by
  unfold Phrase.reduceConversion
  split
  next hq => exact r.under hkind hp hq
  next =>
    split
    · exact hp
    · exact r.regular h

lemma reduceNot (hf : f.kind = .not) (hp : P d p) : P d (reduceNot d n f p as) := by
  unfold Phrase.reduceNot
  split
  next hq => exact r.under (fun g hg => by rw [isUniform, hg]) hp hq
  next =>
    split
    · exact r.null
    split
    · exact r.truth h (by rw [result?, hf]) _
    · exact r.regular h

lemma reduceTotalEquality (hf : f.kind = .isTotallyEqual) : P d (reduceTotalEquality d n f as) := by
  have hresult : f.result? = some .boolean := by rw [result?, hf]
  have htruth := r.truth h hresult
  have htest : ∀ a ∈ as, P d (.formula d false (.polar .isNull f.polarity) [a]) := fun a ha =>
    r.formula (r.nullTest h hresult a ha) false
  unfold Phrase.reduceTotalEquality
  split
  · repeat' split
    · exact htruth _
    · exact htruth _
    · exact htruth _
    · exact r.regular h
  · split
    · exact htest _ (.tail _ mem_cons_self)
    split
    · exact htest _ mem_cons_self
    · exact r.regular h
  · exact r.regular h

lemma reduceEquality (hf : f.kind = .isEqual) : P d (reduceEquality d n f as) := by
  unfold Phrase.reduceEquality
  split
  · split
    · exact r.truth h (by rw [result?, hf]) _
    · exact r.regular h
  · exact r.regular h

lemma reduceIfNull (hf : f.kind = .ifNull) : P d (reduceIfNull d f as) := by
  have huniform : f.isUniform := by rw [isUniform, hf]
  have hkept : ∀ a ∈ as.filter (!·.isNull), P d a := fun a ha =>
    r.operand h huniform a (mem_of_mem_filter ha)
  unfold Phrase.reduceIfNull
  split
  next => exact r.null
  next heq => exact hkept _ (heq ▸ mem_cons_self)
  next heq =>
    rw [heq] at hkept
    split
    · exact hkept _ mem_cons_self
    · exact r.formula (r.operands h huniform (by rw [least, hf]) hkept) _

lemma reduceConnective (hf : f.kind = .and ∨ f.kind = .or) : P d (reduceConnective d f as) := by
  have huniform : ∀ g : Operator, g.kind = f.kind → g.isUniform := fun g hg => by
    rcases hf with hf | hf <;> rw [isUniform, hg, hf]
  have htruth := r.truth h (by rcases hf with hf | hf <;> rw [result?, hf])
  have hkept : ∀ b : Bool, ∀ a ∈ distinct ((flattenAll f.kind as).filter (·.truth? != some b)), P d a := by
    intro b q hq
    have hq := mem_of_mem_distinct hq
    rw [flattenAll_eq] at hq
    obtain ⟨a, ha, hq⟩ := mem_flatMap.1 hq
    exact (forall_mem_flatten (fun _ _ g _ hg hp => r.inner hp (huniform g hg))
      (r.operand h (huniform f rfl) a ha) q hq).1
  unfold Phrase.reduceConnective
  dsimp only
  split
  · exact htruth _
  · split
    next => exact htruth _
    next heq => exact hkept _ _ (heq ▸ mem_cons_self)
    next =>
      refine r.formula (r.operands h (huniform f rfl) ?_ (hkept _)) _
      rcases hf with hf | hf <;> rw [least, hf]

lemma reduceFormula : P d (reduceFormula d n f as) := by
  have hfirst (hf : f.isUniform) : ∀ a ∈ as, P d a := r.operand h hf
  unfold Phrase.reduceFormula
  split
  next hf =>
    exact r.reduceConversion h (fun g hg => by rw [isUniform, hg])
      (hfirst (by rw [isUniform, hf]) _ mem_cons_self)
  next hf =>
    exact r.reduceConversion h (fun g hg => by rw [isUniform, hg])
      (hfirst (by rw [isUniform, hf]) _ mem_cons_self)
  next hf => exact r.reduceConnective h (.inl hf)
  next hf => exact r.reduceConnective h (.inr hf)
  next hf => exact r.reduceNot h hf (hfirst (by rw [isUniform, hf]) _ mem_cons_self)
  next hf => exact r.truth h (by rw [result?, hf]) _
  next hf => exact r.reduceTotalEquality h hf
  next hf => exact r.formula (r.filled h hf) false
  next hf => exact r.reduceIfNull h hf
  next =>
    split
    · exact r.null
    · exact r.regular h
  next hf => exact r.reduceEquality h hf
  next => exact r.regular h

end Rules

/-- The parts of a concatenation are texts, also where the empty text is put in for a null. -/
theorem GroundedAs.filled (h : p.GroundedAs O .text) : (filled .text p).GroundedAs O .text := by
  have hblank : (ofValue .text (.text [])).Grounded O := .literal rfl
  unfold Phrase.filled
  split
  · exact ⟨hblank, rfl⟩
  split
  · rw [h.domain]
    refine groundedAs_formula ⟨Nat.zero_le _, fun _ => ?_, nofun⟩
      (forall_mem_cons.2 ⟨h.grounded, forall_mem_singleton.2 hblank⟩)
    exact forall_mem_cons.2 ⟨h.domain, forall_mem_singleton.2 rfl⟩
  · exact h

lemma grounded_rules :
    Rules (fun d f as => f.Takes d (as.map domain) ∧ ∀ a ∈ as, a.Grounded O) (GroundedAs O) where
  null := ⟨.literal rfl, rfl⟩
  truth h hf b := ⟨grounded_ofBool b, (h.1.result .boolean hf).symm⟩
  formula h _ := groundedAs_formula h.1 h.2
  operand h hf a ha := ⟨h.2 a ha, h.1.uniform hf a.domain (mem_map_of_mem ha)⟩
  inner := by
    rintro d _ n f as ⟨h, rfl⟩ hu a ha
    cases h with
    | formula hf has => exact ⟨has a ha, hf.uniform hu a.domain (mem_map_of_mem ha)⟩
  operands h hu hl hbs := by
    refine ⟨⟨hl ▸ Nat.zero_le _, fun _ => ?_, h.1.result⟩, fun b hb => (hbs b hb).grounded⟩
    exact forall_mem_map.2 fun b hb => (hbs b hb).domain
  nullTest h hf a ha :=
    ⟨h.1.result .boolean hf ▸ Discipline.nullTest a.domain _, forall_mem_singleton.2 (h.2 a ha)⟩
  filled {d f as} h hf := by
    obtain rfl : d = .text := h.1.result .text (by rw [result?, hf])
    have hfilled : ∀ a ∈ as.map (Phrase.filled .text), a.GroundedAs O .text := forall_mem_map.2 fun a ha =>
      GroundedAs.filled ⟨h.2 a ha, h.1.uniform (by rw [isUniform, hf]) _ (mem_map_of_mem ha)⟩
    refine ⟨⟨by simpa using h.1.least, fun _ => ?_, h.1.result⟩, fun a ha => (hfilled a ha).grounded⟩
    exact forall_mem_map.2 fun a ha => (hfilled a ha).domain

def Resolves (O O' : List Offer) (resolve : Tag → Nat → Result (Option Phrase)) : Prop :=
  ∀ {t : Tag} {i : Nat} {ds : List Domain} {d : Domain}, .items t ds ∈ O → ds[i]? = some d →
    Ensures (fun o => (o = none → .items t ds ∈ O') ∧ ∀ p, o = some p → p.GroundedAs O' d) (resolve t i)

lemma Grounded.reduceWith {resolve : Tag → Nat → Result (Option Phrase)} (h : p.Grounded O)
    (hcolumns : ∀ t, .columns t ∈ O → .columns t ∈ O') (hanswers : ∀ t, .answer t ∈ O → .answer t ∈ O')
    (hr : Resolves O O' resolve) : Ensures (GroundedAs O' p.domain) (p.reduceWith resolve) := by
  induction h with
  | literal h => exact .pure ⟨.literal h, rfl⟩
  | parameter => exact .pure ⟨.parameter, rfl⟩
  | cast _ ih =>
    refine ih.bind fun q hq => .pure ?_
    split
    · exact ⟨.literal rfl, rfl⟩
    · exact ⟨.cast hq.grounded, rfl⟩
  | formula hf _ ih =>
    rw [Phrase.reduceWith, reduceAllWith_eq]
    refine (Ensures.mapM_forall₂ ih).bind fun bs hbs => .pure ?_
    obtain ⟨hground, hdomains⟩ := grounded_of_forall₂ (hbs.imp fun _ _ hb => ⟨hb.grounded, hb.domain⟩)
    exact grounded_rules.reduceFormula ⟨hdomains ▸ hf, hground⟩
  | column h => exact .pure ⟨.column (hcolumns _ h), rfl⟩
  | @reference d n t i ds h hd =>
    refine (hr h hd).bind fun o ho => ?_
    cases o with
    | none => exact .pure ⟨.reference (ho.1 rfl) hd, rfl⟩
    | some q =>
      refine .pure ?_
      split
      · exact (ho.2 q rfl).asNullable
      · exact ho.2 q rfl
  | embedding h => exact .pure ⟨.embedding (hanswers _ h), rfl⟩

lemma Grounded.inline {tag : Tag} {select : List Phrase} (h : p.Grounded O)
    (hs : ∀ ds, .items tag ds ∈ O → select.map domain = ds) :
    Passes (p.inline tag select) := by
  have hused : ∀ i, Use.item tag i ∈ p.uses → i < select.length := by
    intro i hi
    obtain ⟨e, he, hoffers⟩ := h.within _ hi
    obtain ⟨o, ho, rfl⟩ := mem_map.1 he
    cases o with
    | columns | answer => exact nomatch hoffers
    | items t ds =>
      obtain ⟨rfl, hlt⟩ : t = tag ∧ i < ds.length := by simpa [Offer.export, Export.offers] using hoffers
      rwa [← hs ds ho, length_map] at hlt
  obtain ⟨q, hq⟩ := exists_inline_eq_ok p hused
  rw [hq]
  exact .pure trivial

end Phrase

namespace Substitutes

open Phrase

variable {s : Substitutes} {O O' : List Offer}

/-- The select lists of the frames that are gone, where `O` was offered with them and `O'` is what is
left. -/
structure Covers (s : Substitutes) (O O' : List Offer) : Prop where
  columns : ∀ t, .columns t ∈ O → .columns t ∈ O'
  answers : ∀ t, .answer t ∈ O → .answer t ∈ O'
  kept : ∀ t ds, .items t ds ∈ O → List.lookup t s = none → .items t ds ∈ O'
  gone : ∀ t ds select, .items t ds ∈ O → List.lookup t s = some select → select.map domain = ds
  selects : ∀ t select, List.lookup t s = some select → ∀ p ∈ select, p.Grounded O

lemma Covers.resolves (h : s.Covers O O') : ∀ n : Nat, Resolves O O' (s.resolve n)
  | n, t, i, ds, d, hitems, hd => by
    rw [resolve]
    cases hl : s.lookup t with
    | none => exact .pure ⟨fun _ => h.kept t ds hitems hl, by rintro _ ⟨⟩⟩
    | some select =>
      rw [← h.gone t ds select hitems hl, getElem?_map] at hd
      obtain ⟨p, hp, rfl⟩ := Option.map_eq_some_iff.1 hd
      simp only [hp]
      cases n with
      | zero => exact Error.IsOutcome.endless
      | succ n =>
        have hground := h.selects t select hl p (mem_of_getElem? hp)
        refine (hground.reduceWith h.columns h.answers (h.resolves n)).bind fun q hq => .pure ⟨by rintro ⟨⟩, ?_⟩
        exact fun p hp => Option.some.inj hp ▸ hq

/-- Reduction finds everything that a grounded phrase refers to, and keeps its domain. -/
theorem Covers.reduce (h : s.Covers O O') {p : Phrase} (hp : p.Grounded O) :
    Ensures (GroundedAs O' p.domain) (s.reduce p) :=
  hp.reduceWith h.columns h.answers (h.resolves s.count)

end Substitutes

end NavQuery
