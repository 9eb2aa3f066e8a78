import NavQuery.Frame.OfTerm
import NavQuery.Proofs.PhraseValue

/-!
A phrase is grounded in what frames offer if its literals and formulas follow the discipline and it reads
nothing but what is offered.
-/

namespace NavQuery

open List

/-- What a frame offers: the columns of a table, select items of given domains, or a single value. -/
inductive Offer
  | columns (tag : Tag)
  | items (tag : Tag) (domains : List Domain)
  | answer (tag : Tag)

def Offer.export : Offer → Phrase.Export
  | columns t => .columns t
  | items t ds => .items t ds.length
  | answer t => .answer t

namespace Phrase

lemma domain_of_beq {p q : Phrase} (h : (p == q)) : p.domain = q.domain := by
  change p.same q = true at h
  cases p <;> cases q <;> simp_all [same, domain]

variable [Discipline]

inductive Grounded (O : List Offer) : Phrase → Prop
  | literal {d : Domain} {n : Bool} {v : Value} (h : Discipline.literal d v) :
    Grounded O (.literal d n v)
  | parameter {d : Domain} {n : Text} : Grounded O (.parameter d n)
  | cast {d : Domain} {n : Bool} {p : Phrase} (hp : p.Grounded O) : Grounded O (.cast d n p)
  | formula {d : Domain} {n : Bool} {f : Operator} {as : List Phrase}
    (hf : Discipline.formula d f (as.map domain)) (has : ∀ a ∈ as, a.Grounded O) :
    Grounded O (.formula d n f as)
  | column {n : Bool} {t : Tag} {c : Column} (h : .columns t ∈ O) : Grounded O (.column n t c)
  | reference {d : Domain} {n : Bool} {t : Tag} {i : Nat} {ds : List Domain} (h : .items t ds ∈ O)
    (hd : ds[i]? = some d) : Grounded O (.reference d n t i)
  | embedding {d : Domain} {t : Tag} (h : .answer t ∈ O) : Grounded O (.embedding d t)

variable {O O' : List Offer} {p q : Phrase} {d : Domain} {n : Bool} {f : Operator} {as : List Phrase}

lemma Grounded.mono (h : p.Grounded O) (hO : O ⊆ O') : p.Grounded O' := by
  induction h with
  | literal h => exact .literal h
  | parameter => exact .parameter
  | cast _ ih => exact .cast ih
  | formula hf _ ih => exact .formula hf ih
  | column h => exact .column (hO h)
  | reference h hd => exact .reference (hO h) hd
  | embedding h => exact .embedding (hO h)

lemma grounded_of_forall₂ {α : Type} {δ : α → Domain} {xs : List α} {ps : List Phrase}
    (h : Forall₂ (fun x p => p.Grounded O ∧ p.domain = δ x) xs ps) :
    (∀ p ∈ ps, p.Grounded O) ∧ ps.map domain = xs.map δ :=
  ⟨forall_mem_of_forall₂ h fun _ _ h => h.1, (map_eq_map_of_forall₂ h fun _ _ h => h.2.symm).symm⟩

/-- A longer select list offers what a shorter one does. -/
theorem Grounded.lengthen {t : Tag} {ds es : List Domain} (h : p.Grounded [.items t ds])
    (hd : ds <+: es) : p.Grounded [.items t es] := by
  induction h with
  | literal h => exact .literal h
  | parameter => exact .parameter
  | cast _ ih => exact .cast ih
  | formula hf _ ih => exact .formula hf ih
  | column h | embedding h => exact nomatch mem_singleton.1 h
  | reference h hi =>
    obtain ⟨rfl, rfl⟩ := Offer.items.inj (mem_singleton.1 h)
    obtain ⟨more, rfl⟩ := hd
    have hlt := (List.getElem?_eq_some_iff.1 hi).1
    exact .reference mem_cons_self ((getElem?_append_left hlt).trans hi)

lemma Grounded.within (h : p.Grounded O) : p.Within (O.map Offer.export) := by
  intro u hu
  induction h with
  | literal | parameter => exact absurd hu not_mem_nil
  | cast _ ih => exact ih hu
  | formula _ _ ih =>
    obtain ⟨a, ha, hu⟩ := mem_uses_formula.1 hu
    exact ih a ha hu
  | column h | embedding h =>
    obtain rfl := mem_singleton.1 hu
    exact ⟨_, mem_map_of_mem h, by simp [Offer.export, Export.offers]⟩
  | reference h hd =>
    obtain rfl := mem_singleton.1 hu
    have hlt := (List.getElem?_eq_some_iff.1 hd).1
    exact ⟨_, mem_map_of_mem h, by simpa [Offer.export, Export.offers] using hlt⟩

lemma grounded_ofBool (b : Bool) : (ofBool b).Grounded O := .literal (Discipline.truth b)

lemma Grounded.toPredicate (h : p.Grounded O) : p.toPredicate.Grounded O :=
  .formula (Discipline.toPredicate p.domain) (forall_mem_singleton.2 h)

lemma Grounded.fromPredicate (h : p.Grounded O) : p.fromPredicate.Grounded O :=
  .formula (Discipline.fromPredicate p.domain) (forall_mem_singleton.2 h)

lemma Grounded.ofFormula (hf : Discipline.formula d f (as.map domain)) (h : ∀ a ∈ as, a.Grounded O) :
    (ofFormula d f as).Grounded O := by
  have hpredicates : ∀ a ∈ as.map Phrase.toPredicate, a.Grounded O := by
    intro a ha
    obtain ⟨b, hb, rfl⟩ := mem_map.1 ha
    exact (h b hb).toPredicate
  have hf' : Discipline.formula d f ((as.map Phrase.toPredicate).map domain) := by
    rw [map_map]
    exact hf
  unfold Phrase.ofFormula
  split
  all_goals
    first
      | exact .formula hf h
      | exact (Grounded.formula hf h).fromPredicate
      | exact (Grounded.formula hf' hpredicates).fromPredicate

omit [Discipline] in
lemma domain_ofFormula (d : Domain) (f : Operator) (as : List Phrase) : (ofFormula d f as).domain = d := by
  unfold Phrase.ofFormula
  split <;> rfl

end Phrase

end NavQuery
