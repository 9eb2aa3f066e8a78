import NavQuery.Frame.OfTerm
import NavQuery.Proofs.Literals
import NavQuery.Proofs.PhraseReduction
import NavQuery.Proofs.Unmarked
import NavQuery.Segment.Denotation

/-!
A count or a sum stands in a COALESCE with zero. The guard goes where the aggregate is not marked
nullable, but a sum takes its mark from its operand: over no rows, nothing guards it.
-/

namespace NavQuery

namespace Phrase

variable {f : Operator} (hf : f.kind = .count ∨ f.kind = .sum)
include hf

lemma ofFormula_aggregate (d : Domain) (as : List Phrase) :
    ofFormula d f as = formula d (f.kind == .sum && as.any (·.nullable)) f as := by
  obtain h | h := hf <;> simp [ofFormula, h]

lemma reduceFormula_aggregate (d : Domain) (n : Bool) (bs : List Phrase) :
    reduceFormula d n f bs = formula d (n && bs.any (·.nullable)) f bs := by
  obtain h | h := hf <;> simp [reduceFormula, regular, Operator.isNullRegular, h]

end Phrase

namespace Interpretation

open Phrase

variable {V : Type} [DecidableEq V] {I : Interpretation V} {s : Substitutes}

/-- A guard is lost just where what it guards reduces to a phrase that is null without being marked. -/
theorem exists_reduce_guard {p q : Phrase} (hq : s.reduce p = .ok q) {v : Value} (hv : v.isNull = false)
    (d : Domain) : ∃ r, s.reduce (ofFormula d (.plain .ifNull) [p, .ofValue d v]) = .ok r ∧
      ∀ k : Scene V, I.value r k = I.null ↔
        (q.nullable = false ∧ q.isNull = false) ∧ I.value q k = I.null := by
  have hzero : s.reduce (.ofValue d v) = .ok (.ofValue d v) := rfl
  by_cases hmark : q.nullable = false ∧ q.isNull = false
  · exact ⟨q, reduce_ifNull rfl hq hmark.1 hmark.2 hzero d _, by simp [hmark]⟩
  · refine ⟨_, reduce_pair_ifNull rfl hq hzero d _, fun k => iff_of_false ?_ fun h => hmark h.1⟩
    have hne : I.value (.ofValue d v) k ≠ I.null := fun h => by
      simp [(I.literal_eq_null_iff v).1 h] at hv
    have hfilter : (!(ofValue d v).isNull) := by simp [ofValue, Phrase.isNull, hv]
    rw [reduceIfNull]
    cases hnull : q.isNull with
    | true => simpa [hnull, hfilter] using hne
    | false =>
      have hnullable : q.nullable := by simpa [hnull] using hmark
      simp only [hnull, hfilter, hnullable, List.filter_cons, List.filter_nil, Bool.not_false, if_true,
        Bool.not_true, Bool.false_eq_true, if_false]
      rw [value_ifNull rfl]
      exact I.coalesce_ne_null (List.mem_map.2 ⟨_, by simp, rfl⟩) hne

/-- An aggregate keeps the mark of the reference to it, whether the frame that selects it is gone or not. -/
theorem reduce_reference_aggregate {k : Scene V} {f : Operator} (hf : f.kind = .count ∨ f.kind = .sum) {d : Domain}
    {as : List Phrase} {outer : Bool} {t : Tag} {i : Nat} {q : Phrase}
    (hselect : ∀ select, List.lookup t s = some select → select[i]? = some (ofFormula d f as))
    (hq : s.reduce (.reference d ((ofFormula d f as).nullable || outer) t i) = .ok q) :
    (q.nullable = ((ofFormula d f as).nullable || outer) ∧ q.isNull = false) ∧
      if List.lookup t s = none then I.value q k = I.item (k.env.row t) i
      else ∃ bs : List Phrase, I.value q k = I.aggregate f (k.group.map fun e => bs.map (I.value · (.single e))) := by
  obtain ⟨m, hm⟩ : ∃ m, ofFormula d f as = formula d m f as := ⟨_, ofFormula_aggregate hf d as⟩
  rw [hm] at hselect hq ⊢
  obtain ⟨p?, hp, hq⟩ := exists_of_bind_eq_ok hq
  unfold Substitutes.resolve at hp
  cases hl : s.lookup t with
  | none =>
    simp only [hl] at hp
    cases hp
    cases hq
    simp [nullable, isNull, value]
  | some select =>
    simp only [hl, hselect select hl] at hp
    split at hp
    next => simp_all
    next => cases hp
    next ha _ =>
      cases ha
      obtain ⟨b, hb, hp⟩ := exists_of_bind_eq_ok hp
      cases hp
      cases hq
      obtain ⟨bs, -, hb⟩ := exists_of_bind_eq_ok hb
      rw [reduceFormula_aggregate hf] at hb
      cases hb
      have hvalue (n : Bool) : I.value (formula d n f bs) k =
          I.aggregate f (k.group.map fun e => bs.map (I.value · (.single e))) := by
        obtain h | h := hf <;> simp [value_formula, Operator.isAggregate, h]
      rw [show (formula d m f as).nullable = m from rfl]
      split
      next hmark => exact ⟨⟨hmark.symm, rfl⟩, bs, hvalue true⟩
      next hmark =>
        rw [Bool.or_eq_true, not_or] at hmark
        exact ⟨⟨by simp [nullable, hmark], rfl⟩, bs, hvalue _⟩

end Interpretation

end NavQuery
