import Mathlib.Data.List.Perm.Basic
import NavQuery.Binding.OfExpr

/-!
Domains are ordered by widening, and the common domain of two is their least upper bound. So operands may
change places and be grouped in any way.
-/

namespace NavQuery

open List

namespace Domain

/-- A value of the one domain may stand for one of the other. Of values of the greatest nothing is known. -/
inductive Widens : Domain → Domain → Prop
  | refl (a : Domain) : Widens a a
  | untyped (b : Domain) : Widens untyped b
  | unknown (a : Domain) : Widens a unknown
  | numeric {a b : Domain} (ha : a.isNumeric) (hb : b.isNumeric) (h : a.rank ≤ b.rank) : Widens a b
  | textual {a : Domain} (ha : a.isTextual) : Widens a text

variable {a b c : Domain}

lemma Widens.trans (h : a.Widens b) (k : b.Widens c) : a.Widens c := by
  cases h with
  | refl => exact k
  | untyped => exact .untyped c
  | unknown => cases k <;> first | exact .unknown a | contradiction
  | textual ha => cases k <;> first | exact .unknown a | exact .textual ha | contradiction
  | numeric ha hb h =>
    cases k with
    | refl => exact .numeric ha hb h
    | untyped => cases hb
    | unknown => exact .unknown a
    | numeric _ hc k => exact .numeric ha hc (Nat.le_trans h k)
    | textual hb' => cases b <;> contradiction

lemma Widens.antisymm (h : a.Widens b) (k : b.Widens a) : a = b := by
  have hrank : a.isNumeric → b.isNumeric → a.rank = b.rank → a = b := by
    cases a <;> cases b <;> simp [isNumeric, rank]
  grind [cases Widens, isNumeric, isTextual]

lemma widens_coerce (a b : Domain) : a.Widens (coerce a b) ∧ b.Widens (coerce a b) := by
  unfold coerce
  grind [isUntyped, Widens]

lemma coerce_widens (h : a.Widens c) (k : b.Widens c) : (coerce a b).Widens c := by
  unfold coerce
  grind [cases Widens, isUntyped, isNumeric, isTextual, Widens]

lemma coerce_widens_iff : (coerce a b).Widens c ↔ a.Widens c ∧ b.Widens c :=
  ⟨fun h => ⟨(widens_coerce a b).1.trans h, (widens_coerce a b).2.trans h⟩, fun h => coerce_widens h.1 h.2⟩

lemma eq_of_widens_iff (h : ∀ c, a.Widens c ↔ b.Widens c) : a = b :=
  ((h b).2 (.refl b)).antisymm ((h a).1 (.refl a))

lemma coerce_comm (a b : Domain) : coerce a b = coerce b a :=
  eq_of_widens_iff fun c => by rw [coerce_widens_iff, coerce_widens_iff, and_comm]

lemma coerce_assoc (a b c : Domain) : coerce (coerce a b) c = coerce a (coerce b c) :=
  eq_of_widens_iff fun d => by simp only [coerce_widens_iff, and_assoc]

lemma coerce_self (a : Domain) : coerce a a = a :=
  eq_of_widens_iff fun c => by rw [coerce_widens_iff, and_self]

lemma coerce_untyped (a : Domain) : coerce untyped a = a :=
  eq_of_widens_iff fun c => by simp [coerce_widens_iff, Widens.untyped]

lemma foldl_coerce_perm {as bs : List Domain} (h : a :: as ~ b :: bs) : as.foldl coerce a = bs.foldl coerce b := by
  have : RightCommutative coerce := ⟨fun a b c => by rw [coerce_assoc, coerce_comm b, coerce_assoc]⟩
  -- an untyped operand in front changes nothing
  simpa only [foldl_cons, coerce_untyped] using h.foldl_eq (f := coerce) untyped

end Domain

namespace Binding

open Domain

/-- Taking the common domain is a semilattice with the unknown domain on top, so that the common domain of
operands, or its failure, does not depend on their order. -/
theorem commonDomain_perm : (∀ a b, coerce a b = coerce b a) ∧
    (∀ a b c, coerce (coerce a b) c = coerce a (coerce b c)) ∧ (∀ a, coerce a a = a) ∧
    (∀ a, coerce unknown a = unknown) ∧
    (∀ a b as bs, a :: as ~ b :: bs → as.foldl coerce a = bs.foldl coerce b) ∧
    ∀ bs cs mark, bs ~ cs → commonDomain bs mark = commonDomain cs mark := by
  refine ⟨coerce_comm, coerce_assoc, coerce_self, fun a => if_pos (.inl rfl), fun a b as bs => foldl_coerce_perm,
    fun bs cs mark h => ?_⟩
  cases bs with
  | nil => rw [nil_perm.1 h]
  | cons b bs =>
    cases cs with
    | nil => exact absurd h (by simp)
    | cons c cs => simp only [commonDomain, map_cons, foldl_coerce_perm (by simpa using h.map domain)]

/-- Two enumerations meet in text, whatever stands between them. -/
theorem commonDomain_perm_labels :
    let operands (ds : List Domain) : List Binding := ds.map fun d => .parameter ⟨d, [], .nowhere⟩ []
    commonDomain (operands [.enum ["a"], .enum ["b"], .untyped]) .nowhere =
      commonDomain (operands [.enum ["b"], .untyped, .enum ["a"]]) .nowhere :=
  commonDomain_perm.2.2.2.2.2 _ _ _ (.trans (.swap ..) (.cons _ (.swap ..)))

end Binding

end NavQuery
