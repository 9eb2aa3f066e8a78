import Mathlib.Tactic.Lemma
import NavQuery.Space.Equality

/-!
Two spaces or codes are the same exactly if their forms without marks are equal.
-/

namespace NavQuery

open Code

namespace Binary64

lemma unsigned_unsigned (x : Binary64) : x.unsigned.unsigned = x.unsigned := by
  have hzero : isZero ⟨0⟩ := by decide
  cases hx : x.isZero <;> simp [unsigned, hx, hzero]

end Binary64

namespace Decimal

lemma strip_strip (u : Int) (s : Nat) : 0 ≤ (strip u s).scale ∧
      strip (strip u s).unscaled (strip u s).scale.toNat = strip u s := by
  induction s generalizing u with
  | zero => simp [strip]
  | succ s ih =>
    rw [strip]
    split
    · exact ih _
    · rename_i h
      have hs : ((s : Int) + 1).toNat = s + 1 := by omega
      refine ⟨Int.add_nonneg (Int.natCast_nonneg s) (by decide), ?_⟩
      rw [hs, strip, if_neg h]

lemma normalize_normalize (d : Decimal) : d.normalize.normalize = d.normalize := by
  by_cases h : 0 ≤ d.scale ∨ d.unscaled = 0
  · have hs := strip_strip d.unscaled d.scale.toNat
    simp only [normalize, if_pos h, if_pos (Or.inl hs.1), hs.2]
  · simp only [normalize, if_neg h]

end Decimal

namespace Value

mutual

lemma normal_normal : ∀ v : Value, v.normal.normal = v.normal
  | null | boolean _ | integer _ | text _ | date _ | time _ | dateTime _ => by simp [normal]
  | float x => by simp [normal, Binary64.unsigned_unsigned]
  | decimal d => by simp [normal, Decimal.normalize_normalize]
  | list vs => by simp [normal, normalAll_normalAll vs]

lemma normalAll_normalAll : ∀ vs : List Value, normalAll (normalAll vs) = normalAll vs
  | [] => rfl
  | v :: vs => by simp [normalAll, normal_normal v, normalAll_normalAll vs]

end

lemma normal_alike (v : Value) : v.normal.alike v :=
  (alike_iff_normal _ _).2 (normal_normal v)

end Value

lemma unmarked_unmarked_mutual : (∀ s : Space, s.unmarked.unmarked = s.unmarked) ∧
      (∀ os, unmarkedOrder (unmarkedOrder os) = unmarkedOrder os) ∧
      (∀ o, unmarkedItem (unmarkedItem o) = unmarkedItem o) ∧
      (∀ c : Code, c.unmarked.unmarked = c.unmarked) ∧
      (∀ cs, unmarkedAll (unmarkedAll cs) = unmarkedAll cs) ∧
      (∀ is, unmarkedImages (unmarkedImages is) = unmarkedImages is) ∧
      ∀ i, unmarkedImage (unmarkedImage i) = unmarkedImage i := by
  apply Space.unmarked.mutual_induct <;>
    simp +contextual [Space.unmarked, unmarked, unmarkedAll, unmarkedImages,
      unmarkedImage, unmarkedOrder, unmarkedItem, Value.normal_normal]

lemma Space.unmarked_unmarked (s : Space) : s.unmarked.unmarked = s.unmarked :=
  unmarked_unmarked_mutual.1 s

lemma Code.unmarkedOrder_unmarkedOrder (os : List (Code × Direction)) :
    unmarkedOrder (unmarkedOrder os) = unmarkedOrder os :=
  unmarked_unmarked_mutual.2.1 os

lemma Code.unmarked_unmarked (c : Code) : c.unmarked.unmarked = c.unmarked :=
  unmarked_unmarked_mutual.2.2.2.1 c

lemma Space.beq_iff_unmarked {a b : Space} : (a == b) ↔ a.unmarked = b.unmarked :=
  decide_eq_true_iff

lemma Code.beq_iff_unmarked {a b : Code} : (a == b) ↔ a.unmarked = b.unmarked :=
  decide_eq_true_iff

lemma Code.sameOrder_iff_unmarked {os ps : List OrderItem} :
    sameOrder os ps ↔ unmarkedOrder os = unmarkedOrder ps :=
  decide_eq_true_iff

lemma Code.sameAll_iff_unmarked {as bs : List Code} : sameAll as bs ↔ unmarkedAll as = unmarkedAll bs :=
  decide_eq_true_iff

lemma Code.sameImages_iff_unmarked {is js : List Image} :
    sameImages is js ↔ unmarkedImages is = unmarkedImages js :=
  decide_eq_true_iff

lemma Code.unmarked_beq (c : Code) : (c.unmarked == c) :=
  beq_iff_unmarked.2 (unmarked_unmarked c)

instance : EquivBEq Space where
  rfl := Space.beq_iff_unmarked.2 rfl
  symm h := Space.beq_iff_unmarked.2 (Space.beq_iff_unmarked.1 h).symm
  trans h k := Space.beq_iff_unmarked.2 ((Space.beq_iff_unmarked.1 h).trans (Space.beq_iff_unmarked.1 k))

instance : EquivBEq Code where
  rfl := beq_iff_unmarked.2 rfl
  symm h := beq_iff_unmarked.2 (beq_iff_unmarked.1 h).symm
  trans h k := beq_iff_unmarked.2 ((beq_iff_unmarked.1 h).trans (beq_iff_unmarked.1 k))

end NavQuery
