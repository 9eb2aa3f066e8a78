import Mathlib.Data.Multiset.Basic
import NavQuery.Operator
import NavQuery.Value
import NavQuery.Domain

/-!
What SQL leaves to an engine (arithmetic, collations, casts, aggregates, the order of values) is an
interpretation: any functions that obey the few laws the planner relies on.
-/

namespace NavQuery

namespace Operator

def isLogical (f : Operator) : Bool :=
  match f.kind with
  | .and | .or | .not => true
  | _ => false

/-- Whether a number of operands is right for the operator, and its polarity is one. -/
def isFormed (f : Operator) (count : Nat) : Bool :=
  match f.kind with
  | .not | .toPredicate | .fromPredicate => count = 1
  | .isNull => count = 1 && f.polarity ≠ 0
  | .isEqual | .isTotallyEqual => count = 2 && f.polarity ≠ 0
  | .nullIf => count = 2
  | _ => true

def canGiveNull (f : Operator) : Bool := f.kind == .nullIf || f.isAggregate

end Operator

/-- Truth values and null among other values. -/
structure Truths (V : Type) where
  ofBool : Bool → V
  null : V
  ofBool_inj {a b : Bool} : ofBool a = ofBool b ↔ a = b
  ofBool_ne_null (b : Bool) : ofBool b ≠ null

namespace Truths

variable {V : Type} (T : Truths V) {v : V} {b : Bool} {vs ws : List V}

def IsTruth (v : V) : Prop := v = T.ofBool true ∨ v = T.ofBool false ∨ v = T.null

lemma ofBool_not_ne (b : Bool) : T.ofBool (!b) ≠ T.ofBool b := fun h => by
  simpa using T.ofBool_inj.1 h

variable [DecidableEq V]

/-- A conjunction, where `b` is true, or a disjunction: one operand with the other truth value decides,
and otherwise all operands have to be `b`. -/
def connect (b : Bool) (vs : List V) : V :=
  if T.ofBool (!b) ∈ vs then T.ofBool (!b)
  else if ∀ v ∈ vs, v = T.ofBool b then T.ofBool b else T.null

lemma connect_eq_not_iff : T.connect b vs = T.ofBool (!b) ↔ T.ofBool (!b) ∈ vs := by
  unfold connect
  split
  · simpa
  · rename_i hno
    refine ⟨fun h => ?_, fun h => absurd h hno⟩
    split at h
    · exact absurd h.symm (T.ofBool_not_ne b)
    · exact absurd h.symm (T.ofBool_ne_null _)

lemma connect_eq_iff : T.connect b vs = T.ofBool b ↔ ∀ v ∈ vs, v = T.ofBool b := by
  unfold connect
  split
  · rename_i h
    exact ⟨fun hc => absurd hc (T.ofBool_not_ne b), fun hall => hall _ h⟩
  · split
    · simpa
    · rename_i hn
      exact ⟨fun hc => absurd hc.symm (T.ofBool_ne_null b), fun hall => absurd hall hn⟩

lemma connect_congr (hnot : T.ofBool (!b) ∈ vs ↔ T.ofBool (!b) ∈ ws)
    (hall : (∀ v ∈ vs, v = T.ofBool b) ↔ ∀ w ∈ ws, w = T.ofBool b) :
    T.connect b vs = T.connect b ws := by
  simp only [connect, hnot, hall]

lemma connect_append (vs ws : List V) :
    T.connect b (vs ++ ws) = T.connect b [T.connect b vs, T.connect b ws] := by
  refine T.connect_congr ?_ ?_
  · simp [eq_comm, connect_eq_not_iff]
  · simp [connect_eq_iff, or_imp, forall_and]

lemma isTruth_connect : T.IsTruth (T.connect b vs) := by
  unfold connect
  split
  · cases b
    · exact .inl rfl
    · exact .inr (.inl rfl)
  · split
    · cases b
      · exact .inr (.inl rfl)
      · exact .inl rfl
    · exact .inr (.inr rfl)

lemma connect_singleton (h : T.IsTruth v) : T.connect b [v] = v := by
  rcases h with rfl | rfl | rfl <;> cases b <;>
    simp [connect, T.ofBool_inj, (T.ofBool_ne_null _).symm]

lemma connect_ne_null (h : ∀ v ∈ vs, T.IsTruth v) (hvs : T.null ∉ vs) : T.connect b vs ≠ T.null := by
  unfold connect
  split
  · exact T.ofBool_ne_null _
  · rename_i hno
    rw [if_pos]
    · exact T.ofBool_ne_null _
    · intro v hv
      rcases h v hv with rfl | rfl | rfl
      · cases b
        · exact absurd hv hno
        · rfl
      · cases b
        · rfl
        · exact absurd hv hno
      · exact absurd hv hvs

end Truths

structure Interpretation (V : Type) where
  literal : Value → V
  parameter : Domain → Text → V
  cast : Domain → V → V
  equal : V → V → Bool
  concat : List V → V
  operate : Operator → List V → V
  aggregate : Operator → Multiset (List V) → V
  subquery : Multiset (List V) → V
  compare : V → V → Ordering
  literal_eq_null : ∀ v, literal v = literal .null → v = .null
  literal_boolean_inj : ∀ a b, literal (.boolean a) = literal (.boolean b) → a = b
  literal_alike : ∀ v w, v.alike w → literal v = literal w
  cast_eq_null_iff : ∀ d v, cast d v = literal .null ↔ v = literal .null
  equal_boolean : ∀ a b, equal (literal (.boolean a)) (literal (.boolean b)) = (a == b)
  concat_ne_null : ∀ vs, concat vs ≠ literal .null
  operate_ne_null : ∀ f vs, literal .null ∉ vs → operate f vs ≠ literal .null
  compare_trans : Std.TransCmp compare

namespace Interpretation

variable {V : Type} (I : Interpretation V) {v : V}

def null : V := I.literal .null

def ofBool (b : Bool) : V := I.literal (.boolean b)

lemma ofBool_ne_null (b : Bool) : I.ofBool b ≠ I.null := fun h =>
  nomatch I.literal_eq_null _ h

lemma ofBool_inj {a b : Bool} : I.ofBool a = I.ofBool b ↔ a = b :=
  ⟨I.literal_boolean_inj a b, fun h => h ▸ rfl⟩

lemma literal_eq_null_iff (v : Value) : I.literal v = I.null ↔ v.isNull := by
  constructor
  · intro h
    rw [I.literal_eq_null v h]
    rfl
  · intro h
    cases v <;> simp [Value.isNull] at h
    rfl

def IsTruth (v : V) : Prop := v = I.ofBool true ∨ v = I.ofBool false ∨ v = I.null

def truths : Truths V := ⟨I.ofBool, I.null, I.ofBool_inj, I.ofBool_ne_null⟩

variable [DecidableEq V]

def isTrue (v : V) : Bool := v = I.ofBool true

/-- A conjunction, where `b` is true, or a disjunction: one operand with the other truth value decides,
and otherwise all operands have to be `b`. -/
def connect (b : Bool) (vs : List V) : V :=
  if I.ofBool (!b) ∈ vs then I.ofBool (!b)
  else if ∀ v ∈ vs, v = I.ofBool b then I.ofBool b else I.null

def neg (v : V) : V :=
  if v = I.ofBool true then I.ofBool false else if v = I.ofBool false then I.ofBool true else I.null

def same (v w : V) : Bool :=
  if v = I.null ∨ w = I.null then v = w else I.equal v w

def coalesce (vs : List V) : V := (vs.find? (· ≠ I.null)).getD I.null

def nullIf (v w : V) : V :=
  if v ≠ I.null ∧ w ≠ I.null ∧ I.equal v w = true then I.null else v

/-- Null as a part of a concatenation is the empty text. -/
def filled (v : V) : V := if v = I.null then I.literal (.text []) else v

/-- The value of an operator. Operators without a fixed meaning, and those whose number of operands is
not theirs, are the engine's. -/
def apply (f : Operator) (vs : List V) : V :=
  match f.kind, vs with
  | .and, vs => I.connect true vs
  | .or, vs => I.connect false vs
  | .not, [v] => I.neg v
  | .isNull, [v] => I.ofBool (decide (v = I.null) == !f.isNegative)
  | .isTotallyEqual, [v, w] => I.ofBool (I.same v w == !f.isNegative)
  | .isEqual, [v, w] =>
    if v = I.null ∨ w = I.null then I.null else I.ofBool (I.equal v w == !f.isNegative)
  | .ifNull, vs => I.coalesce vs
  | .nullIf, [v, w] => I.nullIf v w
  | .concat, vs => I.concat (vs.map I.filled)
  | .toPredicate, [v] | .fromPredicate, [v] => v
  | _, vs => if f.isNullRegular ∧ I.null ∈ vs then I.null else I.operate f vs

lemma isTrue_iff : I.isTrue v ↔ v = I.ofBool true := by
  simp [isTrue]

lemma connect_eq_iff {b : Bool} {vs : List V} : I.connect b vs = I.ofBool b ↔ ∀ v ∈ vs, v = I.ofBool b :=
  I.truths.connect_eq_iff

/-- A conjunction keeps a row if both sides do. -/
theorem isTrue_connect_pair (v w : V) :
    I.isTrue (I.connect true [v, w]) = (I.isTrue v && I.isTrue w) := by
  rw [Bool.eq_iff_iff, isTrue_iff, connect_eq_iff, Bool.and_eq_true, isTrue_iff, isTrue_iff]
  simp

section Apply

variable {f : Operator} {vs : List V}

lemma coalesce_cons (v : V) (vs : List V) :
    I.coalesce (v :: vs) = if v = I.null then I.coalesce vs else v := by
  by_cases h : v = I.null <;> simp [coalesce, h]

lemma coalesce_ne_null (hv : v ∈ vs) (hne : v ≠ I.null) : I.coalesce vs ≠ I.null := by
  induction vs with
  | nil => cases hv
  | cons w vs ih =>
    rw [coalesce_cons]
    split
    · rename_i hw
      refine ih ((List.mem_cons.1 hv).resolve_left ?_)
      rintro rfl
      exact hne hw
    · assumption

lemma neg_null : I.neg I.null = I.null := by
  simp [neg, (I.ofBool_ne_null _).symm]

lemma neg_ofBool (b : Bool) : I.neg (I.ofBool b) = I.ofBool (!b) := by
  cases b <;> simp [neg, ofBool_inj]

lemma neg_ne_null (h : I.IsTruth v) (hv : v ≠ I.null) : I.neg v ≠ I.null := by
  rcases h with rfl | rfl | rfl
  · exact neg_ofBool I _ ▸ I.ofBool_ne_null _
  · exact neg_ofBool I _ ▸ I.ofBool_ne_null _
  · exact absurd rfl hv

lemma neg_neg (h : I.IsTruth v) : I.neg (I.neg v) = v := by
  rcases h with rfl | rfl | rfl
  · rw [neg_ofBool, neg_ofBool, Bool.not_not]
  · rw [neg_ofBool, neg_ofBool, Bool.not_not]
  · rw [neg_null, neg_null]

lemma apply_ne_null (hf : f.isFormed vs.length) (hnull : f.canGiveNull = false)
    (htruth : f.isLogical → ∀ v ∈ vs, I.IsTruth v) (hfirst : f.kind = .ifNull → vs ≠ [])
    (hvs : I.null ∉ vs) : I.apply f vs ≠ I.null := by
  unfold apply
  split
  case h_1 hkind => exact I.truths.connect_ne_null (htruth (by simp [Operator.isLogical, hkind])) hvs
  case h_2 hkind => exact I.truths.connect_ne_null (htruth (by simp [Operator.isLogical, hkind])) hvs
  case h_3 v hkind =>
    exact I.neg_ne_null (htruth (by simp [Operator.isLogical, hkind]) v (by simp))
      fun h => hvs (by simp [h])
  case h_4 => exact I.ofBool_ne_null _
  case h_5 => exact I.ofBool_ne_null _
  case h_6 v w hkind =>
    rw [if_neg]
    · exact I.ofBool_ne_null _
    · rintro (h | h) <;> simp [h] at hvs
  case h_7 hkind =>
    obtain ⟨v, vs, rfl⟩ := List.exists_cons_of_ne_nil (hfirst hkind)
    exact I.coalesce_ne_null List.mem_cons_self fun h => hvs (h ▸ List.mem_cons_self)
  case h_8 hkind => simp [Operator.canGiveNull, hkind] at hnull
  case h_9 => exact I.concat_ne_null _
  case h_10 v hkind => exact fun h => hvs (by simp [h])
  case h_11 v hkind => exact fun h => hvs (by simp [h])
  case h_12 =>
    rw [if_neg fun h => hvs h.2]
    exact I.operate_ne_null f _ hvs

lemma apply_eq_null (hf : f.isNullRegular) (hconcat : f.kind ≠ .concat) (hvs : I.null ∈ vs) :
    I.apply f vs = I.null := by
  unfold apply
  split
  case h_6 v w hkind =>
    rw [if_pos]
    simpa [eq_comm] using hvs
  case h_9 hkind => exact absurd hkind hconcat
  case h_12 => rw [if_pos ⟨hf, hvs⟩]
  all_goals
    rename_i hkind
    simp [Operator.isNullRegular, hkind] at hf

end Apply

/-- Values known only as null, as truth values or as something else. -/
def coarse : Interpretation (Option (Option Bool)) where
  literal
    | .null => none
    | .boolean b => some (some b)
    | _ => some none
  parameter _ _ := none
  cast _ v := v
  equal v w := v == w
  concat _ := some none
  operate _ _ := some none
  aggregate _ _ := some none
  subquery _ := none
  compare := compareOn fun v => v.elim 0 fun w => w.elim 1 fun b => 2 + b.toNat
  literal_eq_null v h := by cases v <;> simp_all
  literal_boolean_inj a b h := by simpa using h
  literal_alike v w h := by cases v <;> cases w <;> simp_all [Value.alike, Value.sameBy]
  cast_eq_null_iff _ _ := Iff.rfl
  equal_boolean a b := by cases a <;> cases b <;> rfl
  concat_ne_null _ := by simp
  operate_ne_null _ _ _ := by simp
  compare_trans := inferInstance

end Interpretation

end NavQuery
