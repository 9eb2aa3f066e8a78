import NavQuery.Proofs.Connectives

/-!
`Fits` is what a phrase has to satisfy: its mark is right, its operator has the operands that it needs,
and those of the connectives are truth values. Each rule replaces a formula over fitting operands by a
phrase of the same value that fits as well.
-/

namespace NavQuery

open List Operator

variable {V : Type}

def Operator.scenes (f : Operator) (k : Scene V) : List (Scene V) :=
  if f.isAggregate then k.group.map .single else [k]

variable {f : Operator}

lemma Operator.scenes_eq (hf : f.isAggregate = false) (k : Scene V) : f.scenes k = [k] := by
  simp [scenes, hf]

def Operator.releases (f : Operator) : Bool :=
  match f.kind with
  | .and | .or | .not | .toPredicate | .fromPredicate => true
  | _ => false

lemma Operator.isAggregate_of_releases (hf : f.releases) : f.isAggregate = false := by
  unfold releases at hf
  unfold isAggregate
  split at hf <;> simp_all

namespace Interpretation

open Phrase

variable (I : Interpretation V) [DecidableEq V]

/-- What a phrase promises about its value and expects of its operands. -/
structure Fits (p : Phrase) (k : Scene V) : Prop where
  marked : p.nullable = false → I.value p k ≠ I.null
  boolean : ∀ d n v, p = .literal d n v → d.isBoolean → v.isNull ∨ ∃ b, v = .boolean b
  formed : ∀ d n f as, p = .formula d n f as → f.isFormed as.length = true
  truths : ∀ d n f as, p = .formula d n f as → f.isLogical → ∀ a ∈ as, I.IsTruth (I.value a k)

/-- A reduced phrase and the operands that may take its place fit. -/
inductive Ready : Phrase → Scene V → Prop
  | intro {p : Phrase} {k : Scene V} (fits : I.Fits p k)
      (operand : ∀ d n f as, p = .formula d n f as → f.releases → ∀ a ∈ as, Ready a k) :
      Ready p k

structure Replaces (k : Scene V) (p q : Phrase) : Prop where
  value_eq : I.value q k = I.value p k
  ready : I.Ready q k

variable {I} {k : Scene V} {p : Phrase} {as : List Phrase} {f : Operator}

lemma Ready.fits (h : I.Ready p k) : I.Fits p k := by
  cases h
  assumption

lemma Ready.operand {d : Domain} {n : Bool}
    (h : I.Ready (.formula d n f as) k) (hf : f.releases) : ∀ a ∈ as, I.Ready a k := by
  cases h with
  | intro _ operand => exact operand d n f as rfl hf

lemma value_formula_congr {bs : List Phrase}
    (h : ∀ k' ∈ f.scenes k, as.map (I.value · k') = bs.map (I.value · k')) (d e : Domain) (n m : Bool) :
    I.value (.formula d n f as) k = I.value (.formula e m f bs) k := by
  rw [value_formula, value_formula]
  split
  · rename_i hf
    refine congrArg (fun g : List (List V) => I.aggregate f g) (map_congr_left fun e he => ?_)
    exact h _ (by simp only [Operator.scenes, hf]; exact mem_map_of_mem he)
  · rename_i hf
    rw [h k (by simp [Operator.scenes, hf])]

section Literals

lemma fits_literal {d : Domain} {n : Bool} {v : Value} (hnull : n = false → v.isNull = false)
    (hboolean : d.isBoolean → v.isNull ∨ ∃ b, v = .boolean b) :
    I.Fits (.literal d n v) k where
  marked hn := by
    rw [value, Ne, literal_eq_null_iff, hnull hn]
    exact Bool.false_ne_true
  boolean := by
    rintro _ _ _ ⟨⟩
    exact hboolean
  formed _ _ _ _ h := nomatch h
  truths _ _ _ _ h := nomatch h

lemma ready_ofBool (b : Bool) : I.Ready (Phrase.ofBool b) k :=
  .intro (fits_literal (fun _ => rfl) fun _ => .inr ⟨b, rfl⟩) fun _ _ _ _ h => nomatch h

lemma ready_null (d : Domain) : I.Ready (Phrase.null d) k :=
  .intro (fits_literal (fun h => nomatch h) fun _ => .inl rfl) fun _ _ _ _ h => nomatch h

variable {p : Phrase}

lemma value_of_isNull (h : p.isNull) : I.value p k = I.null := by
  cases p <;> simp only [Phrase.isNull, Bool.false_eq_true] at h
  exact (I.literal_eq_null_iff _).2 h

lemma value_of_truth? {b : Bool} (h : p.truth? = some b) : I.value p k = I.ofBool b := by
  unfold truth? at h
  split at h
  · cases h
    rfl
  · cases h

end Literals

section Rules

variable {d : Domain} {n : Bool} {f : Operator} {args : List Phrase}

lemma fits_formula (hmarked : n = false → I.value (.formula d n f args) k ≠ I.null)
    (hformed : f.isFormed args.length)
    (htruths : f.isLogical → ∀ a ∈ args, I.IsTruth (I.value a k)) :
    I.Fits (.formula d n f args) k where
  marked := hmarked
  boolean _ _ _ h := nomatch h
  formed := by
    rintro _ _ _ _ ⟨⟩
    exact hformed
  truths := by
    rintro _ _ _ _ ⟨⟩
    exact htruths

lemma ready_formula (hF : I.Fits (.formula d n f args) k)
    (hargs : f.releases → ∀ a ∈ args, I.Ready a k) : I.Ready (.formula d n f args) k := by
  refine .intro hF ?_
  rintro _ _ _ _ ⟨⟩
  exact hargs

lemma value_formula_ne_null (hformed : f.isFormed args.length)
    (htruths : f.isLogical → ∀ a ∈ args, I.IsTruth (I.value a k))
    (hargs : ∀ a ∈ args, I.Ready a k) (hnull : f.canGiveNull = false)
    (hifNull : f.kind ≠ .ifNull) (hnullable : ∀ a ∈ args, a.nullable = false) :
    I.value (.formula d n f args) k ≠ I.null := by
  have haggregate : f.isAggregate = false := (Bool.or_eq_false_iff.1 hnull).2
  rw [value_formula, haggregate]
  refine I.apply_ne_null ?_ hnull (fun hlogical => ?_) (fun h => absurd h hifNull) fun hmem => ?_
  · rwa [length_map]
  · intro v hv
    obtain ⟨a, ha, rfl⟩ := mem_map.1 hv
    exact htruths hlogical a ha
  · obtain ⟨a, ha, hnull⟩ := mem_map.1 hmem
    exact (hargs a ha).fits.marked (hnullable a ha) hnull

lemma value_regular (hconcat : f.kind ≠ .concat) :
    I.value (regular d n f args) k = I.value (.formula d n f args) k := by
  unfold regular
  split
  · rename_i h
    simp only [Bool.and_eq_true, any_eq_true] at h
    obtain ⟨hregular, a, ha, hnull⟩ := h
    have haggregate : f.isAggregate = false := by
      unfold isNullRegular at hregular
      unfold Operator.isAggregate
      split at hregular <;> simp_all
    rw [value_formula, haggregate, I.apply_eq_null hregular hconcat]
    · rfl
    · exact mem_map.2 ⟨a, ha, value_of_isNull hnull⟩
  · rfl

/-- The general rule: a formula keeps its operands, and is null if a null operand makes it so. -/
theorem replaces_regular (hF : I.Fits (.formula d n f args) k)
    (hargs : ∀ k' ∈ f.scenes k, ∀ a ∈ args, I.Ready a k')
    (hconcat : f.kind ≠ .concat) (hifNull : f.kind ≠ .ifNull)
    (hcandid : f.canGiveNull → n → (∀ a ∈ args, a.nullable = false) →
      I.value (.formula d n f args) k ≠ I.null) :
    I.Replaces k (.formula d n f args) (regular d n f args) := by
  refine ⟨value_regular hconcat, ?_⟩
  unfold regular
  split
  · exact ready_null d
  · refine ready_formula (fits_formula ?marked (hF.formed _ _ _ _ rfl) (hF.truths _ _ _ _ rfl)) ?operands
    case operands =>
      intro hreleases
      rwa [scenes_eq (isAggregate_of_releases hreleases), forall_mem_singleton] at hargs
    case marked =>
      intro hn
      by_cases hmark : n = false
      · exact hF.marked hmark
      · rw [Bool.not_eq_false] at hmark
        have hnullable : ∀ a ∈ args, a.nullable = false := by simpa [hmark] using hn
        by_cases hnull : f.canGiveNull = true
        · exact hcandid hnull hmark hnullable
        · rw [Bool.not_eq_true] at hnull
          have haggregate : f.isAggregate = false := (Bool.or_eq_false_iff.1 hnull).2
          rw [scenes_eq haggregate, forall_mem_singleton] at hargs
          exact value_formula_ne_null (hF.formed _ _ _ _ rfl) (hF.truths _ _ _ _ rfl) hargs hnull hifNull
            hnullable

lemma replaces_regular_of_not_canGiveNull (hF : I.Fits (.formula d n f args) k)
    (hargs : ∀ a ∈ args, I.Ready a k) (hnull : f.canGiveNull = false)
    (hconcat : f.kind ≠ .concat) (hifNull : f.kind ≠ .ifNull) :
    I.Replaces k (.formula d n f args) (regular d n f args) := by
  have haggregate : f.isAggregate = false := (Bool.or_eq_false_iff.1 hnull).2
  refine replaces_regular hF ?_ hconcat hifNull fun h => absurd h (by simp [hnull])
  rwa [scenes_eq haggregate, forall_mem_singleton]

variable {a b : Phrase} {p : Phrase} {v : Value}

lemma exists_of_under? {kind : Kind} (h : a.under? kind = some p) :
    ∃ d n f as, a = .formula d n f (p :: as) ∧ f.kind = kind := by
  unfold under? at h
  split at h
  · split at h
    · rename_i hkind
      cases h
      exact ⟨_, _, _, _, rfl, hkind⟩
    · cases h
  · cases h

lemma value_conversion (hkind : f.kind = .toPredicate ∨ f.kind = .fromPredicate) (a : Phrase) :
    I.value (.formula d n f [a]) k = I.value a k := by
  rcases hkind with hkind | hkind <;>
    simp [value_formula, Operator.isAggregate, apply, hkind]

lemma replaces_conversion {opposite : Kind} (hkind : f.kind = .toPredicate ∨ f.kind = .fromPredicate)
    (hopposite : opposite = .toPredicate ∨ opposite = .fromPredicate)
    (hF : I.Fits (.formula d n f [a]) k) (ha : I.Ready a k) :
    I.Replaces k (.formula d n f [a]) (reduceConversion opposite d n f a [a]) := by
  unfold reduceConversion
  split
  · rename_i p hp
    obtain ⟨e, m, g, as, rfl, hg⟩ := exists_of_under? hp
    rw [← hg] at hopposite
    have hformed := ha.fits.formed _ _ _ _ rfl
    obtain rfl : as = [] := by
      rcases hopposite with h | h <;> simpa [isFormed, h] using hformed
    refine ⟨?_, ha.operand ?_ p mem_cons_self⟩
    · rw [value_conversion hkind, value_conversion hopposite]
    · rcases hopposite with h | h <;> simp [Operator.releases, h]
  · split
    · exact ⟨(value_conversion hkind a).symm, ha⟩
    · refine replaces_regular_of_not_canGiveNull hF (by simpa using ha) ?_ ?_ ?_ <;>
        rcases hkind with h | h <;> simp [canGiveNull, Operator.isAggregate, h]

lemma value_not (hkind : f.kind = .not) (a : Phrase) :
    I.value (.formula d n f [a]) k = I.neg (I.value a k) := by
  simp [value_formula, Operator.isAggregate, apply, hkind]

lemma replaces_not (hkind : f.kind = .not) (hF : I.Fits (.formula d n f [a]) k) (ha : I.Ready a k) :
    I.Replaces k (.formula d n f [a]) (reduceNot d n f a [a]) := by
  unfold reduceNot
  split
  · rename_i p hp
    obtain ⟨e, m, g, as, rfl, hg⟩ := exists_of_under? hp
    have hformed := ha.fits.formed _ _ _ _ rfl
    obtain rfl : as = [] := by simpa [isFormed, hg] using hformed
    have htruth := ha.fits.truths _ _ _ _ rfl (by simp [isLogical, hg]) p mem_cons_self
    refine ⟨?_, ha.operand (by simp [Operator.releases, hg]) p mem_cons_self⟩
    rw [value_not hkind, value_not hg, I.neg_neg htruth]
  · split
    · rename_i hnull
      refine ⟨?_, ready_null d⟩
      rw [value_not hkind, value_of_isNull hnull, I.neg_null]
      rfl
    · split
      · rename_i b hb
        refine ⟨?_, ready_ofBool _⟩
        rw [value_not hkind, value_of_truth? hb, I.neg_ofBool]
        rfl
      · refine replaces_regular_of_not_canGiveNull hF (by simpa using ha) ?_ ?_ ?_ <;>
          simp [canGiveNull, Operator.isAggregate, hkind]

lemma affirms_eq (h : f.polarity ≠ 0) : affirms f = !f.isNegative := by
  unfold affirms isNegative
  rw [Bool.eq_iff_iff, Bool.not_eq_true', decide_eq_false_iff_not, decide_eq_true_eq]
  omega

lemma value_isNull (hkind : f.kind = .isNull) (hpolarity : f.polarity ≠ 0) (a : Phrase) :
    I.value (.formula d n f [a]) k = I.ofBool (decide (I.value a k = I.null) == affirms f) := by
  rw [affirms_eq hpolarity]
  simp [value_formula, Operator.isAggregate, apply, hkind]

lemma value_isTotallyEqual (hkind : f.kind = .isTotallyEqual) (hpolarity : f.polarity ≠ 0)
    (a b : Phrase) : I.value (.formula d n f [a, b]) k =
      I.ofBool (I.same (I.value a k) (I.value b k) == affirms f) := by
  rw [affirms_eq hpolarity]
  simp [value_formula, Operator.isAggregate, apply, hkind]

lemma same_null_left (v : V) : I.same I.null v = decide (v = I.null) := by
  simp [Interpretation.same, eq_comm]

lemma same_null_right (v : V) : I.same v I.null = decide (v = I.null) := by
  simp [Interpretation.same]

lemma same_boolean {w : Value} (hv : v.isNull ∨ ∃ b, v = .boolean b)
    (hw : w.isNull ∨ ∃ b, w = .boolean b) :
    I.same (I.literal v) (I.literal w) = (v == w) := by
  have hnull : ∀ {v : Value}, v.isNull → v = .null := fun {v} h => by
    cases v <;> simp [Value.isNull] at h
    rfl
  rcases hv with hv | ⟨b, rfl⟩
  · obtain rfl := hnull hv
    rcases hw with hw | ⟨b, rfl⟩
    · obtain rfl := hnull hw
      exact (same_null_left _).trans (decide_eq_true rfl)
    · exact (same_null_left _).trans (decide_eq_false (I.ofBool_ne_null b))
  · rcases hw with hw | ⟨c, rfl⟩
    · obtain rfl := hnull hw
      exact (same_null_right _).trans (decide_eq_false (I.ofBool_ne_null b))
    · have hne : ¬(I.literal (.boolean b) = I.null ∨ I.literal (.boolean c) = I.null) := by
        rintro (h | h)
        · exact I.ofBool_ne_null b h
        · exact I.ofBool_ne_null c h
      rw [Interpretation.same, if_neg hne, I.equal_boolean]
      rfl

lemma replaces_totalEquality (hkind : f.kind = .isTotallyEqual)
    (hF : I.Fits (.formula d n f [a, b]) k) (ha : I.Ready a k)
    (hb : I.Ready b k) :
    I.Replaces k (.formula d n f [a, b]) (reduceTotalEquality d n f [a, b]) := by
  have hpolarity : f.polarity ≠ 0 := by simpa [isFormed, hkind] using hF.formed _ _ _ _ rfl
  have hregular : I.Replaces k (.formula d n f [a, b]) (regular d n f [a, b]) := by
    refine replaces_regular_of_not_canGiveNull hF (by simpa using ⟨ha, hb⟩) ?_ ?_ ?_ <;>
      simp [canGiveNull, Operator.isAggregate, hkind]
  have hisNull : ∀ {e : Phrase},
      I.value (.formula d n f [a, b]) k = I.ofBool (decide (I.value e k = I.null) == affirms f) →
      I.Replaces k (.formula d n f [a, b]) (.formula d false (.polar .isNull f.polarity) [e]) := by
    intro e hvalue
    have hsame : I.value (.formula d false (.polar .isNull f.polarity) [e]) k =
        I.value (.formula d n f [a, b]) k :=
      (value_isNull (f := .polar .isNull f.polarity) rfl hpolarity e).trans hvalue.symm
    refine ⟨hsame, ready_formula (fits_formula (fun _ => ?_) ?_ ?_) ?_⟩
    · rw [hsame, hvalue]
      exact I.ofBool_ne_null _
    · simp [isFormed, polar, hpolarity]
    · simp [isLogical, polar]
    · simp [Operator.releases, polar]
  rw [value_isTotallyEqual hkind hpolarity] at hisNull
  unfold reduceTotalEquality
  split
  · rename_i a' m v b' m' w rest heq
    obtain ⟨rfl, rfl, rfl⟩ : a = .literal a' m v ∧ b = .literal b' m' w ∧ [] = rest := by
      simpa using heq
    have hliteral : ∀ {e : Bool}, I.same (I.literal v) (I.literal w) = e →
        I.Replaces k (.formula d n f [.literal a' m v, .literal b' m' w])
          (Phrase.ofBool (e == affirms f)) := by
      rintro e rfl
      refine ⟨?_, ready_ofBool _⟩
      rw [value_isTotallyEqual hkind hpolarity]
      rfl
    have hdecide : ∀ u : Value, decide (I.literal u = I.null) = u.isNull := fun u => by
      rw [Bool.eq_iff_iff, decide_eq_true_eq, literal_eq_null_iff]
    split
    · rename_i hboolean
      rw [Bool.and_eq_true] at hboolean
      exact hliteral (same_boolean (ha.fits.boolean _ _ _ rfl hboolean.1)
        (hb.fits.boolean _ _ _ rfl hboolean.2))
    · split
      · rename_i hnull
        refine hliteral ?_
        rw [(I.literal_eq_null_iff v).2 hnull, same_null_left, hdecide]
      · split
        · rename_i hnull
          refine hliteral ?_
          rw [(I.literal_eq_null_iff w).2 hnull, same_null_right, hdecide]
        · exact hregular
  · rename_i a' b' rest hne heq
    obtain ⟨rfl, rfl, rfl⟩ : a = a' ∧ b = b' ∧ [] = rest := by simpa using heq
    split
    · rename_i hnull
      refine hisNull ?_
      rw [value_of_isNull hnull, same_null_left]
    · split
      · rename_i hnull
        refine hisNull ?_
        rw [value_of_isNull hnull, same_null_right]
      · exact hregular
  · rename_i hne
    exact absurd rfl (hne a b [])

lemma replaces_equality (hkind : f.kind = .isEqual)
    (hF : I.Fits (.formula d n f [a, b]) k) (ha : I.Ready a k)
    (hb : I.Ready b k) :
    I.Replaces k (.formula d n f [a, b]) (reduceEquality d n f [a, b]) := by
  have hpolarity : f.polarity ≠ 0 := by simpa [isFormed, hkind] using hF.formed _ _ _ _ rfl
  simp only [reduceEquality]
  split
  · rename_i x y hx hy
    refine ⟨?_, ready_ofBool _⟩
    have hne : ¬(I.value a k = I.null ∨ I.value b k = I.null) := by
      rw [value_of_truth? hx, value_of_truth? hy]
      exact fun h => h.elim (I.ofBool_ne_null x) (I.ofBool_ne_null y)
    have hvalue : I.value (.formula d n f [a, b]) k =
        I.ofBool (I.equal (I.value a k) (I.value b k) == affirms f) := by
      rw [affirms_eq hpolarity]
      simp [value_formula, Operator.isAggregate, apply, hkind, hne]
    rw [hvalue, value_of_truth? hx, value_of_truth? hy]
    exact congrArg (fun e => I.ofBool (e == affirms f)) (I.equal_boolean x y).symm
  · refine replaces_regular_of_not_canGiveNull hF (by simpa using ⟨ha, hb⟩) ?_ ?_ ?_ <;>
      simp [canGiveNull, Operator.isAggregate, hkind]

lemma replaces_isNull {d' : Domain} {n' : Bool} (hkind : f.kind = .isNull)
    (hF : I.Fits (.formula d n f [.literal d' n' v]) k) :
    I.Replaces k (.formula d n f [.literal d' n' v]) (Phrase.ofBool (v.isNull == affirms f)) := by
  have hpolarity : f.polarity ≠ 0 := by simpa [isFormed, hkind] using hF.formed _ _ _ _ rfl
  have hdecide : decide (I.literal v = I.null) = v.isNull := by
    rw [Bool.eq_iff_iff, decide_eq_true_eq, literal_eq_null_iff]
  refine ⟨?_, ready_ofBool _⟩
  rw [value_isNull hkind hpolarity, value, hdecide]
  rfl

lemma value_ifNull (hkind : f.kind = .ifNull) (args : List Phrase) :
    I.value (.formula d n f args) k = I.coalesce (args.map (I.value · k)) := by
  simp [value_formula, Operator.isAggregate, apply, hkind]

lemma coalesce_filter (args : List Phrase) :
    I.coalesce ((args.filter (!·.isNull)).map (I.value · k)) = I.coalesce (args.map (I.value · k)) := by
  induction args with
  | nil => rfl
  | cons a args ih =>
    rw [map_cons, coalesce_cons]
    cases hnull : a.isNull with
    | true =>
      rw [filter_cons_of_neg (by simp [hnull]), ih, if_pos (value_of_isNull hnull)]
    | false =>
      rw [filter_cons_of_pos (by simp [hnull]), map_cons, coalesce_cons, ih]

lemma replaces_ifNull (hkind : f.kind = .ifNull) (hargs : ∀ a ∈ args, I.Ready a k) :
    I.Replaces k (.formula d n f args) (reduceIfNull d f args) := by
  have hkept : ∀ a ∈ args.filter (!·.isNull), I.Ready a k := fun a ha =>
    hargs a (mem_filter.1 ha).1
  have hvalue : I.value (.formula d n f args) k =
      I.coalesce ((args.filter (!·.isNull)).map (I.value · k)) := by
    rw [value_ifNull hkind, coalesce_filter]
  unfold reduceIfNull
  split
  · rename_i heq
    refine ⟨?_, ready_null d⟩
    rw [hvalue, heq]
    rfl
  · rename_i p heq
    rw [heq] at hkept hvalue
    refine ⟨?_, hkept p mem_cons_self⟩
    rw [hvalue, map_singleton, coalesce_cons]
    split
    · assumption
    · rfl
  · rename_i p ps hps heq
    rw [heq] at hkept hvalue
    split
    · rename_i hnullable
      have hp := hkept p mem_cons_self
      refine ⟨?_, hp⟩
      rw [hvalue, map_cons, coalesce_cons, if_neg (hp.fits.marked (by simpa using hnullable))]
    · refine ⟨(value_ifNull hkind _).trans hvalue.symm,
        ready_formula (fits_formula (fun hall => ?_) ?_ ?_) ?_⟩
      · obtain ⟨q, hq, hnullable⟩ := all_eq_false.1 hall
        rw [value_ifNull hkind]
        refine I.coalesce_ne_null (mem_map_of_mem hq) ((hkept q hq).fits.marked ?_)
        simpa using hnullable
      · simp [isFormed, hkind]
      · simp [isLogical, hkind]
      · simp [Operator.releases, hkind]

lemma filled_ne_null (v : V) : I.filled v ≠ I.null := by
  unfold Interpretation.filled
  split
  · rw [Ne, literal_eq_null_iff]
    exact Bool.false_ne_true
  · assumption

lemma filled_eq_self {v : V} (h : v ≠ I.null) : I.filled v = v := if_neg h

lemma value_guarded (d d' : Domain) (n : Bool) (p : Phrase) :
    I.value (.formula d n (.plain .ifNull) [p, ofValue d' (.text [])]) k = I.filled (I.value p k) := by
  have hblank : I.value (ofValue d' (.text [])) k ≠ I.null := by
    rw [ofValue, value, Ne, literal_eq_null_iff]
    exact Bool.false_ne_true
  rw [value_ifNull rfl, map_cons, map_singleton, coalesce_cons, coalesce_cons, if_neg hblank]
  rfl

lemma value_filled (hp : I.Ready p k) : I.value (p.filled d) k = I.filled (I.value p k) := by
  unfold Phrase.filled
  split
  · rename_i hnull
    rw [value_of_isNull hnull]
    exact (if_pos rfl).symm
  · split
    · exact value_guarded _ d _ p
    · rename_i hnullable
      exact (filled_eq_self (hp.fits.marked (by simpa using hnullable))).symm

lemma replaces_concat (hkind : f.kind = .concat) (hargs : ∀ a ∈ args, I.Ready a k) :
    I.Replaces k (.formula d n f args) (.formula d false f (args.map (Phrase.filled d))) := by
  have hconcat : ∀ (m : Bool) (as : List Phrase), I.value (.formula d m f as) k =
      I.concat ((as.map (I.value · k)).map I.filled) := fun m as => by
    simp [value_formula, Operator.isAggregate, apply, hkind]
  refine ⟨?_, ready_formula (fits_formula (fun _ => ?_) ?_ ?_) ?_⟩
  · rw [hconcat, hconcat, map_map, map_map, map_map]
    refine congrArg I.concat (map_congr_left fun a ha => ?_)
    simp only [Function.comp_apply, value_filled (hargs a ha), filled_eq_self (filled_ne_null _)]
  · rw [hconcat]
    exact I.concat_ne_null _
  · simp [isFormed, hkind]
  · simp [isLogical, hkind]
  · simp [Operator.releases, hkind]

section Connectives

variable {kind : Kind} (h : kind = .and ∨ kind = .or)

include h

lemma consistent_value : Consistent I.truths kind (I.value · k) where
  connective d n f as hf := by
    subst hf
    rcases h with h | h <;> simp only [value_formula, Operator.isAggregate, apply, h] <;> rfl
  truth _ _ := value_of_truth?
  same _ _ _ _ hpq := I.value_of_same hpq k

lemma ready_of_mem_flattenAll (hF : I.Fits (.formula d n f args) k) (hargs : ∀ a ∈ args, I.Ready a k)
    (hf : f.kind = kind) : ∀ q ∈ flattenAll kind args, I.Ready q k ∧ I.IsTruth (I.value q k) := by
  have hoperands : ∀ d n f as, f.kind = kind → I.Ready (.formula d n f as) k →
      ∀ a ∈ as, I.Ready a k ∧ I.IsTruth (I.value a k) := by
    rintro d n f as rfl hp a ha
    refine ⟨hp.operand ?_ a ha, hp.fits.truths _ _ _ _ rfl ?_ a ha⟩
    · rcases h with h | h <;> simp [Operator.releases, h]
    · rcases h with h | h <;> simp [isLogical, h]
  intro q hq
  rw [flattenAll_eq] at hq
  obtain ⟨a, ha, hq⟩ := mem_flatMap.1 hq
  exact (forall_mem_flatten (fun d n f as hf hp => hoperands d n f as hf hp.1)
    (hoperands d n f args hf (ready_formula hF fun _ => hargs) a ha) q hq).1

omit h in
lemma replaces_connective (h : f.kind = .and ∨ f.kind = .or) (hF : I.Fits (.formula d n f args) k)
    (hargs : ∀ a ∈ args, I.Ready a k) :
    I.Replaces k (.formula d n f args) (reduceConnective d f args) := by
  have hvalue := consistent_value (I := I) (k := k) h
  have hready := ready_of_mem_flattenAll h hF hargs rfl
  refine ⟨hvalue.reduceConnective fun q hq => (hready q hq).2, ?_⟩
  simp only [reduceConnective]
  split
  · exact ready_ofBool _
  · replace hready := fun q hq => hready q (mem_of_mem_distinct (b := f.kind == .and) hq)
    split
    · exact ready_ofBool _
    · rename_i p heq
      exact (hready p (heq ▸ mem_cons_self)).1
    · refine ready_formula (fits_formula (fun hn => ?_) ?_ fun _ q hq => (hready q hq).2) fun _ q hq => (hready q hq).1
      · rw [hvalue.connective d _ f _ rfl]
        refine I.truths.connect_ne_null (forall_mem_map.2 fun q hq => (hready q hq).2) fun hmem => ?_
        obtain ⟨q, hq, hnull⟩ := mem_map.1 hmem
        exact (hready q hq).1.fits.marked (by simpa using any_eq_false.1 hn q hq) hnull
      · rcases h with h | h <;> simp [isFormed, h]

end Connectives

lemma replaces_nullIf (hkind : f.kind = .nullIf) (hF : I.Fits (.formula d n f [a, b]) k)
    (hargs : ∀ k' ∈ f.scenes k, ∀ p ∈ [a, b], I.Ready p k')
    (hcandid : n → (∀ p ∈ [a, b], p.nullable = false) → I.value (.formula d n f [a, b]) k ≠ I.null) :
    I.Replaces k (.formula d n f [a, b]) (if a.isNull then Phrase.null d else regular d n f [a, b]) := by
  split
  · rename_i hnull
    refine ⟨?_, ready_null d⟩
    have hvalue : I.value (.formula d n f [a, b]) k = I.nullIf (I.value a k) (I.value b k) := by
      simp [value_formula, Operator.isAggregate, apply, hkind]
    rw [hvalue, value_of_isNull hnull, Interpretation.nullIf, if_neg fun h => h.1 rfl]
    rfl
  · exact replaces_regular hF hargs (by simp [hkind]) (by simp [hkind]) fun _ => hcandid

lemma replaces_reduceFormula (hF : I.Fits (.formula d n f args) k)
    (hargs : ∀ k' ∈ f.scenes k, ∀ a ∈ args, I.Ready a k')
    (hcandid : f.canGiveNull → n → (∀ a ∈ args, a.nullable = false) →
      I.value (.formula d n f args) k ≠ I.null) :
    I.Replaces k (.formula d n f args) (reduceFormula d n f args) := by
  have hplain : f.isAggregate = false → ∀ a ∈ args, I.Ready a k := fun hf => by
    rwa [scenes_eq hf, forall_mem_singleton] at hargs
  have hformed := hF.formed _ _ _ _ rfl
  have hpair : f.kind = .isTotallyEqual ∨ f.kind = .isEqual → ∃ a b, args = [a, b] := by
    rintro (hkind | hkind) <;> rw [isFormed, hkind, Bool.and_eq_true] at hformed <;>
      exact length_eq_two.1 (of_decide_eq_true hformed.1)
  unfold reduceFormula
  split
  case h_1 a as hkind =>
    obtain rfl : as = [] := by simpa [isFormed, hkind] using hformed
    exact replaces_conversion (.inl hkind) (.inr rfl) hF
      (hplain (by simp [Operator.isAggregate, hkind]) a mem_cons_self)
  case h_2 a as hkind =>
    obtain rfl : as = [] := by simpa [isFormed, hkind] using hformed
    exact replaces_conversion (.inr hkind) (.inl rfl) hF
      (hplain (by simp [Operator.isAggregate, hkind]) a mem_cons_self)
  case h_3 hkind =>
    exact replaces_connective (.inl hkind) hF (hplain (by simp [Operator.isAggregate, hkind]))
  case h_4 hkind =>
    exact replaces_connective (.inr hkind) hF (hplain (by simp [Operator.isAggregate, hkind]))
  case h_5 a as hkind =>
    obtain rfl : as = [] := by simpa [isFormed, hkind] using hformed
    exact replaces_not hkind hF (hplain (by simp [Operator.isAggregate, hkind]) a mem_cons_self)
  case h_6 d' n' v as hkind =>
    obtain ⟨rfl, -⟩ : as = [] ∧ ¬f.polarity = 0 := by simpa [isFormed, hkind] using hformed
    exact replaces_isNull hkind hF
  case h_7 hkind =>
    obtain ⟨a, b, rfl⟩ := hpair (.inl hkind)
    have hready := hplain (by simp [Operator.isAggregate, hkind])
    exact replaces_totalEquality hkind hF (hready a (by simp)) (hready b (by simp))
  case h_8 hkind => exact replaces_concat hkind (hplain (by simp [Operator.isAggregate, hkind]))
  case h_9 hkind => exact replaces_ifNull hkind (hplain (by simp [Operator.isAggregate, hkind]))
  case h_10 a as hkind =>
    obtain ⟨b, rfl⟩ : ∃ b, as = [b] := by
      simpa [isFormed, hkind, length_eq_one_iff] using hformed
    exact replaces_nullIf hkind hF hargs (hcandid (by simp [canGiveNull, hkind]))
  case h_11 hkind =>
    obtain ⟨a, b, rfl⟩ := hpair (.inr hkind)
    have hready := hplain (by simp [Operator.isAggregate, hkind])
    exact replaces_equality hkind hF (hready a (by simp)) (hready b (by simp))
  case h_12 =>
    exact replaces_regular hF hargs (by assumption) (by assumption) hcandid

end Rules

lemma value_asNullable (p : Phrase) : I.value p.asNullable k = I.value p k := by
  cases p <;> rfl

lemma ready_asNullable (hp : I.Ready p k) : I.Ready p.asNullable k := by
  refine .intro ⟨fun hn => ?_, ?_, ?_, ?_⟩ ?_
  · cases p <;> cases hn
  · intro d n v heq
    cases p <;> simp only [asNullable, reduceCtorEq] at heq
    cases heq
    exact hp.fits.boolean _ _ _ rfl
  all_goals
    intro d n f as heq
    cases p <;> simp only [asNullable, reduceCtorEq] at heq
    cases heq
  · exact hp.fits.formed _ _ _ _ rfl
  · exact hp.fits.truths _ _ _ _ rfl
  · exact hp.operand

end Interpretation

end NavQuery
