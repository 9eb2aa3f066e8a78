import NavQuery.Proofs.KeptOnce
import NavQuery.Proofs.PhraseValue

/-!
A connective is reduced to a normal form: flat, without truth values and with each operand once. Whatever the
operands are found to be, true, false or null, it says the same.
-/

namespace NavQuery

open List

namespace Phrase

open Operator

def truths : Truths (Option Bool) := ⟨some, none, Option.some_inj, Option.some_ne_none⟩

def heads (kind : Kind) : Phrase → Bool
  | formula _ _ f _ => f.kind == kind
  | _ => false

/-- The truth of a phrase, where the operands of connectives of a kind have given truths. -/
def truthBy (kind : Kind) (v : Phrase → Option Bool) : Phrase → Option Bool
  | formula d n f as =>
    if f.kind = kind then truths.connect (kind == .and) (as.map fun a => truthBy kind v a) else v (formula d n f as)
  | p => p.truth?.or (v p)

/-- Values by which a connective of a kind says what its operands say together. -/
structure Consistent {V : Type} [DecidableEq V] (T : Truths V) (kind : Kind) (val : Phrase → V) : Prop where
  connective : ∀ d n f as, f.kind = kind → val (formula d n f as) = T.connect (kind == .and) (as.map val)
  truth : ∀ p b, p.truth? = some b → val p = T.ofBool b
  same : ∀ p q, p.heads kind = false → q.heads kind = false → p.same q → val p = val q

section Flatten

variable {kind : Kind} {p : Phrase}

lemma flattenAll_eq (kind : Kind) (ps : List Phrase) : flattenAll kind ps = ps.flatMap (flatten kind) :=
  eq_flatMap_of_cons ps rfl fun _ _ => rfl

lemma flatten_of_not_heads (h : p.heads kind = false) : p.flatten kind = [p] := by
  cases p with
  | formula => exact if_neg (by simpa [heads] using h)
  | _ => rfl

lemma forall_mem_flatten {P : Phrase → Prop}
    (hP : ∀ d n f as, f.kind = kind → P (formula d n f as) → ∀ a ∈ as, P a) (hp : P p) :
    ∀ q ∈ p.flatten kind, P q ∧ q.heads kind = false := by
  induction p with
  | formula d n f as ih =>
    rw [flatten]
    split
    next hkind =>
      intro q hq
      rw [flattenAll_eq] at hq
      obtain ⟨a, ha, hq⟩ := mem_flatMap.1 hq
      exact ih a ha (hP d n f as hkind hp a ha) q hq
    next hkind => exact forall_mem_singleton.2 ⟨hp, by simpa [heads] using hkind⟩
  | _ => exact forall_mem_singleton.2 ⟨hp, rfl⟩

lemma not_heads_of_mem_flattenAll {ps : List Phrase} : ∀ q ∈ flattenAll kind ps, q.heads kind = false := by
  intro q hq
  rw [flattenAll_eq] at hq
  obtain ⟨p, -, hq⟩ := mem_flatMap.1 hq
  exact (forall_mem_flatten (P := fun _ => True) (fun _ _ _ _ _ _ _ _ => trivial) trivial q hq).2

lemma mem_of_mem_distinct {b : Bool} {ps : List Phrase} (h : p ∈ distinct (ps.filter (·.truth? != some b))) : p ∈ ps :=
  (mem_filter.1 ((foldl_keep (fun q p : Phrase => q == p) _ []).1 h)).1

end Flatten

namespace Consistent

variable {V : Type} [DecidableEq V] {T : Truths V} {kind : Kind} {val : Phrase → V}

mutual

lemma connect_flatten (h : Consistent T kind val) : ∀ p : Phrase,
    T.connect (kind == .and) ((p.flatten kind).map val) = T.connect (kind == .and) [val p]
  | formula d n f as => by
    rw [flatten]
    split
    next hkind =>
      rw [connect_flattenAll h as, h.connective d n f as hkind, T.connect_singleton T.isTruth_connect]
    next => rfl
  | literal .. | parameter .. | cast .. | column .. | reference .. | embedding .. => rfl

lemma connect_flattenAll (h : Consistent T kind val) : ∀ ps : List Phrase,
    T.connect (kind == .and) ((flattenAll kind ps).map val) = T.connect (kind == .and) (ps.map val)
  | [] => rfl
  | p :: ps => by
    rw [flattenAll, map_append, T.connect_append, connect_flatten h p, connect_flattenAll h ps, ← T.connect_append]
    rfl

end

/-- What is dropped changes nothing, or is kept at another place. -/
lemma connect_distinct (h : Consistent T kind val) {b : Bool} {ps : List Phrase}
    (hps : ∀ p ∈ ps, p.heads kind = false) :
    T.connect b ((distinct (ps.filter (·.truth? != some b))).map val) = T.connect b (ps.map val) := by
  obtain ⟨-, -, hall, -⟩ := foldl_keep (fun q p : Phrase => q == p) (ps.filter (·.truth? != some b)) []
  have hkept : ∀ p ∈ ps, val p = T.ofBool b ∨
      ∃ q ∈ distinct (ps.filter (·.truth? != some b)), val q = val p := by
    intro p hp
    by_cases htruth : p.truth? = some b
    · exact .inl (h.truth p b htruth)
    · obtain ⟨q, hq, rfl | hqp⟩ := hall p (mem_filter.2 ⟨hp, by simpa using htruth⟩)
      · exact .inr ⟨q, hq, rfl⟩
      · exact .inr ⟨q, hq, h.same q p (hps q (mem_of_mem_distinct hq)) (hps p hp) hqp⟩
  refine T.connect_congr ?_ ?_
  · simp only [mem_map]
    constructor
    · exact fun ⟨q, hq, hvalue⟩ => ⟨q, mem_of_mem_distinct hq, hvalue⟩
    · rintro ⟨p, hp, hvalue⟩
      rcases hkept p hp with hneutral | ⟨q, hq, hsame⟩
      · exact absurd (hvalue.symm.trans hneutral) (T.ofBool_not_ne b)
      · exact ⟨q, hq, hsame.trans hvalue⟩
  · simp only [forall_mem_map]
    constructor
    · intro hvalue p hp
      rcases hkept p hp with hneutral | ⟨q, hq, hsame⟩
      · exact hneutral
      · exact hsame.symm.trans (hvalue q hq)
    · exact fun hvalue q hq => hvalue q (mem_of_mem_distinct hq)

/-- A connective whose operands are truths is reduced to a phrase of the same value. -/
theorem reduceConnective {d : Domain} {n : Bool} {f : Operator} {args : List Phrase} (h : Consistent T f.kind val)
    (htruth : ∀ q ∈ flattenAll f.kind args, T.IsTruth (val q)) :
    val (reduceConnective d f args) = val (formula d n f args) := by
  have hheads : ∀ q ∈ flattenAll f.kind args, q.heads f.kind = false := not_heads_of_mem_flattenAll
  have hvalue := h.connect_distinct (b := f.kind == .and) hheads
  rw [h.connect_flattenAll, ← h.connective d n f args rfl] at hvalue
  simp only [Phrase.reduceConnective]
  split
  next hany =>
    obtain ⟨q, hq, hdecides⟩ := any_eq_true.1 hany
    rw [h.connective d n f args rfl, ← h.connect_flattenAll, h.truth (ofBool _) _ rfl]
    exact (T.connect_eq_not_iff.2 (mem_map.2 ⟨q, hq, h.truth q _ (beq_iff_eq.1 hdecides)⟩)).symm
  next =>
    rw [← hvalue]
    split
    next heq => rw [heq, map_nil, h.truth (ofBool _) _ rfl, T.connect_eq_iff.2 (forall_mem_nil _)]
    next p heq =>
      have hp := mem_of_mem_distinct (heq ▸ mem_cons_self (a := p))
      rw [heq, map_singleton, T.connect_singleton (htruth p hp)]
    next => exact h.connective d _ f _ rfl

end Consistent

/-- What a connective is reduced to: a truth value, a phrase of another kind, or at least two different operands that
are neither. -/
inductive Normal (d : Domain) (f : Operator) : Phrase → Prop
  | truth (b : Bool) : Normal d f (ofBool b)
  | single {p : Phrase} (other : p.heads f.kind = false) : Normal d f p
  | connective {n : Bool} {ps : List Phrase} (several : 2 ≤ ps.length)
      (different : ps.Pairwise fun p q => p.same q = false)
      (operands : ∀ p ∈ ps, p.heads f.kind = false ∧ p.truth? = none)
      (again : reduceConnective d f ps = formula d n f ps) : Normal d f (formula d n f ps)

section Operands

variable {f : Operator} {ps : List Phrase}

lemma reduceConnective_of_normal (d : Domain) (several : 2 ≤ ps.length)
    (different : ps.Pairwise fun p q => p.same q = false)
    (operands : ∀ p ∈ ps, p.heads f.kind = false ∧ p.truth? = none) :
    reduceConnective d f ps = formula d (ps.any (·.nullable)) f ps := by
  have hflat : flattenAll f.kind ps = ps := by
    rw [flattenAll_eq, flatMap_congr fun p hp => flatten_of_not_heads (operands p hp).1, flatMap_singleton']
  have hkept (b : Bool) : ps.filter (·.truth? != some b) = ps :=
    filter_eq_self.2 fun p hp => by simp [(operands p hp).2]
  have hno (b : Bool) : ps.any (·.truth? == some b) = false := any_eq_false.2 fun p hp => by simp [(operands p hp).2]
  have hdistinct : distinct ps = ps := foldl_keep_eq_append _ different
  simp only [reduceConnective, hflat, hno, hkept, hdistinct]
  rcases ps with _ | ⟨p, _ | ⟨q, ps⟩⟩
  · simp at several
  · simp at several
  · rfl

/-- The operands that are kept, if none of them decides. -/
lemma distinct_normal {kind : Kind} {b : Bool} (h : ∀ p ∈ ps, p.heads kind = false) (hno : ¬ps.any (·.truth? == some (!b)) = true) :
    (distinct (ps.filter (·.truth? != some b))).Pairwise (fun p q => p.same q = false) ∧
      ∀ p ∈ distinct (ps.filter (·.truth? != some b)), p.heads kind = false ∧ p.truth? = none := by
  obtain ⟨hsub, -, -, hdifferent⟩ := foldl_keep (fun q p : Phrase => q == p) (ps.filter (·.truth? != some b)) []
  refine ⟨hdifferent .nil, fun p hp => ?_⟩
  obtain ⟨hp, hneutral⟩ := mem_filter.1 (hsub hp)
  have hother := any_eq_false.1 (Bool.eq_false_iff.2 hno) p hp
  refine ⟨h p hp, ?_⟩
  generalize p.truth? = x at *
  rcases x with _ | x
  · rfl
  · cases x <;> cases b <;> simp at *

end Operands

lemma normal_reduceConnective (d : Domain) (f : Operator) (args : List Phrase) : Normal d f (reduceConnective d f args) := by
  simp only [reduceConnective]
  split
  next => exact .truth _
  next hno =>
    obtain ⟨hdifferent, hkept⟩ := distinct_normal not_heads_of_mem_flattenAll hno
    split
    next => exact .truth _
    next p heq => exact .single (hkept p (heq ▸ mem_cons_self)).1
    next hnil hone =>
      have hseveral : 2 ≤ (distinct ((flattenAll f.kind args).filter (·.truth? != some (f.kind == .and)))).length := by
        match distinct ((flattenAll f.kind args).filter (·.truth? != some (f.kind == .and))), hnil, hone with
        | [], h, _ => exact absurd rfl h
        | [p], _, h => exact absurd rfl (h p)
        | _ :: _ :: _, _, _ => simp
      exact .connective hseveral hdifferent hkept (reduceConnective_of_normal d hseveral hdifferent hkept)

section Truth

variable {kind : Kind} {v : Phrase → Option Bool} {p q : Phrase}

lemma truth?_of_same (h : p.same q) : p.truth? = q.truth? := by
  cases p <;> cases q <;> simp only [same, Bool.and_eq_true, Bool.or_eq_true, Bool.false_eq_true] at h <;> try rfl
  next v _ _ w =>
    have hvw : v.alike w := h.2.elim Value.alike_of_beq (·.2)
    cases v <;> cases w <;> simp_all [truth?, Value.alike, Value.sameBy]

lemma truthBy_of_not_heads (h : p.heads kind = false) : p.truthBy kind v = p.truth?.or (v p) := by
  cases p with
  | formula => rw [truthBy, if_neg (by simpa [heads] using h)]; rfl
  | _ => simp [truthBy]

lemma consistent_truthBy (hv : ∀ p q : Phrase, p.same q → v p = v q) : Consistent truths kind (truthBy kind v) where
  connective d n f as hkind := by rw [truthBy, if_pos hkind]
  truth p b h := by
    have hheads : p.heads kind = false := by
      cases p <;> first | rfl | cases h
    rw [truthBy_of_not_heads hheads, h]
    rfl
  same p q hp hq h := by rw [truthBy_of_not_heads hp, truthBy_of_not_heads hq, truth?_of_same h, hv p q h]

end Truth

/-- A connective is reduced to its normal form, which has the same truth whatever the truths of the operands. -/
theorem reduceConnective_normal (d : Domain) (n : Bool) (f : Operator) (args : List Phrase) :
    Normal d f (reduceConnective d f args) ∧ ∀ v : Phrase → Option Bool, (∀ p q : Phrase, p.same q = true → v p = v q) →
      truthBy f.kind v (reduceConnective d f args) = truthBy f.kind v (formula d n f args) := by
  refine ⟨normal_reduceConnective d f args, fun v hv => (consistent_truthBy hv).reduceConnective fun q _ => ?_⟩
  rcases truthBy f.kind v q with _ | _ | _
  · exact .inr (.inr rfl)
  · exact .inr (.inl rfl)
  · exact .inl rfl

/-- A nested chain in which one operand stands twice and another may be null. -/
theorem reduceConnective_normal_nested :
    let a : Phrase := .parameter .boolean "a"
    let chain := [a, ofBool true, .formula .boolean true (.plain .and) [.parameter .boolean "b", a]]
    let v : Phrase → Option Bool := fun
      | .parameter _ name => if name = "a" then some true else none
      | _ => some false
    truthBy .and v (reduceConnective .boolean (.plain .and) chain) = truthBy .and v (.formula .boolean true (.plain .and) chain) :=
  (reduceConnective_normal _ _ (.plain .and) _).2 _ fun p q h => by cases p <;> cases q <;> simp_all [same]

end Phrase

end NavQuery
