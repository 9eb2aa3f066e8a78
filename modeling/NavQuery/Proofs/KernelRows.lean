import NavQuery.Proofs.Tuples
import NavQuery.Term.OfSpace

/-!
The seed of a quotient is filtered before it is grouped: a row is dropped as soon as one of its kernels
is null.
-/

namespace NavQuery

open List

namespace Store

variable {R V : Type} [DecidableEq R] [DecidableEq V] (D : Store R V) {s : Space} {x : Tuple R}

lemma isTrue_conjunction (mark : Mark) (cs : List Code) :
    D.engine.isTrue (D.value (Term.conjunction mark cs) s x) ↔
      ∀ c ∈ cs, D.engine.isTrue (D.value c s x) := by
  unfold Term.conjunction
  split
  · simp
  · rw [value, values_eq_map, D.engine.isTrue_iff]
    refine D.engine.connect_eq_iff.trans (forall_mem_map.trans ?_)
    simp only [D.engine.isTrue_iff]

lemma isTrue_kernelFilter (mark : Mark) (ks : List Code) :
    D.engine.isTrue (D.value (Term.kernelFilter mark ks) s x) ↔
      ∀ k ∈ ks, D.value k s x ≠ D.engine.null := by
  have hpresent (k : Code) : D.engine.isTrue (D.value
      (.formula k.mark .boolean (.polar .isNull (-1)) [k]) s x) ↔ D.value k s x ≠ D.engine.null := by
    rw [D.engine.isTrue_iff]
    exact D.engine.ofBool_inj.trans (by simp [Operator.isNegative, Operator.polar])
  simp only [Term.kernelFilter, isTrue_conjunction, forall_mem_map, hpresent]

end Store

namespace Term

variable {c : Compiler} {mark : Mark} {ks : List Code} {t kept : Term} {n m : Nat}

lemma exists_of_filterBy {condition : Code} {space : Space} {routes : Routes}
    (h : filterBy t condition space routes n = .ok (kept, m)) :
    ∃ head, kept = .filter head t condition := by
  obtain ⟨p, -, h⟩ := exists_of_bind_eq_ok h
  cases h
  exact ⟨_, rfl⟩

lemma exists_of_groupable (hks : ks ≠ []) (h : groupable c mark ks t n = .ok (kept, m)) :
    ∃ head kid, kept = .filter head kid (kernelFilter mark ks) := by
  rw [groupable, if_neg (by simpa using hks)] at h
  obtain ⟨⟨kid, k⟩, -, h⟩ := exists_of_bind_eq_ok h
  obtain ⟨head, rfl⟩ := exists_of_filterBy h
  exact ⟨head, kid, rfl⟩

variable {R V : Type} [DecidableEq R] [DecidableEq V]

/-- A quotient groups the rows of its seed where no kernel is null, and so does a complement that stands
for it. This is the same as some kernel not being null on all rows but those where some kernels are null
and others are not. -/
theorem kernelFilter_keeps (D : Store R V) (mark : Mark) {ks : List Code} (hks : ks ≠ []) :
    (∀ (c : Compiler) (t kept : Term) (n m : Nat), groupable c mark ks t n = .ok (kept, m) →
      ∃ head kid, kept = .filter head kid (kernelFilter mark ks)) ∧
    (∀ (t kept : Term) (n m : Nat), keptRows true mark ks t n = .ok (kept, m) →
      ∃ head, kept = .filter head t (kernelFilter mark ks)) ∧
    ∀ (s : Space) (x : Tuple R), (D.engine.isTrue (D.value (kernelFilter mark ks) s x) = true ↔
        ∀ k ∈ ks, D.value k s x ≠ D.engine.null) ∧
      ((D.engine.isTrue (D.value (kernelFilter mark ks) s x) = true ↔
          ∃ k ∈ ks, D.value k s x ≠ D.engine.null) ↔
        ¬((∃ k ∈ ks, D.value k s x = D.engine.null) ∧ ∃ k ∈ ks, D.value k s x ≠ D.engine.null)) := by
  refine ⟨fun _ _ _ _ _ => exists_of_groupable hks, fun _ _ _ _ => exists_of_filterBy, fun s x =>
    ⟨D.isTrue_kernelFilter mark ks, ?_⟩⟩
  obtain ⟨k, hk⟩ := exists_mem_of_ne_nil ks hks
  rw [D.isTrue_kernelFilter]
  constructor
  · rintro hiff ⟨⟨l, hl, hnull⟩, hsome⟩
    exact hiff.2 hsome l hl hnull
  · intro hmixed
    refine ⟨fun hall => ⟨k, hk, hall k hk⟩, fun hsome l hl hnull => ?_⟩
    exact hmixed ⟨⟨l, hl, hnull⟩, hsome⟩

/-- A department with a code is dropped if it is not known whether it is open. -/
theorem kernelFilter_keeps_unknown :
    let D := { Sample.store with
      cell := fun r c => if c = Sample.isOpen then none else Sample.store.cell r c }
    let code := Code.ofColumn Sample.departmentCode Sample.departments .nowhere
    let state := Code.ofColumn Sample.isOpen Sample.departments .nowhere
    let x : Tuple Sample.Row := [none, some (false, false)]
    x ∈ D.tuples Sample.departments ∧ D.value code Sample.departments x ≠ D.engine.null ∧
      D.engine.isTrue (D.value (kernelFilter .nowhere [code, state]) Sample.departments x) = false := by
  intro D code state x
  have hstate : D.value state Sample.departments x = D.engine.null := rfl
  have hkeeps := (kernelFilter_keeps D .nowhere (cons_ne_nil code [state])).2.2 Sample.departments x
  refine ⟨by decide, by decide, Bool.eq_false_iff.2 fun h => ?_⟩
  exact hkeeps.1.1 h state (by simp) hstate

end Term

end NavQuery
