import Mathlib.Data.List.Basic

/-!
An element is dropped from a list if one kept before is the same to a comparison.
-/

namespace NavQuery

open List

variable {α : Type}

/-- What is kept comes from the list, stands for each of its elements and has none twice. -/
theorem foldl_keep (same : α → α → Bool) (as kept : List α) :
    let result := as.foldl (fun kept a => if kept.any (same · a) then kept else kept ++ [a]) kept
    result ⊆ kept ++ as ∧ kept ⊆ result ∧ (∀ a ∈ as, ∃ b ∈ result, b = a ∨ same b a) ∧
      (kept.Pairwise (same · · = false) → result.Pairwise (same · · = false)) := by
  induction as generalizing kept with
  | nil => simp
  | cons a as ih =>
    rw [foldl_cons]
    split
    · rename_i hany
      obtain ⟨b, hb, hba⟩ := any_eq_true.1 hany
      obtain ⟨hsub, hkept, hall, hpair⟩ := ih kept
      refine ⟨fun c hc => ?_, hkept, forall_mem_cons.2 ⟨⟨b, hkept hb, .inr hba⟩, hall⟩, hpair⟩
      exact (mem_append.1 (hsub hc)).elim (mem_append_left _) fun hc =>
        mem_append_right _ (mem_cons_of_mem a hc)
    · rename_i hany
      obtain ⟨hsub, hkept, hall, hpair⟩ := ih (kept ++ [a])
      have ha : a ∈ kept ++ [a] := mem_append_right _ mem_cons_self
      rw [append_assoc] at hsub
      refine ⟨hsub, fun c hc => hkept (mem_append_left _ hc),
        forall_mem_cons.2 ⟨⟨a, hkept ha, .inl rfl⟩, hall⟩, fun hp => hpair ?_⟩
      exact pairwise_append.2 ⟨hp, pairwise_singleton .., by simpa using hany⟩

/-- What has no element twice is kept whole. -/
lemma foldl_keep_eq_append (same : α → α → Bool) {kept as : List α}
    (h : (kept ++ as).Pairwise (same · · = false)) :
    as.foldl (fun kept a => if kept.any (same · a) then kept else kept ++ [a]) kept = kept ++ as := by
  induction as generalizing kept with
  | nil => rw [foldl_nil, append_nil]
  | cons a as ih =>
    have hnew : kept.any (same · a) = false := any_eq_false.2 fun b hb => by
      simp [(pairwise_append.1 h).2.2 b hb a mem_cons_self]
    rw [append_cons] at h ⊢
    rw [foldl_cons, hnew]
    exact ih h

/-- Keeping each element once commutes with a function that the comparison does not see. -/
theorem foldl_keep_map {f : α → α} (same : α → α → Bool)
    (h : ∀ a b, same (f a) (f b) = same a b) (as kept : List α) :
    (as.map f).foldl (fun kept a => if kept.any (same · a) then kept else kept ++ [a]) (kept.map f) =
      (as.foldl (fun kept a => if kept.any (same · a) then kept else kept ++ [a]) kept).map f := by
  induction as generalizing kept with
  | nil => rfl
  | cons a as ih =>
    simp only [map_cons, foldl_cons, any_map, Function.comp_def, h]
    split
    · exact ih kept
    · rw [← ih, map_append, map_singleton]

end NavQuery
