import NavQuery.Space.Family

/-!
Bases, seeds, grounds and their inflated forms weigh less than the space, so a walk that follows them
ends. An induction along the bases reaches every space.
-/

namespace NavQuery.Space

def weight : Space → Nat
  | root _ => 1
  | scalar _ b | table _ b _ | fiber _ b _ | complement _ b _ | filtered _ b _ | ordered _ b _ _ _ =>
    weight b + 1
  | quotient _ b s _ _ | moniker _ b s _ | forked _ b s _ _ | linked _ b s _ _ => weight b + weight s + 1

theorem weight_axesOnly_le (s : Space) : s.axesOnly.weight ≤ s.weight := by
  cases s with
  | root => exact Nat.le_refl _
  | scalar _ b | table _ b _ | fiber _ b _ | quotient _ b _ _ _ | complement _ b _ | moniker _ b _ _
  | forked _ b _ _ _ | linked _ b _ _ _ | filtered _ b _ | ordered _ b _ _ _ =>
    have h := weight_axesOnly_le b
    simp only [axesOnly, weight]
    omega

theorem weight_inflate_le (s : Space) : s.inflate.weight ≤ s.weight :=
  s.inflate_eq ▸ weight_axesOnly_le s

theorem weight_base_lt {s b : Space} (h : s.base? = some b) : b.weight < s.weight := by
  cases s <;> simp only [base?, Option.some.injEq, reduceCtorEq] at h <;> simp only [weight, ← h] <;>
    omega

/-- What the roots have, and a space has if its base has it, every space has. -/
@[elab_as_elim]
theorem baseInduction {motive : Space → Prop} (root : ∀ m, motive (root m))
    (step : ∀ s b, s.base? = some b → motive b → motive s) (s : Space) : motive s := by
  cases s with
  | root m => exact root m
  | scalar _ b | table _ b _ | fiber _ b _ | quotient _ b _ _ _ | complement _ b _ | moniker _ b _ _
  | forked _ b _ _ _ | linked _ b _ _ _ | filtered _ b _ | ordered _ b _ _ _ =>
    exact step _ b rfl (baseInduction root step b)

theorem ancestors_eq_cons {s b : Space} (h : s.base? = some b) : s.ancestors = s :: b.ancestors := by
  cases s <;> cases h <;> rw [ancestors]

/-- What passes from a space to its base passes to its ancestors. -/
theorem forall_mem_ancestors {P : Space → Prop} (hP : ∀ s b, s.base? = some b → P s → P b) {s : Space}
    (h : P s) : ∀ t ∈ s.ancestors, P t := by
  induction s using baseInduction with
  | root m => simpa only [ancestors, List.forall_mem_singleton] using h
  | step s b hb ih =>
    rw [ancestors_eq_cons hb]
    exact List.forall_mem_cons.2 ⟨h, ih (hP s b hb h)⟩

theorem weight_ancestor_le (s t : Space) (ht : t ∈ s.ancestors) : t.weight ≤ s.weight :=
  forall_mem_ancestors (fun _ _ hb h => Nat.le_trans (Nat.le_of_lt (weight_base_lt hb)) h) (Nat.le_refl _) t ht

theorem map_space_trail (s : Space) : s.trail.map (·.space) = s.ancestors := by
  induction s using baseInduction with
  | root m => rfl
  | step s b hb ih =>
    rw [ancestors_eq_cons hb, ← ih]
    cases s <;> cases hb <;> rw [trail] <;> rfl

theorem space_mem_ancestors {s : Space} {p : Step} (h : p ∈ s.path) : p.space ∈ s.ancestors :=
  map_space_trail s ▸ List.mem_map_of_mem (List.mem_reverse.1 (s.path_eq ▸ h))

theorem weight_step_le (s : Space) (p : Step) (h : p ∈ s.path) : p.space.weight ≤ s.weight :=
  weight_ancestor_le s _ (space_mem_ancestors h)

theorem groundAbove_mem (base : List Step) :
    ∀ (steps : List Step) (g : Space), groundAbove base steps = some g → ∃ p ∈ steps, p.space = g
  | [], _, h => by simp [groundAbove] at h
  | [s], g, h => ⟨s, by simp, by simpa [groundAbove] using h⟩
  | s :: t :: ss, g, h => by
    rw [groundAbove] at h
    split at h
    · exact ⟨s, by simp, by simpa using h⟩
    · obtain ⟨p, hp, hg⟩ := groundAbove_mem base (t :: ss) g h
      exact ⟨p, List.mem_cons_of_mem _ hp, hg⟩

theorem weight_groundOf_le (b s : Space) : (groundOf b s).weight ≤ s.weight := by
  unfold groundOf
  cases h : groundAbove b.path s.path.reverse with
  | none => exact Nat.le_refl _
  | some g =>
    obtain ⟨p, hp, rfl⟩ := groundAbove_mem _ _ _ h
    exact weight_step_le s p (List.mem_reverse.1 hp)

theorem mem_path_of_mem_axesAbove {s : Space} {p : Step} (h : p ∈ s.axesAbove) : p ∈ s.path :=
  List.mem_reverse.1 ((List.dropWhile_sublist _).mem h)

theorem weight_lastAxis_le (s : Space) : s.lastAxis.weight ≤ s.weight := by
  unfold lastAxis
  cases h : s.axesAbove.head? with
  | none => exact Nat.le_refl _
  | some p => exact weight_step_le s p (mem_path_of_mem_axesAbove (List.mem_of_mem_head? h))

theorem weight_monikerGround_le (b s : Space) : (monikerGround b s).weight ≤ s.weight := by
  unfold monikerGround
  split
  · exact weight_lastAxis_le s
  · cases h : groundAbove b.path s.axesAbove with
    | none => exact weight_lastAxis_le s
    | some g =>
      obtain ⟨p, hp, rfl⟩ := groundAbove_mem _ _ _ h
      exact weight_step_le s p (mem_path_of_mem_axesAbove hp)

def lighter (n : Nat) : Family → Prop
  | .scalar | .table _ => True
  | .quotient s g _ f => s.weight < n ∧ g.weight < n ∧ lighter n f

theorem lighter_mono {m n : Nat} (h : m ≤ n) : ∀ f : Family, lighter m f → lighter n f
  | .scalar, _ | .table _, _ => trivial
  | .quotient _ _ _ f, ⟨hs, hg, hf⟩ =>
    ⟨Nat.lt_of_lt_of_le hs h, Nat.lt_of_lt_of_le hg h, lighter_mono h f hf⟩

theorem lighter_inner {n : Nat} : ∀ f : Family, lighter n f → lighter n f.inner
  | .scalar, _ | .table _, _ => trivial
  | .quotient _ _ _ _, ⟨_, _, hf⟩ => hf

theorem lighter_family (s : Space) : lighter s.weight s.family := by
  cases s with
  | root | scalar | table | fiber => simp [family, lighter]
  | quotient _ b s _ _ =>
    have h := lighter_family s
    have hg := weight_groundOf_le b s
    simp only [family, lighter, weight]
    exact ⟨by omega, by omega, lighter_mono (by omega) _ h⟩
  | complement _ b _ =>
    have h := lighter_family b
    simp only [family, weight]
    exact lighter_mono (by omega) _ (lighter_inner _ h)
  | moniker _ b s _ | linked _ b s _ _ =>
    have h := lighter_family s
    simp only [family, weight]
    exact lighter_mono (by omega) _ h
  | forked _ b _ _ _ | filtered _ b _ | ordered _ b _ _ _ =>
    have h := lighter_family b
    simp only [family, weight]
    exact lighter_mono (by omega) _ h

end NavQuery.Space
