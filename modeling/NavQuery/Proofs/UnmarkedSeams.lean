import NavQuery.Proofs.KeptOnce
import NavQuery.Proofs.Outcomes
import NavQuery.Proofs.UnmarkedPaths
import NavQuery.Space.Seam

/-!
The walks that find the order of rows and the equalities by which rows are joined never look at marks
except to pass them on, so they commute with `unmarked`.
-/

namespace NavQuery

open List

namespace Code

lemma unmarkedAll_eq (cs : List Code) : unmarkedAll cs = cs.map unmarked :=
  eq_map_of_cons cs rfl fun _ _ => rfl

lemma unmarkedOrder_eq (os : List OrderItem) :
    unmarkedOrder os = os.map fun i => (i.1.unmarked, i.2) := eq_map_of_cons os rfl fun ⟨_, _⟩ _ => rfl

lemma unmarkedImages_eq (is : List Image) :
    unmarkedImages is = is.map fun i => (i.1.unmarked, i.2.unmarked) :=
  eq_map_of_cons is rfl fun ⟨_, _⟩ _ => rfl

lemma beq_unmarked (c d : Code) : (c.unmarked == d.unmarked) = (c == d) := by
  rw [Bool.eq_iff_iff, beq_iff_unmarked, beq_iff_unmarked, unmarked_unmarked, unmarked_unmarked]

lemma mark_unmarked (c : Code) : c.unmarked.mark = .nowhere := by cases c <;> simp [unmarked, mark]

@[simp] lemma unmarked_ofColumn (c : Column) (s : Space) (m : Mark) :
    (ofColumn c s m).unmarked = ofColumn c s.unmarked .nowhere := by simp [ofColumn, unmarked]

@[simp] lemma unmarked_ofKernel (c : Code) (s : Space) :
    (ofKernel c s).unmarked = ofKernel c.unmarked s.unmarked := by
  simp [ofKernel, unmarked, mark_unmarked]

@[simp] lemma unmarked_ofCovered (c : Code) (s : Space) :
    (ofCovered c s).unmarked = ofCovered c.unmarked s.unmarked := by
  simp [ofCovered, unmarked, mark_unmarked]

@[simp] lemma unmarked_withSpace (c : Code) (s : Space) :
    (c.withSpace s).unmarked = c.unmarked.withSpace s.unmarked := by
  cases c <;> simp [withSpace, unmarked]

lemma space?_unmarked (c : Code) : c.unmarked.space? = c.space?.map Space.unmarked := by
  cases c <;> simp [unmarked, space?]

lemma distinct_unmarked (cs : List Code) : distinct (cs.map unmarked) = (distinct cs).map unmarked :=
  foldl_keep_map (fun d c => d == c) (fun d c => beq_unmarked d c) cs []

mutual

lemma units_unmarked : ∀ c : Code, c.unmarked.units = c.units.map unmarked
  | .missing | .literal _ _ _ | .parameter _ _ _ | .correlation _ _ | .column _ _ _ _ | .single _ _ _ _
  | .aggregate _ _ _ _ _ | .correlated _ _ _ _ | .kernel _ _ _ | .covering _ _ _ => by simp [unmarked, units]
  | .cast _ _ c => by simp [unmarked, units, units_unmarked c]
  | .formula _ _ _ as => by simp [unmarked, units, unitsOfAll_unmarked as, distinct_unmarked]

lemma unitsOfAll_unmarked : ∀ cs : List Code, unitsOfAll (unmarkedAll cs) = (unitsOfAll cs).map unmarked
  | [] => rfl
  | c :: cs => by simp [unmarkedAll, unitsOfAll, units_unmarked c, unitsOfAll_unmarked cs]

end

end Code

namespace Space

section Arrangement

abbrev unmarkedItem (i : OrderItem) : OrderItem := (i.1.unmarked, i.2)

lemma mark_unmarked (s : Space) : s.unmarked.mark = .nowhere := by cases s <;> simp [unmarked, mark]

lemma base?_unmarked (s : Space) : s.unmarked.base? = s.base?.map unmarked := by
  cases s <;> simp [unmarked, base?]

lemma weight_lt_of_family {b s g : Space} {ks : List Code} {f : Family}
    (h : b.family = .quotient s g ks f) : s.weight < b.weight ∧ g.weight < b.weight := by
  have hlighter := lighter_family b
  rw [h] at hlighter
  exact ⟨hlighter.1, hlighter.2.1⟩

/-- Whether a step covers the rows of a seed. -/
def isCovering : Space → Bool
  | complement _ _ _ | moniker _ _ _ _ | forked _ _ _ _ _ | linked _ _ _ _ _ => true
  | _ => false

/-- The seed that a step covers, and its ground. -/
def covered? : Space → Option (Space × Space)
  | complement _ b _ =>
    match b.family with
    | .quotient s g _ _ => some (s, g)
    | _ => none
  | moniker _ b s _ => some (s, monikerGround b s)
  | forked _ _ s _ _ => some (s, s.lastAxis)
  | linked _ b s _ _ => some (s, groundOf b s)
  | _ => none

lemma weight_covered? {s seed ground : Space} (h : s.covered? = some (seed, ground)) :
    seed.weight < s.weight := by
  cases s with
  | complement m b cs =>
    rw [covered?] at h
    split at h <;> cases h
    next hf => exact Nat.lt_succ_of_lt (weight_lt_of_family hf).1
  | moniker | forked | linked =>
    cases h
    simp only [weight]
    omega
  | _ => cases h

lemma isCovering_unmarked (s : Space) : s.unmarked.isCovering = s.isCovering := by
  cases s <;> simp [unmarked, isCovering]

lemma covered?_unmarked (s : Space) :
    s.unmarked.covered? = s.covered?.map fun p => (p.1.unmarked, p.2.unmarked) := by
  cases s with
  | complement m b cs =>
    simp only [unmarked, covered?, family_unmarked]
    cases b.family <;> rfl
  | _ => simp [unmarked, covered?, monikerGround_unmarked, lastAxis_unmarked, groundOf_unmarked]

lemma isGrounded_unmarked (g : Space) (c : Code) : isGrounded g.unmarked c.unmarked = isGrounded g c := by
  rw [isGrounded, isGrounded, base?_unmarked]
  cases g.base? with
  | none => rfl
  | some above =>
    simp only [Option.map_some, Code.units_unmarked, all_map, Function.comp_def,
      Code.space?_unmarked, Option.all_map, spans_unmarked]

lemma coverItems_unmarked (s g : Space) (items : List OrderItem) :
    coverItems s.unmarked g.unmarked (items.map unmarkedItem) =
      (coverItems s g items).map unmarkedItem := by
  simp [coverItems, filter_map, Function.comp_def, isGrounded_unmarked]

lemma distinctItems_unmarked (items : List OrderItem) :
    distinctItems (items.map unmarkedItem) = (distinctItems items).map unmarkedItem :=
  foldl_keep_map (f := unmarkedItem) (fun j i => j.1 == i.1) (fun j i => Code.beq_unmarked j.1 i.1)
    items []

lemma seedItems_unmarked (weak : Bool) (s g : Space) (items : List OrderItem) :
    seedItems weak s.unmarked g.unmarked (items.map unmarkedItem) =
      (seedItems weak s g items).map unmarkedItem := by
  rw [seedItems, seedItems, inflate_unmarked, distinctItems_unmarked, coverItems_unmarked]
  split <;> rfl

lemma kernelItems_unmarked (s : Space) (ks : List Code) :
    kernelItems s.unmarked (Code.unmarkedAll ks) = (kernelItems s ks).map unmarkedItem := by
  simp [kernelItems, Code.unmarkedAll_eq, inflate_unmarked]

lemma rowItems_unmarked (weak : Bool) (t : Table) (s : Space) (items : List OrderItem) :
    rowItems weak t s.unmarked (items.map unmarkedItem) = (rowItems weak t s items).map unmarkedItem := by
  cases weak <;> simp [rowItems, tableItems, inflate_unmarked, mark_unmarked]

def coveredItems (weak : Bool) (space : Space) : List OrderItem :=
  match space.covered? with
  | some (seed, ground) => seedItems weak space ground (arrangeItems true true seed)
  | none => []

lemma arrangeItems_of_isCovering (strong weak : Bool) {s b : Space} (hb : s.base? = some b)
    (h : s.isCovering) :
    arrangeItems strong weak s = arrangeItems strong weak b ++ coveredItems weak s := by
  cases s <;> cases h <;> cases hb <;> rw [arrangeItems, coveredItems, covered?]
  split <;> simp_all

lemma coveredItems_unmarked (weak : Bool) {s : Space} (ih : ∀ t, t.weight < s.weight →
      arrangeItems true true t.unmarked = (arrangeItems true true t).map unmarkedItem) :
    coveredItems weak s.unmarked = (coveredItems weak s).map unmarkedItem := by
  rw [coveredItems, coveredItems, covered?_unmarked]
  cases hc : s.covered? with
  | none => rfl
  | some p => simp only [Option.map_some, ih _ (weight_covered? hc), seedItems_unmarked]

lemma arrangeItems_unmarked (strong weak : Bool) (s : Space) :
    arrangeItems strong weak s.unmarked = (arrangeItems strong weak s).map unmarkedItem := by
  cases s with
  | root m => simp [unmarked, arrangeItems]
  | scalar _ b | filtered _ b _ =>
    have ih := arrangeItems_unmarked strong weak b
    simp only [unmarked, arrangeItems, ih]
  | table _ b _ | fiber _ b _ =>
    have ih := arrangeItems_unmarked strong weak b
    rw [arrangeItems, ← rowItems_unmarked, ← ih]
    simp only [unmarked, arrangeItems]
  | quotient m b s ks cs =>
    have ih := arrangeItems_unmarked strong weak b
    rw [arrangeItems, map_append, ← ih]
    simp only [unmarked, arrangeItems]
    cases weak
    · rfl
    · rw [if_pos rfl, if_pos rfl, ← kernelItems_unmarked, unmarked]
  | complement _ b _ | moniker _ b _ _ | forked _ b _ _ _ | linked _ b _ _ _ =>
    have ih := arrangeItems_unmarked strong weak b
    rw [arrangeItems_of_isCovering _ _ (base?_unmarked _) (isCovering_unmarked _), ih,
      coveredItems_unmarked weak fun t hlt => arrangeItems_unmarked true true t, ← map_append,
      ← arrangeItems_of_isCovering strong weak (by rfl) (by rfl)]
  | ordered m b os l o =>
    have ihstrong := arrangeItems_unmarked true false b
    have ihweak := arrangeItems_unmarked false true b
    simp only [unmarked, arrangeItems, ihstrong, ihweak, Code.unmarkedOrder_eq]
    cases strong <;> cases weak <;> simp
termination_by s.weight
decreasing_by all_goals first | assumption | (simp only [weight]; omega)

lemma arrange_unmarked (s : Space) (strong weak : Bool) :
    s.unmarked.arrange strong weak = (s.arrange strong weak).map unmarkedItem := by
  rw [arrange_eq, arrangeItems_unmarked, distinctItems_unmarked, arrange_eq]

end Arrangement

end Space

def Error.unmarked : Error → Error
  | query problem _ => query problem .nowhere
  | e => e

namespace Result

variable {α β γ : Type}

def unmarked (f : α → β) : Result α → Result β
  | .ok a => .ok (f a)
  | .error e => .error e.unmarked

@[simp] lemma unmarked_pure (f : α → β) (a : α) : unmarked f (pure a : Result α) = pure (f a) := rfl

lemma unmarked_bind {δ : Type} {f : α → β} {g : γ → δ} {x : Result α} {k : α → Result γ}
    {k' : β → Result δ} (h : ∀ a, unmarked g (k a) = k' (f a)) :
    unmarked g (x >>= k) = unmarked f x >>= k' := by
  cases x with
  | error e => rfl
  | ok a => exact h a

lemma unmarked_mapM {f : α → α} {g : β → β} {k : α → Result β} (as : List α)
    (h : ∀ a ∈ as, k (f a) = unmarked g (k a)) :
    (as.map f).mapM k = unmarked (List.map g) (as.mapM k) := by
  induction as with
  | nil => rfl
  | cons a as ih =>
    rw [map_cons, mapM_cons, mapM_cons, h a mem_cons_self, ih fun b hb => h b (mem_cons_of_mem a hb)]
    refine (unmarked_bind (f := g) fun b => ?_).symm
    exact unmarked_bind (f := List.map g) fun bs => rfl

end Result

def Joint.unmarked (j : Joint) : Joint := ⟨j.left.unmarked, j.right.unmarked⟩

namespace Space

section Seams

lemma pluralAxes_unmarked (s g : Space) :
    pluralAxes s.unmarked g.unmarked = (pluralAxes s g).map unmarked := by
  simp only [pluralAxes, inflate_unmarked, ancestors_unmarked, takeWhile_map, Function.comp_def,
    concludes_unmarked, ← map_reverse, filter_map, isContracting_unmarked, beq_unmarked]

lemma tableKey_unmarked (t : Table) (s : Space) (m : Mark) :
    tableKey t s.unmarked .nowhere = Result.unmarked (List.map Code.unmarked) (tableKey t s m) := by
  rw [tableKey, tableKey]
  split
  · rfl
  · simp [Result.unmarked, pure, Except.pure]

def coveredUnits (space : Space) : Result (List Code) :=
  match space.covered? with
  | some (seed, ground) => do
    let units ← (pluralAxes seed ground).mapM keyUnits
    return units.flatten.map (Code.ofCovered · space.inflate)
  | none => pure []

lemma keyUnits_of_isCovering {s : Space} (h : s.isCovering) : keyUnits s = coveredUnits s := by
  cases s <;> cases h <;> rw [keyUnits, coveredUnits, covered?]
  case complement => split <;> simp_all
  all_goals simp

lemma coveredUnits_unmarked {s : Space} (ih : ∀ axis, axis.weight < s.weight →
      keyUnits axis.unmarked = Result.unmarked (List.map Code.unmarked) (keyUnits axis)) :
    coveredUnits s.unmarked = Result.unmarked (List.map Code.unmarked) (coveredUnits s) := by
  rw [coveredUnits, coveredUnits, covered?_unmarked]
  cases hc : s.covered? with
  | none => rfl
  | some p =>
    have hlt := weight_covered? hc
    simp only [Option.map_some, pluralAxes_unmarked]
    rw [Result.unmarked_mapM _ fun axis ha => ih axis (Nat.lt_of_le_of_lt (weight_pluralAxis_le ha) hlt)]
    refine (Result.unmarked_bind fun units => ?_).symm
    simp [inflate_unmarked, Function.comp_def]

lemma baseJoints_complement (m : Mark) (b : Space) (cs : List Code) : baseJoints (complement m b cs) =
      match b.family with
      | .quotient _ g ks _ => do
        let joints ← baseJoints g
        return (joints.map (·.right) ++ ks).map fun c =>
          ⟨Code.ofKernel c b.inflate, Code.ofCovered c (inflate (complement m b cs))⟩
      | _ => pure [] := by
  rw [baseJoints]
  split <;> simp_all

mutual

lemma keyUnits_unmarked (s : Space) :
    keyUnits s.unmarked = Result.unmarked (List.map Code.unmarked) (keyUnits s) := by
  cases s with
  | root _ | scalar _ _ => simp [unmarked, keyUnits]
  | table _ _ _ | fiber _ _ _ =>
    rw [keyUnits, ← tableKey_unmarked, ← inflate_unmarked]
    simp only [unmarked, keyUnits]
  | quotient m b s ks cs =>
    have hlt := weight_groundOf_le b s
    have ih := baseJoints_unmarked (groundOf b s)
    rw [keyUnits, unmarked, keyUnits, groundOf_unmarked, ih]
    refine (Result.unmarked_bind fun joints => ?_).symm
    simp [Function.comp_def, Joint.unmarked, ← inflate_unmarked, unmarked, Code.unmarkedAll_eq]
  | complement | moniker | forked | linked =>
    rw [keyUnits_of_isCovering (isCovering_unmarked _),
      coveredUnits_unmarked fun axis hlt => keyUnits_unmarked axis, keyUnits_of_isCovering rfl]
  | filtered _ b _ | ordered _ b _ _ _ =>
    have ih := keyUnits_unmarked b
    simp only [unmarked, keyUnits, ih]
termination_by s.weight
decreasing_by all_goals first | assumption | (simp only [weight]; omega)

lemma baseJoints_unmarked (s : Space) :
    baseJoints s.unmarked = Result.unmarked (List.map Joint.unmarked) (baseJoints s) := by
  cases s with
  | root _ | scalar _ _ | table _ _ _ => simp [unmarked, baseJoints]
  | fiber m b j =>
    simp [unmarked, baseJoints, Joint.unmarked, inflate_eq, axesOnly_unmarked, axesOnly, Function.comp_def]
  | quotient m b s ks cs =>
    have hlt := weight_groundOf_le b s
    have ih := baseJoints_unmarked (groundOf b s)
    rw [baseJoints, unmarked, baseJoints, groundOf_unmarked, ih]
    refine (Result.unmarked_bind fun joints => ?_).symm
    simp [Function.comp_def, Joint.unmarked, ← inflate_unmarked, unmarked]
  | complement m b cs =>
    rw [baseJoints_complement, unmarked, baseJoints_complement, family_unmarked]
    cases hf : b.family with
    | scalar | table _ => rfl
    | quotient s g ks f =>
      have hlt := weight_lt_of_family hf
      have ih := baseJoints_unmarked g
      simp only [Family.unmarked, ih]
      refine (Result.unmarked_bind fun joints => ?_).symm
      simp [Function.comp_def, Joint.unmarked, ← inflate_unmarked, unmarked, Code.unmarkedAll_eq]
  | moniker m b s cs =>
    have hlt := weight_monikerGround_le b s
    have ihunits := keyUnits_unmarked (monikerGround b s)
    have ihjoints := baseJoints_unmarked (monikerGround b s)
    rw [baseJoints, unmarked, baseJoints, spans_unmarked, monikerGround_unmarked, ihunits, ihjoints]
    split
    · refine (Result.unmarked_bind fun units => ?_).symm
      simp [Function.comp_def, Joint.unmarked, ← inflate_unmarked, unmarked]
    · refine (Result.unmarked_bind fun joints => ?_).symm
      simp [Function.comp_def, Joint.unmarked, ← inflate_unmarked, unmarked]
  | forked m b s ks cs =>
    have ih := baseJoints_unmarked s
    rw [baseJoints, unmarked, baseJoints, ih]
    refine (Result.unmarked_bind fun joints => ?_).symm
    simp [Function.comp_def, Joint.unmarked, ← inflate_unmarked, unmarked, Code.unmarkedAll_eq]
  | linked m b s is cs =>
    simp [unmarked, baseJoints, Joint.unmarked, inflate_eq, axesOnly_unmarked, axesOnly, Function.comp_def, Code.unmarkedImages_eq]
  | filtered _ b _ | ordered _ b _ _ _ =>
    have ih := baseJoints_unmarked b
    simp only [unmarked, baseJoints, ih]
termination_by s.weight
decreasing_by all_goals simp only [weight] <;> omega

end

lemma selfJoints_unmarked (s : Space) :
    s.unmarked.selfJoints = Result.unmarked (List.map Joint.unmarked) s.selfJoints := by
  rw [selfJoints, keyUnits_unmarked]
  refine (Result.unmarked_bind fun units => ?_).symm
  simp [Function.comp_def, Joint.unmarked]

def takenOver (space : Space) (units : Result (List Code)) : Result (List Code) := do
  return (← units).map (·.withSpace space)

/-- A step that takes up another space has the units of that space. -/
theorem takenOver_unmarked (space : Space) {seed : Space}
    (h : exports seed.unmarked = Result.unmarked (List.map Code.unmarked) (exports seed)) :
    takenOver space.unmarked (exports seed.unmarked) =
      Result.unmarked (List.map Code.unmarked) (takenOver space (exports seed)) := by
  rw [h]
  refine (Result.unmarked_bind fun us => ?_).symm
  simp [Function.comp_def]

def coveredExports (space : Space) : Result (List Code) :=
  match space.covered? with
  | some (seed, _) => takenOver space (exports seed.inflate)
  | none => pure []

lemma exports_of_isCovering {s : Space} (h : s.isCovering) : exports s = coveredExports s := by
  cases s <;> cases h <;> rw [exports, coveredExports, covered?]
  case complement => split <;> simp_all [takenOver]
  all_goals rfl

lemma coveredExports_unmarked {s : Space} (ih : ∀ t, t.weight < s.weight →
      exports t.unmarked = Result.unmarked (List.map Code.unmarked) (exports t)) :
    coveredExports s.unmarked = Result.unmarked (List.map Code.unmarked) (coveredExports s) := by
  rw [coveredExports, coveredExports, covered?_unmarked]
  cases hc : s.covered? with
  | none => rfl
  | some p =>
    have hlt := Nat.lt_of_le_of_lt (weight_inflate_le p.1) (weight_covered? hc)
    simp only [Option.map_some, inflate_unmarked, takenOver_unmarked s (ih _ hlt)]

lemma exports_unmarked (s : Space) :
    exports s.unmarked = Result.unmarked (List.map Code.unmarked) (exports s) := by
  cases s with
  | root _ | scalar _ _ => simp [unmarked, exports]
  | table _ _ _ | fiber _ _ _ => simp [unmarked, exports, Function.comp_def]
  | quotient m b s ks cs =>
    rw [exports, unmarked, exports, groundOf_unmarked, baseJoints_unmarked]
    refine (Result.unmarked_bind fun joints => ?_).symm
    simp [Function.comp_def, Joint.unmarked, unmarked, Code.unmarkedAll_eq]
  | complement | moniker | forked | linked =>
    rw [exports_of_isCovering (isCovering_unmarked _),
      coveredExports_unmarked fun t hlt => exports_unmarked t, exports_of_isCovering rfl]
  | filtered m b f =>
    have hunits := takenOver_unmarked (filtered m b f) (exports_unmarked b)
    simpa only [unmarked, exports, takenOver] using hunits
  | ordered m b os l o =>
    have hunits := takenOver_unmarked (ordered m b os l o) (exports_unmarked b)
    simpa only [unmarked, exports, takenOver] using hunits
termination_by s.weight
decreasing_by all_goals first | assumption | (simp only [weight]; omega)

end Seams

end Space

end NavQuery
