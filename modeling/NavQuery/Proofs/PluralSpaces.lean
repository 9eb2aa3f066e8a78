import NavQuery.Proofs.SpanningLaws
import NavQuery.Segment.Denotation

/-!
Where the steps of spaces are contracting and expanding by themselves, dominating is transitive. Then the
spaces of an operand that no other one dominates are found in any order.
-/

namespace NavQuery

open List

namespace Space

/-- Steps of the one path are matched in order with alike steps of the other. Between them the other path
has steps that only drop rows; behind them the one path expands and the other contracts. -/
inductive Covers : List Step → List Step → Prop
  | rest {ps qs : List Step} (hps : ∀ p ∈ ps, p.expanding) (hqs : ∀ q ∈ qs, q.contracting) : Covers ps qs
  | step {p q : Step} {ps qs : List Step} (hpq : p.resembles q) (hc : p.contracting = q.contracting)
      (he : p.expanding = q.expanding) (h : Covers ps qs) : Covers (p :: ps) (q :: qs)
  | skip {q : Step} {ps qs : List Step} (haxis : q.axis = false) (hq : q.contracting) (h : Covers ps qs) :
    Covers ps (q :: qs)

/-- Steps that resemble each other are contracting or expanding alike. -/
def Consonant (ps qs : List Step) : Prop :=
  ∀ p ∈ ps, ∀ q ∈ qs, p.resembles q → p.contracting = q.contracting ∧ p.expanding = q.expanding

section Steps

variable {p q : Step} {ps qs rs : List Step}

lemma Consonant.skip (h : Consonant ps (q :: qs)) : Consonant ps qs :=
  fun p hp => (forall_mem_cons.1 (h p hp)).2

lemma Consonant.tail (h : Consonant (p :: ps) (q :: qs)) : Consonant ps qs :=
  Consonant.skip (forall_mem_cons.1 h).2

lemma covers_of_dominatesSteps (hc : Consonant ps qs) (h : dominatesSteps ps qs) : Covers ps qs := by
  fun_induction dominatesSteps ps qs with
  | case1 p ps q qs hpq ih =>
    obtain ⟨hcontracting, hexpanding⟩ := hc p mem_cons_self q mem_cons_self hpq
    exact .step hpq hcontracting hexpanding (ih hc.tail h)
  | case2 p ps q qs hpq hdrop ih =>
    obtain ⟨haxis, hq⟩ := Bool.and_eq_true_iff.1 hdrop
    exact .skip (by simpa using haxis) hq (ih hc.skip h)
  | case3 _ _ _ _ _ _ | case4 _ _ _ =>
    obtain ⟨hps, hqs⟩ := Bool.and_eq_true_iff.1 h
    exact .rest (all_eq_true.1 hps) (all_eq_true.1 hqs)

/-- A match of a step that only drops rows may be given up. -/
theorem Covers.of_cons (h : Covers (p :: ps) qs) (haxis : p.axis = false) (hp : p.contracting) :
    Covers ps qs := by
  generalize hcons : p :: ps = ps' at h
  induction h with
  | rest hps hqs =>
    subst hcons
    exact .rest (forall_mem_cons.1 hps).2 hqs
  | step hpq hc _ h _ =>
    cases hcons
    exact .skip ((isAxis_of_resembles hpq).symm.trans haxis) (hc ▸ hp) h
  | skip hskip hq _ ih => exact .skip hskip hq (ih hcons)

lemma Covers.contracting (h : Covers ps qs) (hps : ∀ p ∈ ps, p.contracting) :
    ∀ q ∈ qs, q.contracting := by
  induction h with
  | rest _ hqs => exact hqs
  | step _ hc _ _ ih =>
    obtain ⟨hp, hps⟩ := forall_mem_cons.1 hps
    exact forall_mem_cons.2 ⟨hc ▸ hp, ih hps⟩
  | skip _ hq _ ih => exact forall_mem_cons.2 ⟨hq, ih hps⟩

lemma Covers.expanding (h : Covers ps qs) (hqs : ∀ q ∈ qs, q.expanding) : ∀ p ∈ ps, p.expanding := by
  induction h with
  | rest hps _ => exact hps
  | step _ _ he _ ih =>
    obtain ⟨hq, hqs⟩ := forall_mem_cons.1 hqs
    exact forall_mem_cons.2 ⟨he ▸ hq, ih hqs⟩
  | skip _ _ _ ih => exact ih (forall_mem_cons.1 hqs).2

/-- The greedy walk finds a match if there is one. -/
theorem dominatesSteps_of_covers (hc : Consonant ps qs) (h : Covers ps qs) : dominatesSteps ps qs := by
  fun_induction dominatesSteps ps qs with
  | case1 p ps q qs hpq ih =>
    refine ih hc.tail ?_
    cases h with
    | rest hps hqs => exact .rest (forall_mem_cons.1 hps).2 (forall_mem_cons.1 hqs).2
    | step _ _ _ h => exact h
    | skip haxis hq h =>
      have hp := (hc p mem_cons_self q mem_cons_self hpq).1
      exact h.of_cons ((isAxis_of_resembles hpq).trans haxis) (hp ▸ hq)
  | case2 p ps q qs hpq hdrop ih =>
    refine ih hc.skip ?_
    cases h with
    | rest hps hqs => exact .rest hps (forall_mem_cons.1 hqs).2
    | step hres _ _ _ => exact absurd hres hpq
    | skip _ _ h => exact h
  | case3 p ps q qs hpq hdrop =>
    cases h with
    | rest hps hqs => exact Bool.and_eq_true_iff.2 ⟨all_eq_true.2 hps, all_eq_true.2 hqs⟩
    | step hres _ _ _ => exact absurd hres hpq
    | skip haxis hq _ => exact absurd (by simp [haxis, hq]) hdrop
  | case4 ps qs hends =>
    rw [Bool.and_eq_true_iff, all_eq_true, all_eq_true]
    cases ps with
    | nil => exact ⟨forall_mem_nil _, h.contracting (forall_mem_nil _)⟩
    | cons p ps =>
      cases qs with
      | nil => exact ⟨h.expanding (forall_mem_nil _), forall_mem_nil _⟩
      | cons q qs => exact (hends _ _ _ _ rfl rfl).elim

lemma Covers.trans (h : Covers ps qs) (k : Covers qs rs) : Covers ps rs := by
  induction k generalizing ps with
  | rest hqs hrs => exact .rest (h.expanding hqs) hrs
  | skip haxis hr _ ih => exact .skip haxis hr (ih h)
  | step hres hc he k ih =>
    cases h with
    | rest hps hqs => exact .rest hps (Covers.contracting (.step hres hc he k) hqs)
    | step hpq hc' he' h => exact .step (resembles_trans hpq hres) (hc'.trans hc) (he'.trans he) (ih h)
    | skip haxis hq h => exact .skip ((isAxis_of_resembles hres).symm.trans haxis) (hc ▸ hq) (ih h)

end Steps

/-- Spaces whose steps are contracting and expanding by themselves: the rows of a seed are not taken up
again, and a quotient has kernels. -/
def IsUniform : Space → Prop
  | root _ => True
  | scalar _ b | table _ b _ | fiber _ b _ | complement _ b _ | linked _ b _ _ _ | filtered _ b _
  | ordered _ b _ _ _ => b.IsUniform
  | quotient _ b _ ks _ => ks ≠ [] ∧ b.IsUniform
  | moniker _ _ _ _ | forked _ _ _ _ _ => False

section Uniform

variable {s t u : Space}

lemma IsUniform.base {b : Space} (h : s.IsUniform) (hb : s.base? = some b) : b.IsUniform := by
  cases s <;> cases hb <;> first | exact h | exact h.2 | exact h.elim

lemma IsUniform.exists_of_mem_path (s : Space) (h : s.IsUniform) {p : Step} (hp : p ∈ s.path) :
    ∃ x : Space, x.IsUniform ∧ p = x.ownStep := by
  rw [path_eq_map_line] at hp
  obtain ⟨x, hx, rfl⟩ := mem_map.1 hp
  exact ⟨x, forall_mem_ancestors (fun _ _ hb h => h.base hb) h x (mem_reverse.1 hx), rfl⟩

lemma IsUniform.flags_of_resembles (hs : s.IsUniform) (ht : t.IsUniform) (h : s.resembles t) :
    s.isContracting = t.isContracting ∧ s.isExpanding = t.isExpanding := by
  cases s <;> cases t <;> simp only [resembles, Bool.false_eq_true] at h
  case moniker.moniker | forked.forked => exact hs.elim
  case quotient.quotient =>
    have hks := isEmpty_eq_false_iff.2 hs.1
    have hls := isEmpty_eq_false_iff.2 ht.1
    simp [isContracting, isExpanding, path_eq, trail, hks, hls]
  case fiber.fiber =>
    simp [isContracting, isExpanding, path_eq, trail, eq_of_beq h]
  case ordered.ordered =>
    simp only [Bool.and_eq_true, beq_iff_eq] at h
    simp [isContracting, isExpanding, path_eq, trail, h.1.1, h.1.2]
  all_goals simp [isContracting, isExpanding, path_eq, trail]

lemma IsUniform.consonant (hs : s.IsUniform) (ht : t.IsUniform) : Consonant s.path t.path := by
  intro p hp q hq hpq
  obtain ⟨x, hx, rfl⟩ := exists_of_mem_path s hs hp
  obtain ⟨y, hy, rfl⟩ := exists_of_mem_path t ht hq
  exact hx.flags_of_resembles hy hpq

lemma dominates_refl (s : Space) : s.dominates s := by
  have hself : ∀ ps : List Step, dominatesSteps ps ps := by
    intro ps
    induction ps with
    | nil => rfl
    | cons p ps ih =>
      have hp : p.resembles p := resembles_refl p.space
      rw [dominatesSteps, if_pos hp, ih]
  exact hself s.path

lemma dominates_trans (hs : s.IsUniform) (ht : t.IsUniform) (hu : u.IsUniform) (h : s.dominates t)
    (k : t.dominates u) : s.dominates u :=
  dominatesSteps_of_covers (hs.consonant hu)
    ((covers_of_dominatesSteps (hs.consonant ht) h).trans (covers_of_dominatesSteps (ht.consonant hu) k))

end Uniform

/-- Some of the spaces, none of which dominates another, that dominate all of them. -/
structure IsFront (ss front : List Space) : Prop where
  subset : front ⊆ ss
  dominates : ∀ s ∈ ss, ∃ t ∈ front, t.dominates s
  apart : front.Pairwise fun s t => s.dominates t = false ∧ t.dominates s = false

section Front

variable {ss ts front other : List Space} {s t : Space}

lemma IsFront.addMaximal (hu : ∀ t ∈ ss ++ [s], t.IsUniform) (h : IsFront ss front) :
    IsFront (ss ++ [s]) (addMaximal front s) := by
  obtain ⟨huss, hus⟩ := forall_mem_append.1 hu
  have hus := hus s mem_cons_self
  unfold Space.addMaximal
  split
  next hany =>
    refine ⟨fun t ht => mem_append_left _ (h.subset ht), ?_, h.apart⟩
    refine forall_mem_append.2 ⟨h.dominates, forall_mem_singleton.2 ?_⟩
    simpa using hany
  next hnone =>
    have hnone : ∀ t ∈ front, t.dominates s = false := by simpa using hnone
    refine ⟨?_, ?_, ?_⟩
    · refine append_subset.2 ⟨fun t ht => ?_, fun t ht => mem_append_right _ ht⟩
      exact mem_append_left _ (h.subset (mem_of_mem_filter ht))
    · refine forall_mem_append.2 ⟨fun t ht => ?_, forall_mem_singleton.2 ⟨s, by simp, dominates_refl s⟩⟩
      obtain ⟨c, hc, hct⟩ := h.dominates t ht
      cases hsc : s.dominates c with
      | false => exact ⟨c, mem_append_left _ (mem_filter.2 ⟨hc, by simp [hsc]⟩), hct⟩
      | true =>
        exact ⟨s, by simp, dominates_trans hus (huss c (h.subset hc)) (huss t ht) hsc hct⟩
    · refine pairwise_append.2 ⟨h.apart.sublist filter_sublist, pairwise_singleton _ _, ?_⟩
      intro c hc d hd
      obtain rfl := mem_singleton.1 hd
      obtain ⟨hc, hdc⟩ := mem_filter.1 hc
      exact ⟨hnone c hc, by simpa using hdc⟩

lemma IsFront.foldl (hu : ∀ t ∈ ss ++ ts, t.IsUniform) (h : IsFront ss front) :
    IsFront (ss ++ ts) (ts.foldl Space.addMaximal front) := by
  induction ts generalizing ss front with
  | nil => rwa [append_nil]
  | cons t ts ih =>
    rw [append_cons] at hu ⊢
    exact ih hu (h.addMaximal fun u hmem => hu u (mem_append_left ts hmem))

lemma isFront_maximal (hu : ∀ s ∈ ss, s.IsUniform) : IsFront ss (maximal ss) := by
  have hempty : IsFront [] [] := ⟨nil_subset _, forall_mem_nil _, .nil⟩
  exact hempty.foldl hu

lemma IsFront.of_perm (h : IsFront ss front) (hp : ss.Perm ts) : IsFront ts front :=
  ⟨fun _ ht => hp.subset (h.subset ht), fun s hs => h.dominates s (hp.symm.subset hs), h.apart⟩

/-- If one space of a front dominates all spaces, every front has one space, up to conformity the same. -/
theorem IsFront.singleton (hu : ∀ s ∈ ss, s.IsUniform) (h : IsFront ss [t]) (k : IsFront ss other) :
    ∃ u, other = [u] ∧ t.conforms u := by
  have ht : t ∈ ss := h.subset mem_cons_self
  have hall : ∀ u ∈ other, t.dominates u := fun u hu' => by
    simpa using h.dominates u (k.subset hu')
  obtain ⟨u, hother, hut⟩ := k.dominates t ht
  have hsame : ∀ v ∈ other, u.dominates v := fun v hv =>
    dominates_trans (hu u (k.subset hother)) (hu t ht) (hu v (k.subset hv)) hut (hall v hv)
  refine ⟨u, ?_, Bool.and_eq_true_iff.2 ⟨hall u hother, hut⟩⟩
  match other, hother, k.apart with
  | [v], hv, _ => rw [mem_singleton.1 hv]
  | v :: w :: rest, hv, hapart =>
    obtain ⟨hfirst, -⟩ := pairwise_cons.1 hapart
    obtain rfl | hv := mem_cons.1 hv
    · exact absurd (hsame w (by simp)) (by simp [hfirst w mem_cons_self])
    · exact absurd (hsame v mem_cons_self) (by simp [hfirst u hv])

lemma IsFront.nil (h : IsFront ss []) (k : IsFront ss other) : other = [] :=
  eq_nil_iff_forall_not_mem.2 fun t ht => by simpa using h.dominates t (k.subset ht)

end Front

/-- The plural space of an operand does not depend on the order of its units: there is none for the same
reason, or the two conform. It dominates the spaces of all units that are plural, and it is plural itself. -/
theorem pluralOf_perm {c d : Code} (hc : ∀ u ∈ c.units, ∀ t ∈ u.space?, t.IsUniform)
    (h : c.units.Perm d.units) (s : Space) (mark : Mark) :
    ((∃ e, s.pluralOf c mark = .error e ∧ s.pluralOf d mark = .error e) ∨
      ∃ p q, s.pluralOf c mark = .ok p ∧ s.pluralOf d mark = .ok q ∧ p.conforms q = true) ∧
    ∀ p, s.pluralOf c mark = .ok p →
      (∀ u ∈ c.units, ∀ t ∈ u.space?, s.spans t = false → p.dominates t = true) ∧
        p.spans s = true ∧ s.spans p = false := by
  have huniform : ∀ t ∈ (c.units.filterMap (·.space?)).filter (!s.spans ·), t.IsUniform := by
    intro t ht
    obtain ⟨u, hu, hut⟩ := mem_filterMap.1 (mem_of_mem_filter ht)
    exact hc u hu t hut
  have hperm := (h.filterMap (·.space?)).filter (!s.spans ·)
  have hfront := isFront_maximal huniform
  have hother := (isFront_maximal fun t ht => huniform t (hperm.symm.subset ht)).of_perm hperm.symm
  unfold pluralOf
  generalize maximal ((d.units.filterMap (·.space?)).filter (!s.spans ·)) = other at hother
  generalize maximal ((c.units.filterMap (·.space?)).filter (!s.spans ·)) = front at hfront
  match front, hfront with
  | [], hfront =>
    rw [hfront.nil hother]
    exact ⟨.inl ⟨_, rfl, rfl⟩, nofun⟩
  | [p], hfront =>
    obtain ⟨q, rfl, hpq⟩ := hfront.singleton huniform hother
    obtain ⟨hpq', hqp'⟩ := Bool.and_eq_true_iff.1 hpq
    have hspans : p.spans s = q.spans s := by
      rw [Bool.eq_iff_iff]
      exact ⟨spans_trans (spans_of_dominates hqp'), spans_trans (spans_of_dominates hpq')⟩
    obtain ⟨-, hplural⟩ := mem_filter.1 (hfront.subset mem_cons_self)
    refine ⟨?_, fun p' hp' => ?_⟩
    · dsimp only
      rw [← hspans]
      split
      · exact .inr ⟨p, q, rfl, rfl, hpq⟩
      · exact .inl ⟨_, rfl, rfl⟩
    · dsimp only at hp'
      split at hp'
      next hps =>
        cases hp'
        refine ⟨fun u hu t ht hst => ?_, hps, by simpa using hplural⟩
        have := hfront.dominates t (mem_filter.2 ⟨mem_filterMap.2 ⟨u, hu, ht⟩, by simp [hst]⟩)
        simpa using this
      next => cases hp'
  | p :: p' :: rest, hfront =>
    refine ⟨.inl ⟨_, rfl, ?_⟩, nofun⟩
    match other, hother with
    | [], hother => cases hother.nil hfront
    | [q], hother =>
      obtain ⟨_, heq, -⟩ := hother.singleton huniform hfront
      cases heq
    | q :: q' :: rest', _ => rfl

/-- The departments conform to the schools behind them; which of the two is found is up to the order. -/
theorem pluralOf_perm_schools :
    let department := Code.ofColumn Sample.departmentCode Sample.departments .nowhere
    let school := Code.ofColumn Sample.schoolCode Sample.schools .nowhere
    let operand (units : List Code) : Code := .formula .nowhere .integer (.plain .count) units
    (Space.root .nowhere).pluralOf (operand [department, school]) .nowhere = .ok Sample.departments ∧
    (Space.root .nowhere).pluralOf (operand [school, department]) .nowhere = .ok Sample.schools ∧
    Sample.departments.conforms Sample.schools = true := by
  intro department school operand
  have hperm : (operand [department, school]).units.Perm (operand [school, department]).units :=
    .swap school department []
  have huniform : ∀ u ∈ (operand [department, school]).units, ∀ t ∈ u.space?, t.IsUniform := by
    refine forall_mem_cons.2 ⟨?_, forall_mem_singleton.2 ?_⟩ <;> rintro _ ⟨⟩ <;> trivial
  obtain ⟨⟨e, he, -⟩ | ⟨p, q, hp, hq, hpq⟩, -⟩ := pluralOf_perm huniform hperm (.root .nowhere) .nowhere
  · cases he
  · cases hp
    cases hq
    exact ⟨rfl, rfl, hpq⟩

end Space

end NavQuery
