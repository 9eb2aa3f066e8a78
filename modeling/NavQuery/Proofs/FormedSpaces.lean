import NavQuery.Proofs.Outcomes
import NavQuery.Proofs.Shows
import NavQuery.Space.Rebuild

/-!
Literals and formulas of a formed code follow the discipline. The stages of planning keep this of every
code inside a space, so what they leave for the next stage can be written.
-/

namespace NavQuery

open List

lemma Domain.eq_of_isBoolean {d : Domain} (h : d.isBoolean) : d = .boolean := by
  cases d with
  | boolean => rfl
  | _ => cases h

namespace Code

def isProper : Code → Bool
  | column _ d c _ => d = c.domain
  | _ => true

lemma isProper_unmarked (c : Code) : c.unmarked.isProper = c.isProper := by
  cases c <;> rfl

variable {c : Code} {d u : Code} {cs : List Code}

lemma isProper_of_beq (h : (c == d)) : c.isProper = d.isProper := by
  rw [← isProper_unmarked c, beq_iff_unmarked.1 h, isProper_unmarked]

lemma domain_unmarked (c : Code) : c.unmarked.domain = c.domain := by
  cases c with
  | missing | literal | parameter | cast | formula | column => rfl
  | correlation _ c | single _ c _ _ | aggregate _ c _ _ _ | correlated _ c _ _ | kernel _ c _
  | covering _ c _ => exact domain_unmarked c

lemma domain_of_beq (h : (c == d)) : c.domain = d.domain := by
  rw [← domain_unmarked c, beq_iff_unmarked.1 h, domain_unmarked]

lemma mem_of_mem_unitsOfAll (h : u ∈ unitsOfAll cs) : ∃ c ∈ cs, u ∈ c.units := by
  induction cs with
  | nil => exact absurd h not_mem_nil
  | cons c cs ih =>
    obtain hu | hu := mem_append.1 (by simpa only [unitsOfAll] using h)
    · exact ⟨c, mem_cons_self, hu⟩
    · exact exists_mem_cons_of_exists (ih hu)

lemma mem_unitsOfAll (hc : c ∈ cs) (hu : u ∈ c.units) : u ∈ unitsOfAll cs := by
  induction cs with
  | nil => exact absurd hc not_mem_nil
  | cons d cs ih =>
    rcases mem_cons.1 hc with rfl | hc
    · exact mem_append_left _ hu
    · exact mem_append_right _ (ih hc)

end Code

variable [Discipline]

mutual

inductive Space.Formed : Space → Prop
  | root {m : Mark} : Space.Formed (.root m)
  | scalar {m : Mark} {b : Space} (hb : b.Formed) : Space.Formed (.scalar m b)
  | table {m : Mark} {b : Space} {t : Table} (hb : b.Formed) : Space.Formed (.table m b t)
  | fiber {m : Mark} {b : Space} {j : Join} (hb : b.Formed) : Space.Formed (.fiber m b j)
  | quotient {m : Mark} {b s : Space} {ks cs : List Code} (hb : b.Formed) (hs : s.Formed)
    (hks : ∀ k ∈ ks, k.Formed) (hcs : ∀ c ∈ cs, c.Formed) : Space.Formed (.quotient m b s ks cs)
  | complement {m : Mark} {b : Space} {cs : List Code} (hb : b.Formed)
    (hcs : ∀ c ∈ cs, c.Formed) : Space.Formed (.complement m b cs)
  | moniker {m : Mark} {b s : Space} {cs : List Code} (hb : b.Formed) (hs : s.Formed)
    (hcs : ∀ c ∈ cs, c.Formed) : Space.Formed (.moniker m b s cs)
  | forked {m : Mark} {b s : Space} {ks cs : List Code} (hb : b.Formed) (hs : s.Formed)
    (hks : ∀ k ∈ ks, k.Formed) (hcs : ∀ c ∈ cs, c.Formed) : Space.Formed (.forked m b s ks cs)
  | linked {m : Mark} {b s : Space} {is : List (Code × Code)} {cs : List Code} (hb : b.Formed)
    (hs : s.Formed) (hleft : ∀ i ∈ is, i.1.Formed) (hright : ∀ i ∈ is, i.2.Formed)
    (hcs : ∀ c ∈ cs, c.Formed) : Space.Formed (.linked m b s is cs)
  | filtered {m : Mark} {b : Space} {f : Code} (hb : b.Formed) (hf : f.Formed) :
    Space.Formed (.filtered m b f)
  | ordered {m : Mark} {b : Space} {os : List (Code × Direction)} {l o : Option Int} (hb : b.Formed)
    (hos : ∀ i ∈ os, i.1.Formed) : Space.Formed (.ordered m b os l o)

inductive Code.Formed : Code → Prop
  | missing (h : Discipline.missing) : Code.Formed .missing
  | literal {m : Mark} {d : Domain} {v : Value} (h : Discipline.literal d v) :
    Code.Formed (.literal m d v)
  | parameter {m : Mark} {d : Domain} {n : Text} : Code.Formed (.parameter m d n)
  | cast {m : Mark} {d : Domain} {c : Code} (hc : c.Formed) : Code.Formed (.cast m d c)
  | formula {m : Mark} {d : Domain} {f : Operator} {as : List Code}
    (hf : Discipline.formula d f (as.map Code.domain)) (has : ∀ a ∈ as, a.Formed) :
    Code.Formed (.formula m d f as)
  | correlation {m : Mark} {c : Code} (hc : c.Formed) : Code.Formed (.correlation m c)
  | column {m : Mark} {d : Domain} {c : Column} {s : Space} (hs : s.Formed) :
    Code.Formed (.column m d c s)
  | single {m : Mark} {c : Code} {s : Space} {cs : List Code} (hc : c.Formed) (hs : s.Formed)
    (hcs : ∀ k ∈ cs, k.Formed) : Code.Formed (.single m c s cs)
  | aggregate {m : Mark} {c : Code} {p s : Space} {cs : List Code} (hc : c.Formed) (hp : p.Formed)
    (hs : s.Formed) (hcs : ∀ k ∈ cs, k.Formed) : Code.Formed (.aggregate m c p s cs)
  | correlated {m : Mark} {c : Code} {p s : Space} (hc : c.Formed) (hp : p.Formed) (hs : s.Formed) :
    Code.Formed (.correlated m c p s)
  | kernel {m : Mark} {c : Code} {s : Space} (hc : c.Formed) (hs : s.Formed) :
    Code.Formed (.kernel m c s)
  | covering {m : Mark} {c : Code} {s : Space} (hc : c.Formed) (hs : s.Formed) :
    Code.Formed (.covering m c s)

end

namespace Code

lemma Formed.units {c u : Code} (h : c.Formed) (hu : u ∈ c.units) : u.Formed := by
  have hunit := h
  cases h with
  | missing _ | literal _ | parameter | correlation _ => simp only [Code.units, not_mem_nil] at hu
  | cast hc => exact hc.units (by simpa only [Code.units] using hu)
  | formula _ has =>
    obtain ⟨a, ha, hu⟩ := mem_of_mem_unitsOfAll ((distinct_spec _).1 (by simpa only [Code.units] using hu))
    exact (has a ha).units hu
  | column _ | single _ _ _ | aggregate _ _ _ _ | correlated _ _ _ | kernel _ _ | covering _ _ =>
    obtain rfl := mem_singleton.1 (by simpa only [Code.units] using hu)
    exact hunit

section Units

variable {u c : Code} (h : u.Formed)
include h

lemma Formed.operand (hc : u.operand? = some c) : c.Formed := by
  cases h <;> simp only [operand?, Option.some.injEq, reduceCtorEq] at hc <;> subst hc <;> assumption

lemma Formed.space {s : Space} (hs : u.space? = some s) : s.Formed := by
  cases h <;> simp only [space?, Option.some.injEq, reduceCtorEq] at hs <;> subst hs <;> assumption

lemma Formed.companions : ∀ c ∈ u.companions, c.Formed := by
  cases h <;> simp only [Code.companions, not_mem_nil, false_implies, implies_true] <;>
    assumption

lemma Formed.withCompanions {cs : List Code} (hcs : ∀ c ∈ cs, c.Formed) :
    (u.withCompanions cs).Formed := by
  have hu := h
  cases h with
  | single hc hs _ => exact .single hc hs hcs
  | aggregate hc hp hs _ => exact .aggregate hc hp hs hcs
  | _ => exact hu

end Units

end Code

namespace Space

variable {s : Space}

lemma Formed.of_base {b : Space} (h : s.Formed) (hb : s.base? = some b) : b.Formed := by
  cases h <;> simp only [base?, Option.some.injEq, reduceCtorEq] at hb <;> subst hb <;> assumption

lemma Formed.of_mem_ancestors {s b : Space} (h : s.Formed) (hb : b ∈ s.ancestors) : b.Formed :=
  forall_mem_ancestors (fun _ _ hb h => h.of_base hb) h b hb

lemma Formed.axesOnly {s : Space} (h : s.Formed) : s.axesOnly.Formed := by
  cases h with
  | root => simpa only [Space.axesOnly] using .root
  | scalar hb => simpa only [Space.axesOnly] using .scalar hb.axesOnly
  | table hb => simpa only [Space.axesOnly] using .table hb.axesOnly
  | fiber hb => simpa only [Space.axesOnly] using .fiber hb.axesOnly
  | quotient hb hs hks hcs => simpa only [Space.axesOnly] using .quotient hb.axesOnly hs hks hcs
  | complement hb hcs => simpa only [Space.axesOnly] using .complement hb.axesOnly hcs
  | moniker hb hs hcs => simpa only [Space.axesOnly] using .moniker hb.axesOnly hs hcs
  | forked hb hs hks hcs => simpa only [Space.axesOnly] using .forked hb.axesOnly hs hks hcs
  | linked hb hs hl hr hcs => simpa only [Space.axesOnly] using .linked hb.axesOnly hs hl hr hcs
  | filtered hb _ | ordered hb _ => simpa only [Space.axesOnly] using hb.axesOnly

lemma Formed.inflate (h : s.Formed) : s.inflate.Formed := by
  rw [inflate_eq]
  exact h.axesOnly

lemma Formed.of_mem_path {s : Space} {p : Step} (h : s.Formed) (hp : p ∈ s.path) : p.space.Formed :=
  h.of_mem_ancestors (space_mem_ancestors hp)

lemma Formed.groundOf (b : Space) (h : s.Formed) : (Space.groundOf b s).Formed := by
  unfold Space.groundOf
  cases hg : groundAbove b.path s.path.reverse with
  | none => exact h
  | some g =>
    obtain ⟨p, hp, rfl⟩ := groundAbove_mem _ _ _ hg
    exact h.of_mem_path (mem_reverse.1 hp)

lemma Formed.lastAxis (h : s.Formed) : s.lastAxis.Formed := by
  unfold Space.lastAxis
  cases hp : s.axesAbove.head? with
  | none => exact h
  | some p => exact h.of_mem_path (mem_path_of_mem_axesAbove (mem_of_mem_head? hp))

lemma Formed.monikerGround (b : Space) (h : s.Formed) : (Space.monikerGround b s).Formed := by
  unfold Space.monikerGround
  split
  · exact h.lastAxis
  · cases hg : groundAbove b.path s.axesAbove with
    | none => exact h.lastAxis
    | some g =>
      obtain ⟨p, hp, rfl⟩ := groundAbove_mem _ _ _ hg
      exact h.of_mem_path (mem_path_of_mem_axesAbove hp)

lemma Formed.companions (h : s.Formed) : ∀ c ∈ s.companions, c.Formed := by
  cases h <;> simp only [Space.companions, not_mem_nil, false_implies, implies_true] <;>
    assumption

lemma Formed.withCompanions {cs : List Code} (h : s.Formed)
    (hcs : ∀ c ∈ cs, c.Formed) : (s.withCompanions cs).Formed := by
  have hspace := h
  cases h with
  | quotient hb hs hks _ => exact .quotient hb hs hks hcs
  | complement hb _ => exact .complement hb hcs
  | moniker hb hs _ => exact .moniker hb hs hcs
  | forked hb hs hks _ => exact .forked hb hs hks hcs
  | linked hb hs hl hr _ => exact .linked hb hs hl hr hcs
  | _ => exact hspace

end Space

namespace Family

def Formed : Family → Prop
  | scalar | table _ => True
  | quotient s g ks f => s.Formed ∧ g.Formed ∧ (∀ k ∈ ks, k.Formed) ∧ f.Formed

variable {f : Family}

lemma Formed.inner (h : f.Formed) : f.inner.Formed := by
  cases f with
  | scalar | table t => exact trivial
  | quotient s g ks f => exact h.2.2.2

lemma Formed.kernels (h : f.Formed) : ∀ k ∈ f.kernels, k.Formed := by
  cases f with
  | scalar | table t => exact nofun
  | quotient s g ks f => exact h.2.2.1

end Family

lemma Space.Formed.family {s : Space} (h : s.Formed) : s.family.Formed := by
  cases h with
  | root | scalar | table | fiber => simp only [Space.family, Family.Formed]
  | quotient hb hs hks hcs =>
    exact ⟨hs, hs.groundOf _, hks, hs.family⟩
  | complement hb hcs => simpa only [Space.family] using hb.family.inner
  | moniker _ hs _ | linked _ hs _ _ _ => simpa only [Space.family] using hs.family
  | forked hb _ _ _ | filtered hb _ | ordered hb _ => simpa only [Space.family] using hb.family

lemma Space.Formed.of_family {b s g : Space} {ks : List Code} {f : Family} (h : b.Formed)
    (hf : b.family = .quotient s g ks f) : s.Formed ∧ g.Formed ∧ ∀ k ∈ ks, k.Formed := by
  have hb := h.family
  rw [hf] at hb
  exact ⟨hb.1, hb.2.1, hb.2.2.1⟩

end NavQuery
