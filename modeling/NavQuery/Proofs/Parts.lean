import NavQuery.Proofs.Outcomes
import NavQuery.Proofs.Shows
import NavQuery.Segment.Simplify

/-!
A space is made of a base, of seeds and of codes, and a code of codes and spaces. What occurs inside a
space or code at any depth is one of its parts, companions included. The units that are collected from a
segment are parts of it.
-/

namespace NavQuery

open List

lemma sizeOf_pair_lt {α β : Type} [SizeOf α] [SizeOf β] {a : α} {b : β} {l : List (α × β)}
    (h : (a, b) ∈ l) : sizeOf a + sizeOf b < sizeOf l := by
  have hlt := sizeOf_lt_of_mem h
  rw [Prod.mk.sizeOf_spec] at hlt
  omega

inductive Part
  | space (s : Space)
  | code (c : Code)

namespace Part

/-- What a space or code is made of, except for its companions. -/
def core : Part → List Part
  | space (.root _) | code .missing | code (.literal _ _ _) | code (.parameter _ _ _) => []
  | space (.scalar _ s) | space (.table _ s _) | space (.fiber _ s _) | space (.complement _ s _)
  | code (.column _ _ _ s) => [space s]
  | space (.quotient _ b s ks _) | space (.forked _ b s ks _) => space b :: space s :: ks.map code
  | space (.moniker _ b s _) => [space b, space s]
  | space (.linked _ b s is _) => space b :: space s :: (is.map (code ·.1) ++ is.map (code ·.2))
  | space (.filtered _ b f) => [space b, code f]
  | space (.ordered _ b os _ _) => space b :: os.map (code ·.1)
  | code (.cast _ _ c) | code (.correlation _ c) => [code c]
  | code (.formula _ _ _ as) => as.map code
  | code (.single _ c s _) | code (.kernel _ c s) | code (.covering _ c s) => [code c, space s]
  | code (.aggregate _ c p s _) | code (.correlated _ c p s) => [code c, space p, space s]

def companions : Part → List Code
  | space s => s.companions
  | code c => c.companions

/-- A property of all that a space or code is made of. -/
def Made (P : Part → Prop) : Part → Prop
  | space (.root _) | code .missing | code (.literal _ _ _) | code (.parameter _ _ _) => True
  | space (.scalar _ s) | space (.table _ s _) | space (.fiber _ s _) | space (.complement _ s _)
  | code (.column _ _ _ s) => P (space s)
  | space (.quotient _ b s ks _) | space (.forked _ b s ks _) =>
    P (space b) ∧ P (space s) ∧ ∀ k ∈ ks, P (code k)
  | space (.moniker _ b s _) => P (space b) ∧ P (space s)
  | space (.linked _ b s is _) => P (space b) ∧ P (space s) ∧ ∀ i ∈ is, P (code i.1) ∧ P (code i.2)
  | space (.filtered _ b f) => P (space b) ∧ P (code f)
  | space (.ordered _ b os _ _) => P (space b) ∧ ∀ o ∈ os, P (code o.1)
  | code (.cast _ _ c) | code (.correlation _ c) => P (code c)
  | code (.formula _ _ _ as) => ∀ a ∈ as, P (code a)
  | code (.single _ c s _) | code (.kernel _ c s) | code (.covering _ c s) => P (code c) ∧ P (space s)
  | code (.aggregate _ c p s _) | code (.correlated _ c p s) =>
    P (code c) ∧ P (space p) ∧ P (space s)

lemma made_iff {P : Part → Prop} {a : Part} : a.Made P ↔ ∀ b ∈ a.core, P b := by
  rcases a with s | c
  · cases s <;> simp [core, Made, forall_mem_append, forall_mem_map, forall_and, -mem_map, -mem_append]
  · cases c <;> simp [core, Made]

lemma sizeOf_core (a : Part) : ∀ b ∈ a.core, sizeOf b < sizeOf a := by
  rw [← made_iff]
  rcases a with s | c
  · cases s <;> simp only [Made] <;> grind [→ sizeOf_lt_of_mem]
  · cases c <;> simp only [Made] <;> grind [→ sizeOf_lt_of_mem]

/-- What holds of a space or code if it holds of all that this is made of, where something is given of the
whole and with it of the parts. -/
theorem induction {given P : Part → Prop} (hcore : ∀ {a}, given a → a.Made given)
    (h : ∀ a : Part, given a → a.Made P → P a) {a : Part} (ha : given a) : P a :=
  h a ha (made_iff.2 fun b hb =>
    have := sizeOf_core a b hb
    induction hcore h (made_iff.1 (hcore ha) b hb))
termination_by sizeOf a

theorem recursion {P : Part → Prop} (h : ∀ a : Part, a.Made P → P a) (a : Part) : P a :=
  @induction (fun _ => True) P (fun _ => made_iff.2 fun _ _ => trivial) (fun a _ => h a) a trivial

inductive Inside (a : Part) : Part → Prop
  | self : Inside a a
  | core {b c : Part} (hc : c ∈ b.core) (h : Inside a c) : Inside a b
  | companion {b : Part} {k : Code} (hk : k ∈ b.companions) (h : Inside a (code k)) : Inside a b

variable {P : Part → Prop} {a b c : Part}

lemma Inside.trans (hab : a.Inside b) (hbc : b.Inside c) : a.Inside c := by
  induction hbc with
  | self => exact hab
  | core hc _ ih => exact .core hc ih
  | companion hk _ ih => exact .companion hk ih

/-- A property of all that is inside. -/
def Each (P : Part → Prop) (b : Part) : Prop := ∀ a, a.Inside b → P a

lemma Each.self (h : b.Each P) : P b := h b .self

lemma Each.inside (h : b.Each P) (hab : a.Inside b) : a.Each P := fun c hc => h c (hc.trans hab)

lemma Each.made (h : b.Each P) : b.Made (Each P) := made_iff.2 fun _ hc => h.inside (.core hc .self)

lemma Each.companions (h : b.Each P) : ∀ k ∈ b.companions, (code k).Each P :=
  fun _ hk => h.inside (.companion hk .self)

lemma Each.of_made (hb : P b) (hmade : b.Made (Each P)) (hcompanions : ∀ k ∈ b.companions, (code k).Each P) :
    b.Each P := by
  intro a ha
  cases ha with
  | self => exact hb
  | core hc h => exact made_iff.1 hmade _ hc a h
  | companion hk h => exact hcompanions _ hk a h

end Part

/-- The kernels of a family and of the families behind it. -/
def Family.allKernels : Family → List Code
  | scalar | table _ => []
  | quotient _ _ ks f => ks ++ f.allKernels

section Kernels

variable {given : Part → Prop} (hcore : ∀ {a : Part}, given a → a.Made given)
include hcore

lemma Space.given_allKernels {s : Space} (h : given (.space s)) : ∀ k ∈ s.family.allKernels, given (.code k) := by
  have hmade := hcore h
  cases s with
  | root | scalar | table | fiber => exact forall_mem_nil _
  | quotient => exact forall_mem_append.2 ⟨hmade.2.2, given_allKernels hmade.2.1⟩
  | complement _ b _ =>
    have hb := given_allKernels hmade
    rw [family]
    cases hf : b.family with
    | scalar | table => exact forall_mem_nil _
    | quotient =>
      rw [hf] at hb
      exact (forall_mem_append.1 hb).2
  | moniker => simpa only [family] using given_allKernels hmade.2
  | linked => simpa only [family] using given_allKernels hmade.2.1
  | forked | filtered | ordered => simpa only [family] using given_allKernels hmade.1

lemma Space.given_kernels {s : Space} (h : given (.space s)) : ∀ k ∈ s.family.kernels, given (.code k) := by
  have hs := given_allKernels hcore h
  cases hf : s.family with
  | scalar | table => exact forall_mem_nil _
  | quotient =>
    rw [hf] at hs
    exact (forall_mem_append.1 hs).1

end Kernels

section Collect

variable {P : Code → Prop}

structure Collected.All (P : Code → Prop) (c : Collected) : Prop where
  units : ∀ u ∈ c.units, P u
  kernels : ∀ ks ∈ c.kernels, ∀ u ∈ ks, P u

lemma Code.forall_distinct {cs : List Code} (h : ∀ c ∈ cs, P c) : ∀ c ∈ distinct cs, P c :=
  fun c hc => h c ((distinct_spec cs).1 hc)

lemma Collected.All.step {own : List Code} {base : Collected} {kernels : List (List Code)}
    (ho : ∀ u ∈ own, P u) (hb : base.All P) (hk : ∀ ks ∈ kernels, ∀ u ∈ ks, P u) :
    (Collected.step own base kernels).All P where
  units := by
    unfold Collected.step
    split
    · exact hb.units
    · exact Code.forall_distinct (forall_mem_append.2 ⟨ho, hb.units⟩)
  kernels := hk

lemma Code.forall_collectAll {cs : List Code} (h : ∀ c ∈ cs, ∀ u ∈ c.collect, P u) : ∀ u ∈ collectAll cs, P u := by
  induction cs with
  | nil => exact nofun
  | cons c cs ih =>
    rw [forall_mem_cons] at h
    exact forall_distinct (forall_mem_append.2 ⟨h.1, ih h.2⟩)

lemma Code.forall_collectImages {is : List Image}
    (h : ∀ i ∈ is, (∀ u ∈ i.1.collect, P u) ∧ ∀ u ∈ i.2.collect, P u) : ∀ u ∈ collectImages is, P u := by
  induction is with
  | nil => exact nofun
  | cons i is ih =>
    obtain ⟨a, b⟩ := i
    rw [forall_mem_cons] at h
    exact forall_distinct (forall_mem_append.2 ⟨forall_mem_append.2 h.1, ih h.2⟩)

lemma Code.forall_collectOrder {os : List OrderItem} (h : ∀ o ∈ os, ∀ u ∈ o.1.collect, P u) :
    ∀ u ∈ collectOrder os, P u := by
  induction os with
  | nil => exact nofun
  | cons o os ih =>
    obtain ⟨c, d⟩ := o
    rw [forall_mem_cons] at h
    exact forall_distinct (forall_mem_append.2 ⟨h.1, ih h.2⟩)

/-- A property of all units that are collected from a space or code. -/
def Part.Collects (P : Code → Prop) : Part → Prop
  | space s => s.collect.All P
  | code c => ∀ u ∈ c.collect, P u

/-- What is collected has what is given of the whole and with it of the parts. -/
theorem Part.collects {given : Part → Prop} (hcore : ∀ {a : Part}, given a → a.Made given) {a : Part}
    (h : given a) : a.Collects fun u => given (.code u) := by
  refine Part.induction hcore (P := Collects fun u => given (.code u)) (fun a ha hmade => ?_) h
  rcases a with s | c
  · cases s with
    | root => exact ⟨nofun, nofun⟩
    | scalar | table | fiber => exact .step nofun hmade nofun
    | quotient =>
      obtain ⟨hb, hs, hks⟩ := hmade
      have hks := Code.forall_collectAll hks
      exact .step (forall_mem_append.2 ⟨hs.units, hks⟩) hb (forall_mem_cons.2 ⟨hks, hs.kernels⟩)
    | complement _ b _ =>
      refine .step ?_ hmade fun ks hk => hmade.kernels ks (mem_of_mem_tail hk)
      have hkernels := hmade.kernels
      cases hk : b.collect.kernels with
      | nil => exact nofun
      | cons ks kss => exact hkernels ks (hk ▸ mem_cons_self)
    | moniker => exact .step hmade.2.units hmade.1 hmade.2.kernels
    | forked =>
      obtain ⟨hb, hs, hks⟩ := hmade
      exact .step (forall_mem_append.2 ⟨hs.units, Code.forall_collectAll hks⟩) hb hb.kernels
    | linked =>
      obtain ⟨hb, hs, his⟩ := hmade
      exact .step (forall_mem_append.2 ⟨hs.units, Code.forall_collectImages his⟩) hb hs.kernels
    | filtered => exact .step hmade.2 hmade.1 hmade.1.kernels
    | ordered => exact .step (Code.forall_collectOrder hmade.2) hmade.1 hmade.1.kernels
  · have hunit {parts : List Code} (hp : ∀ u ∈ parts, given (.code u)) :
        ∀ u ∈ Code.withUnits c parts, given (.code u) := Code.forall_distinct (forall_mem_cons.2 ⟨ha, hp⟩)
    cases c with
    | missing | literal | parameter | correlation => exact nofun
    | cast => exact hmade
    | formula => exact Code.forall_collectAll hmade
    | column => exact hunit hmade.units
    | single | kernel | covering => exact hunit (forall_mem_append.2 ⟨hmade.1, hmade.2.units⟩)
    | aggregate | correlated =>
      obtain ⟨hc, hp, hs⟩ := hmade
      exact hunit (forall_mem_append.2 ⟨forall_mem_append.2 ⟨hc, hp.units⟩, hs.units⟩)

end Collect

namespace Segment

def parts (s : Segment) : List Part := .space s.root :: .space s.space :: s.codes.map .code

/-- What occurs in a segment at any depth. -/
def Has (s : Segment) (a : Part) : Prop := ∃ b ∈ s.parts, a.Inside b

variable {s : Segment}

lemma Has.made {a : Part} (h : s.Has a) : a.Made s.Has :=
  let ⟨b, hb, ha⟩ := h
  Part.made_iff.2 fun _ hc => ⟨b, hb, Part.Inside.trans (.core hc .self) ha⟩

lemma Has.companions {a : Part} (h : s.Has a) : ∀ k ∈ a.companions, s.Has (.code k) :=
  let ⟨b, hb, ha⟩ := h
  fun _ hk => ⟨b, hb, Part.Inside.trans (.companion hk .self) ha⟩

lemma forall_units {given : Part → Prop} (hcore : ∀ {a : Part}, given a → a.Made given)
    (h : ∀ a ∈ s.parts, given a) : ∀ u ∈ s.units, given (.code u) := by
  simp only [parts, forall_mem_cons, forall_mem_map] at h
  obtain ⟨hroot, hspace, hcodes⟩ := h
  rw [units_eq]
  refine Code.forall_distinct (forall_mem_append.2 ⟨forall_mem_append.2 ⟨?_, ?_⟩, ?_⟩)
  · exact (Part.collects hcore hroot).units
  · exact (Part.collects hcore hspace).units
  · exact Code.forall_collectAll fun c hc => Part.collects hcore (hcodes c hc)

end Segment

end NavQuery
