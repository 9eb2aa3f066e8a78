import Mathlib.Data.List.Forall2
import NavQuery.Proofs.Tuples
import NavQuery.Proofs.UnmarkedSeams

/-!
Spaces that are the same may stand for each other in the relations, the orders and the seams, since all
of these commute with `unmarked`.
-/

namespace NavQuery

inductive Result.Agree {α : Type} (R : α → α → Prop) : Result α → Result α → Prop
  | ok {a b : α} (h : R a b) : Agree R (.ok a) (.ok b)
  | error {d e : Error} (h : d.unmarked = e.unmarked) : Agree R (.error d) (.error e)

lemma Result.agree_of_unmarked {α β : Type} {f : α → β} {R : α → α → Prop}
    (hR : ∀ a b, f a = f b → R a b) {x y : Result α} (h : unmarked f x = unmarked f y) :
    Agree R x y := by
  cases x with
  | ok a =>
    cases y with
    | ok b => exact .ok (hR a b (Except.ok.inj h))
    | error e => cases h
  | error d =>
    cases y with
    | ok b => cases h
    | error e => exact .error (Except.error.inj h)

lemma forall₂_of_map_eq {α β : Type} {f : α → β} {R : α → α → Prop} (hR : ∀ a b, f a = f b → R a b)
    {as bs : List α} (h : as.map f = bs.map f) : List.Forall₂ R as bs := by
  have heq : List.Forall₂ Eq (as.map f) (bs.map f) := h ▸ List.forall₂_refl _
  rw [List.forall₂_map_left_iff, List.forall₂_map_right_iff] at heq
  exact heq.imp hR

abbrev Code.Pointwise (cs ds : List Code) : Prop := List.Forall₂ (fun c d => (c == d)) cs ds

lemma Code.pointwise_of_map {cs ds : List Code} (h : cs.map Code.unmarked = ds.map Code.unmarked) :
    Code.Pointwise cs ds :=
  forall₂_of_map_eq (fun _ _ => Code.beq_iff_unmarked.2) h

namespace Joint

def Same (j k : Joint) : Prop := (j.left == k.left) ∧ (j.right == k.right) = true

lemma same_of_unmarked {j k : Joint} (h : j.unmarked = k.unmarked) : j.Same k :=
  ⟨Code.beq_iff_unmarked.2 (congrArg left h), Code.beq_iff_unmarked.2 (congrArg right h)⟩

end Joint

namespace Family

/-- Families of one kind whose tables, spaces and kernels are the same. -/
def Agree : Family → Family → Prop
  | scalar, scalar => True
  | table t, table u => t = u
  | quotient s g ks f, quotient t h ls k =>
    (s == t) ∧ (g == h) ∧ Code.Pointwise ks ls ∧ Agree f k
  | _, _ => False

lemma agree_of_unmarked : ∀ {f k : Family}, f.unmarked = k.unmarked → f.Agree k
  | scalar, k, h => by
    cases k with
    | scalar => trivial
    | _ => cases h
  | table t, k, h => by
    cases k with
    | table u => exact Family.table.inj h
    | _ => cases h
  | quotient s g ks f, k, h => by
    cases k with
    | quotient t u ls k =>
      obtain ⟨hs, hg, hks, hf⟩ := Family.quotient.inj h
      rw [Code.unmarkedAll_eq, Code.unmarkedAll_eq] at hks
      exact ⟨Space.beq_iff_unmarked.2 hs, Space.beq_iff_unmarked.2 hg, Code.pointwise_of_map hks,
        agree_of_unmarked hf⟩
    | _ => cases h

end Family

namespace Space

inductive Kind
  | root | scalar | table | fiber | quotient | complement | moniker | forked | linked | filtered
  | ordered
deriving DecidableEq

def kind : Space → Kind
  | root _ => .root
  | scalar _ _ => .scalar
  | table _ _ _ => .table
  | fiber _ _ _ => .fiber
  | quotient _ _ _ _ _ => .quotient
  | complement _ _ _ => .complement
  | moniker _ _ _ _ => .moniker
  | forked _ _ _ _ _ => .forked
  | linked _ _ _ _ _ => .linked
  | filtered _ _ _ => .filtered
  | ordered _ _ _ _ _ => .ordered

lemma kind_unmarked (s : Space) : s.unmarked.kind = s.kind := by cases s <;> simp [unmarked, kind]

/-- What it means that a space may stand for another. In the relations of two spaces the other argument
may be replaced at the same time. -/
structure Interchangeable (s t : Space) : Prop where
  kind : s.kind = t.kind
  axis : s.isAxis = t.isAxis
  contracting : s.isContracting = t.isContracting
  expanding : s.isExpanding = t.isExpanding
  commutative : s.isCommutative = t.isCommutative
  inflated : s.isInflated = t.isInflated
  family : s.family.Agree t.family
  spans : ∀ u v : Space, (u == v) → s.spans u = t.spans v ∧ u.spans s = v.spans t
  dominates : ∀ u v : Space, (u == v) → s.dominates u = t.dominates v ∧ u.dominates s = v.dominates t
  conforms : ∀ u v : Space, (u == v) → s.conforms u = t.conforms v ∧ u.conforms s = v.conforms t
  concludes : ∀ u v : Space, (u == v) → s.concludes u = t.concludes v ∧ u.concludes s = v.concludes t
  resembles : ∀ u v : Space, (u == v) → s.resembles u = t.resembles v ∧ u.resembles s = v.resembles t
  inflate : (s.inflate == t.inflate) = true
  prune : ∀ u v : Space, (u == v) → (s.prune u == t.prune v) ∧ (u.prune s == v.prune t) = true
  selfJoints : Result.Agree (List.Forall₂ Joint.Same) s.selfJoints t.selfJoints
  baseJoints : Result.Agree (List.Forall₂ Joint.Same) s.baseJoints t.baseJoints
  exports : Result.Agree Code.Pointwise s.exports t.exports
  arrange : ∀ strong weak : Bool,
    List.Forall₂ (fun i j : OrderItem => (i.1 == j.1) ∧ i.2 = j.2) (s.arrange strong weak)
      (t.arrange strong weak)

section Replacing

variable {s t : Space}

lemma eq_of_beq_unmarked {α : Type} {f : Space → α} (hf : ∀ u : Space, f u.unmarked = f u)
    (h : (s == t)) : f s = f t := by
  rw [← hf s, beq_iff_unmarked.1 h, hf]

lemma eq_of_beq_unmarked₂ {α : Type} {f : Space → Space → α}
    (hf : ∀ u v : Space, f u.unmarked v.unmarked = f u v) (h : (s == t)) (u v : Space)
    (k : (u == v)) : f s u = f t v ∧ f u s = f v t := by
  rw [← hf s, ← hf u, beq_iff_unmarked.1 h, beq_iff_unmarked.1 k, hf, hf]
  exact ⟨rfl, rfl⟩

lemma prune_of_beq {u v : Space} (h : (s == t)) (k : (u == v)) : (s.prune u == t.prune v) := by
  rw [beq_iff_unmarked] at h k ⊢
  rw [← prune_unmarked, h, k, prune_unmarked]

end Replacing

lemma interchangeable_of_beq {s t : Space} (h : (s == t)) : Interchangeable s t := by
  have hst : s.unmarked = t.unmarked := beq_iff_unmarked.1 h
  have hjoints : ∀ js ks : List Joint, js.map Joint.unmarked = ks.map Joint.unmarked →
      List.Forall₂ Joint.Same js ks := fun js ks =>
    forall₂_of_map_eq fun _ _ => Joint.same_of_unmarked
  exact {
    kind := eq_of_beq_unmarked kind_unmarked h
    axis := eq_of_beq_unmarked isAxis_unmarked h
    contracting := eq_of_beq_unmarked isContracting_unmarked h
    expanding := eq_of_beq_unmarked isExpanding_unmarked h
    commutative := eq_of_beq_unmarked isCommutative_unmarked h
    inflated := eq_of_beq_unmarked isInflated_unmarked h
    family := Family.agree_of_unmarked (by rw [← family_unmarked, hst, family_unmarked])
    spans := eq_of_beq_unmarked₂ spans_unmarked h
    dominates := eq_of_beq_unmarked₂ dominates_unmarked h
    conforms := eq_of_beq_unmarked₂ conforms_unmarked h
    concludes := eq_of_beq_unmarked₂ concludes_unmarked h
    resembles := eq_of_beq_unmarked₂ resembles_unmarked h
    inflate := beq_iff_unmarked.2 (by rw [← inflate_unmarked, hst, inflate_unmarked])
    prune := fun u v k => ⟨prune_of_beq h k, prune_of_beq k h⟩
    selfJoints := Result.agree_of_unmarked hjoints
      (by rw [← selfJoints_unmarked, hst, selfJoints_unmarked])
    baseJoints := Result.agree_of_unmarked hjoints
      (by rw [← baseJoints_unmarked, hst, baseJoints_unmarked])
    exports := Result.agree_of_unmarked (fun _ _ => Code.pointwise_of_map)
      (by rw [← exports_unmarked, hst, exports_unmarked])
    arrange := by
      intro strong weak
      refine forall₂_of_map_eq (f := unmarkedItem) (fun i j hij => ?_)
        (by rw [← arrange_unmarked, hst, arrange_unmarked])
      obtain ⟨hcode, hdirection⟩ := Prod.mk.inj hij
      exact ⟨Code.beq_iff_unmarked.2 hcode, hdirection⟩ }

/-- Comparing spaces and codes gives equivalence relations, and spaces that are the same may stand for
each other. -/
theorem beq_isCongruence : Equivalence (fun a b : Space => (a == b) = true) ∧
    Equivalence (fun a b : Code => (a == b) = true) ∧
    ∀ s t : Space, (s == t) = true → Interchangeable s t :=
  ⟨⟨fun _ => BEq.rfl, BEq.symm, BEq.trans⟩, ⟨fun _ => BEq.rfl, BEq.symm, BEq.trans⟩,
    fun _ _ => interchangeable_of_beq⟩

/-- The open departments, once with the marks of a query and once without. -/
theorem beq_isCongruence_openDepartments :
    let mark : Mark := .at ⟨0, "/department?open"⟩ 1 16
    let marked : Space := .filtered mark Sample.departments
      (.column mark .boolean Sample.isOpen Sample.departments)
    (marked == Sample.openDepartments) = true ∧ Interchangeable marked Sample.openDepartments := by
  intro mark marked
  have h : (marked == Sample.openDepartments) = true := beq_iff_unmarked.2 (by
    simp [marked, Sample.openDepartments, unmarked, Code.unmarked])
  exact ⟨h, beq_isCongruence.2.2 _ _ h⟩

end Space

end NavQuery
