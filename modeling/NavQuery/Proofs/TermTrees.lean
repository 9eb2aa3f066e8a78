import Mathlib.Data.List.Nodup
import Mathlib.Data.List.Pairwise
import NavQuery.Term

/-!
A term is found again by its tag if no tag occurs twice in its tree, and `offspring?` leads from a term
to the kid that has a tag.
-/

namespace NavQuery

open List

variable {b : Nat} {P : Term → Prop}

/-- In a list without repetitions each entry comes from one source. -/
theorem eq_of_nodup_flatMap {α β : Type} {f : α → List β} {l : List α} {a b : α} {x : β}
    (h : (l.flatMap f).Nodup) (ha : a ∈ l) (hb : b ∈ l) (hx : x ∈ f a) (hx' : x ∈ f b) : a = b := by
  rw [nodup_flatMap] at h
  by_contra hne
  have : Std.Symm (Function.onFun List.Disjoint f) := ⟨fun _ _ h _ ha hb => h hb ha⟩
  exact h.2.forall ha hb hne hx hx'

namespace Term

def isSource : Term → Bool
  | correlation _ _ | segment _ _ _ => false
  | _ => true

def isTable : Term → Bool
  | table _ => true
  | _ => false

def isCorrelation : Term → Bool
  | correlation _ _ => true
  | _ => false

def isSegment : Term → Bool
  | segment _ _ _ => true
  | _ => false

variable {t : Term}

lemma isCorrelation_of_isSource (h : t.isSource) : t.isCorrelation = false := by
  cases t <;> first | rfl | cases h

lemma isSegment_of_isSource (h : t.isSource) : t.isSegment = false := by
  cases t <;> first | rfl | cases h

lemma isSegment_of_isCorrelation (h : t.isCorrelation) : t.isSegment = false := by
  cases t <;> first | rfl | cases h

/-- The tags of the terms whose rows are still to be told apart in the rows of a term. -/
def shown : Term → List Nat
  | scalar _ => []
  | table h | projection h _ _ => [h.tag]
  | filter h k _ | correlation h k | order h k _ _ _ | wrapper h k | permanent h k | segment h k _ =>
    h.tag :: shown k
  | join h l r _ _ => h.tag :: (shown l ++ shown r)
  | embedding h l r _ => h.tag :: r.tag :: shown l

def subterms : Term → List Term
  | scalar h => [scalar h]
  | table h => [table h]
  | filter h k c => filter h k c :: subterms k
  | join h l r js o => join h l r js o :: (subterms l ++ subterms r)
  | embedding h l r cs => embedding h l r cs :: (subterms l ++ subterms r)
  | correlation h k => correlation h k :: subterms k
  | projection h k ks => projection h k ks :: subterms k
  | order h k is l o => order h k is l o :: subterms k
  | wrapper h k => wrapper h k :: subterms k
  | permanent h k => permanent h k :: subterms k
  | segment h k cs => segment h k cs :: subterms k

lemma subterms_eq (t : Term) : t.subterms = t :: t.kids.flatMap subterms := by
  cases t <;> simp [subterms, kids]

lemma mem_subterms_self (t : Term) : t ∈ t.subterms := by
  rw [subterms_eq]
  exact mem_cons_self

lemma tags_eq_map (t : Term) : t.tags = t.subterms.map tag := by
  induction t <;> simp_all [tags, subterms, tag, head]

lemma kids_induction (h : ∀ t : Term, (∀ k ∈ t.kids, P k) → P t) (t : Term) : P t := by
  induction t <;> exact h _ (by simp_all [kids])

variable {k u v : Term}

lemma mem_subterms_of_mem_kid (hk : k ∈ t.kids) (hu : u ∈ k.subterms) : u ∈ t.subterms := by
  rw [subterms_eq]
  exact mem_cons_of_mem _ (mem_flatMap.2 ⟨k, hk, hu⟩)

lemma mem_subterms_of_kid (hk : k ∈ t.kids) : k ∈ t.subterms :=
  mem_subterms_of_mem_kid hk (mem_subterms_self k)

/-- What holds of the top and goes over to kids holds of all terms of a tree. -/
theorem forall_subterms (hP : ∀ u, P u → ∀ k ∈ u.kids, P k) (h : P t) :
    ∀ u ∈ t.subterms, P u := by
  induction t using kids_induction with
  | h t ih =>
    rw [subterms_eq]
    refine forall_mem_cons.2 ⟨h, fun u hu => ?_⟩
    obtain ⟨k, hk, hu⟩ := mem_flatMap.1 hu
    exact ih k hk (hP t h k hk) u hu

lemma subterms_trans (hu : u ∈ t.subterms) (hv : v ∈ u.subterms) : v ∈ t.subterms :=
  forall_subterms (P := fun u => ∀ v ∈ u.subterms, v ∈ t.subterms)
    (fun _ h _ hk v hv => h v (mem_subterms_of_mem_kid hk hv)) (fun _ h => h) u hu v hv

lemma tag_mem_tags (t : Term) : t.tag ∈ t.tags := by
  cases t <;> exact mem_cons_self

lemma tags_eq (t : Term) : t.tags = t.tag :: t.kids.flatMap tags := by
  cases t <;> simp [tags, kids, tag, head]

lemma shown_subset_tags (t : Term) : t.shown ⊆ t.tags := by
  induction t with
  | scalar h => exact nil_subset _
  | table h => exact List.Subset.refl _
  | filter h k c ih | correlation h k ih | order h k is l o ih | wrapper h k ih | permanent h k ih
  | segment h k cs ih => exact cons_subset_cons _ ih
  | join h l r js o ihl ihr =>
    refine cons_subset_cons _ (append_subset.2 ⟨?_, ?_⟩)
    · exact subset_append_of_subset_left _ ihl
    · exact subset_append_of_subset_right _ ihr
  | embedding h l r cs ihl ihr =>
    refine cons_subset_cons _ (cons_subset.2 ⟨?_, ?_⟩)
    · exact mem_append_right _ (tag_mem_tags r)
    · exact subset_append_of_subset_left _ ihl
  | projection h k ks ih => exact cons_subset_cons _ (nil_subset _)

section Kids

variable {t k l : Term} {n : Nat}

lemma tags_subset_of_kid (hk : k ∈ t.kids) : k.tags ⊆ t.tags := by
  rw [tags_eq t]
  exact fun n hn => .tail _ (mem_flatMap.2 ⟨k, hk, hn⟩)

variable (hn : t.tags.Nodup)
include hn

lemma tag_not_mem_kid (hk : k ∈ t.kids) : t.tag ∉ k.tags := by
  rw [tags_eq, nodup_cons] at hn
  exact fun h => hn.1 (mem_flatMap.2 ⟨k, hk, h⟩)

lemma nodup_kid (hk : k ∈ t.kids) : k.tags.Nodup := by
  rw [tags_eq, nodup_cons, nodup_flatMap] at hn
  exact hn.2.1 k hk

lemma kid_unique (hk : k ∈ t.kids) (hl : l ∈ t.kids) (hnk : n ∈ k.tags) (hnl : n ∈ l.tags) : k = l := by
  rw [tags_eq, nodup_cons] at hn
  exact eq_of_nodup_flatMap hn.2 hk hl hnk hnl

omit hn

lemma of_offspring (h : t.offspring? n = some b) : ∃ k ∈ t.kids, b = k.tag ∧ n ∈ k.tags := by
  obtain ⟨k, hk, rfl⟩ := Option.map_eq_some_iff.1 h
  have htag := find?_some hk
  rw [hasTag_eq] at htag
  exact ⟨k, mem_of_find?_eq_some hk, rfl, contains_iff_mem.1 htag⟩

lemma offspring_mem (h : t.offspring? n = some b) : b ∈ t.kids.map tag := by
  obtain ⟨k, hk, rfl, -⟩ := of_offspring h
  exact mem_map_of_mem hk

lemma exists_offspring (h : n ∈ t.tags) (hne : n ≠ t.tag) : ∃ b, t.offspring? n = some b := by
  rw [tags_eq] at h
  obtain ⟨k, hk, hnk⟩ := mem_flatMap.1 ((mem_cons.1 h).resolve_left hne)
  cases hf : t.kids.find? (·.hasTag n) with
  | none =>
    have := find?_eq_none.1 hf k hk
    rw [hasTag_eq] at this
    exact absurd (contains_iff_mem.2 hnk) this
  | some k => exact ⟨k.tag, by rw [offspring?, hf]; rfl⟩

/-- With distinct tags, `offspring?` leads from the tags below a term to the kids that have them, and from
no other tag. -/
theorem offspring?_eq_some_iff (hn : t.tags.Nodup) {m : Nat} :
    t.offspring? n = some m ↔ ∃ k ∈ t.kids, k.tag = m ∧ n ∈ k.tags := by
  refine ⟨fun h => ?_, ?_⟩
  · obtain ⟨k, hk, hm, hnk⟩ := of_offspring h
    exact ⟨k, hk, hm.symm, hnk⟩
  · rintro ⟨k, hk, rfl, hnk⟩
    have hne : n ≠ t.tag := fun he => tag_not_mem_kid hn hk (he ▸ hnk)
    obtain ⟨b, hb⟩ := exists_offspring (tags_subset_of_kid hk hnk) hne
    obtain ⟨l, hl, rfl, hnl⟩ := of_offspring hb
    rw [hb, kid_unique hn hl hk hnl hnk]

end Kids

lemma perm_kid_tags (t : Term) : t.tags.Perm (t.tag :: t.subterms.flatMap fun u => u.kids.map tag) := by
  induction t with
  | scalar _ | table _ => exact .refl _
  | filter _ _ _ ih | correlation _ _ ih | projection _ _ _ ih | order _ _ _ _ _ ih | wrapper _ _ ih
  | permanent _ _ ih | segment _ _ _ ih => exact ih.cons _
  | join h l r _ _ ihl ihr | embedding h l r _ ihl ihr =>
    refine List.Perm.cons _ ((ihl.append ihr).trans ?_)
    rw [subterms, flatMap_cons, flatMap_append]
    exact perm_middle.cons l.tag

section Parents

variable {top t u k l : Term} (hn : top.tags.Nodup)

lemma mem_tags_iff {n : Nat} : n ∈ t.tags ↔ ∃ v ∈ t.subterms, v.tag = n := by
  rw [tags_eq_map, mem_map]

include hn

lemma nodup_subterm (hu : u ∈ top.subterms) : u.tags.Nodup :=
  forall_subterms (P := fun u => u.tags.Nodup) (fun _ h _ hk => nodup_kid h hk) hn u hu

lemma eq_of_tag_eq (ht : t ∈ top.subterms) (hu : u ∈ top.subterms) (h : t.tag = u.tag) : t = u := by
  rw [tags_eq_map] at hn
  exact inj_on_of_nodup_map hn ht hu h

lemma parent_unique (ht : t ∈ top.subterms) (hu : u ∈ top.subterms) (hk : k ∈ t.kids) (hl : l ∈ u.kids)
    (h : k.tag = l.tag) : t = u := by
  have hkids := (nodup_cons.1 ((perm_kid_tags top).nodup_iff.1 hn)).2
  exact eq_of_nodup_flatMap hkids ht hu (mem_map_of_mem hk) (h ▸ mem_map_of_mem hl)

end Parents

end Term

end NavQuery
