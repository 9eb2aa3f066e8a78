import NavQuery.Proofs.Renewals
import NavQuery.Proofs.PhraseValue
import NavQuery.Proofs.UnmarkedSeams

/-!
What simplifying drops is decided by comparing a space with its mask before anything has gone, so a
second pass may find more. A pass that drops nothing leaves the space as it is.
-/

namespace NavQuery

open List Code Space

mutual

/-- The number of steps and codes that a space is built from. A kernel is counted where its space is. -/
def Space.extent : Space → Nat
  | .root _ => 1
  | .scalar _ b | .table _ b _ | .fiber _ b _ | .complement _ b _ => b.extent + 1
  | .quotient _ b s ks _ | .forked _ b s ks _ => b.extent + s.extent + Code.extentOfAll ks + 1
  | .moniker _ b s _ => b.extent + s.extent + 1
  | .linked _ b s is _ => b.extent + s.extent + Code.extentOfImages is + 1
  | .filtered _ b f => b.extent + f.extent + 1
  | .ordered _ b os _ _ => b.extent + Code.extentOfOrder os + 1
termination_by structural s => s

def Code.extent : Code → Nat
  | .missing | .literal _ _ _ | .parameter _ _ _ => 1
  | .cast _ _ c | .correlation _ c => c.extent + 1
  | .formula _ _ _ as => Code.extentOfAll as + 1
  | .column _ _ _ s | .kernel _ _ s => s.extent + 1
  | .single _ c s _ | .covering _ c s => c.extent + s.extent + 1
  | .aggregate _ c p s _ | .correlated _ c p s => c.extent + p.extent + s.extent + 1
termination_by structural c => c

def Code.extentOfAll : List Code → Nat
  | [] => 0
  | c :: cs => c.extent + Code.extentOfAll cs
termination_by structural cs => cs

def Code.extentOfImages : List (Code × Code) → Nat
  | [] => 0
  | i :: is => Code.extentOfImage i + Code.extentOfImages is
termination_by structural is => is

def Code.extentOfImage : Code × Code → Nat
  | (a, b) => a.extent + b.extent
termination_by structural i => i

def Code.extentOfOrder : List (Code × Direction) → Nat
  | [] => 0
  | o :: os => Code.extentOfItem o + Code.extentOfOrder os
termination_by structural os => os

def Code.extentOfItem : Code × Direction → Nat
  | (c, _) => c.extent
termination_by structural o => o

end

lemma extent_unmarked_mutual : (∀ s : Space, s.unmarked.extent = s.extent) ∧
      (∀ os, extentOfOrder (unmarkedOrder os) = extentOfOrder os) ∧
      (∀ o, extentOfItem (Code.unmarkedItem o) = extentOfItem o) ∧
      (∀ c : Code, c.unmarked.extent = c.extent) ∧
      (∀ cs, extentOfAll (unmarkedAll cs) = extentOfAll cs) ∧
      (∀ is, extentOfImages (unmarkedImages is) = extentOfImages is) ∧
      ∀ i, extentOfImage (unmarkedImage i) = extentOfImage i := by
  apply Space.unmarked.mutual_induct <;>
    simp +contextual [Space.unmarked, Code.unmarked, unmarkedAll, unmarkedImages,
      unmarkedImage, unmarkedOrder, Code.unmarkedItem, Space.extent, Code.extent,
      extentOfAll, extentOfImages, extentOfImage, extentOfOrder,
      extentOfItem]

lemma Space.extent_unmarked (s : Space) : s.unmarked.extent = s.extent :=
  extent_unmarked_mutual.1 s

/-- Whether a column stays in its space: no join leads to it that it could be read before. -/
def Space.isOrigin : Space → Column → Bool
  | .fiber _ _ j, c =>
    !(!j.reverse && j.expanding && j.contracting && (j.originColumns.zip j.targetColumns).any (·.2 == c))
  | _, _ => true

mutual

def Space.isSettled (root : Space) : Space → Space → Bool
  | .root _, _ => true
  | .scalar _ b, mask | .table _ b _, mask | .fiber _ b _, mask | .complement _ b _, mask => Space.isSettled root b mask
  | .quotient _ b s ks _, mask =>
    Space.isSettled root b mask && Space.isSettled root s b && Code.areSettled root ks s
  | .moniker _ b s _, mask => Space.isSettled root b mask && Space.isSettled root s b
  | .forked _ b s ks _, mask =>
    Space.isSettled root b mask && Space.isSettled root s s.lastAxis && Code.areSettled root ks b
  | .linked _ b s is _, mask =>
    Space.isSettled root b mask && Space.isSettled root s b && Code.areSettledImages root is b s
  | .filtered m b f, mask =>
    !Space.isMasked mask (.filtered m b f) b &&
      (Space.isSettled root b mask && f.isSettled root (codeMask mask b))
  | .ordered m b os l o, mask =>
    !Space.isMasked mask (.ordered m b os l o) b &&
      (Space.isSettled root b (if l.isNone && o.isNone then mask else root) &&
        Code.areSettledOrder root os (codeMask mask b))
termination_by structural s => s

def Code.isSettled (root : Space) : Code → Space → Bool
  | .missing, _ | .literal _ _ _, _ | .parameter _ _ _, _ => true
  | .cast _ _ c, mask | .correlation _ c, mask => c.isSettled root mask
  | .formula _ _ _ as, mask => Code.areSettled root as mask
  | .column _ _ c s, mask => Space.isSettled root s mask && s.isOrigin c
  | .single _ c s _, mask =>
    !isImmediate mask s c && (c.isSettled root s && Space.isSettled root s mask)
  | .aggregate _ c p s _, mask | .correlated _ c p s, mask =>
    c.isSettled root p && Space.isSettled root p (if s.dominates mask then mask else s) &&
      Space.isSettled root s mask
  | .kernel _ _ s, mask => Space.isSettled root s mask
  | .covering _ c s, mask =>
    c.isSettled root (s.seed?.getD mask) && Space.isSettled root s mask
termination_by structural c => c

def Code.areSettled (root : Space) : List Code → Space → Bool
  | [], _ => true
  | c :: cs, mask => c.isSettled root mask && Code.areSettled root cs mask
termination_by structural cs => cs

def Code.areSettledImages (root : Space) : List (Code × Code) → Space → Space → Bool
  | [], _, _ => true
  | i :: is, base, seed =>
    Code.isSettledImage root i base seed && Code.areSettledImages root is base seed
termination_by structural is => is

def Code.isSettledImage (root : Space) : Code × Code → Space → Space → Bool
  | (a, b), base, seed => a.isSettled root base && b.isSettled root seed
termination_by structural i => i

def Code.areSettledOrder (root : Space) : List (Code × Direction) → Space → Bool
  | [], _ => true
  | o :: os, mask => Code.isSettledItem root o mask && Code.areSettledOrder root os mask
termination_by structural os => os

def Code.isSettledItem (root : Space) : Code × Direction → Space → Bool
  | (c, _), mask => c.isSettled root mask
termination_by structural o => o

end

/-- What a pass makes of a part of some extent: it does not make it larger, and a part that does not become
smaller is kept. -/
structure Shrinks (old new : Nat) (same : Prop) : Prop where
  le : new ≤ old
  same : new = old → same

/-- A pass whose decision to keep the part is known. -/
structure Pared (kept : Bool) (old new : Nat) (same : Prop) : Prop extends Shrinks old new same where
  kept_iff : kept ↔ new = old

section Parts

variable {k l : Bool} {m m' n n' : Nat} {P Q : Prop}

lemma Shrinks.refl (n : Nat) (h : P) : Shrinks n n P := ⟨Nat.le_refl n, fun _ => h⟩

lemma Shrinks.and (h : Shrinks m m' P) (h' : Shrinks n n' Q) : Shrinks (m + n) (m' + n') (P ∧ Q) := by
  have hm := h.le
  have hn := h'.le
  exact ⟨by omega, fun heq => ⟨h.same (by omega), h'.same (by omega)⟩⟩

lemma Shrinks.imp (h : Shrinks n n' P) (hpq : P → Q) : Shrinks n n' Q :=
  ⟨h.le, fun heq => hpq (h.same heq)⟩

lemma Shrinks.succ (h : Shrinks n n' P)
    (hpq : P → Q := by intro h; simp only [Space.unmarked, Code.unmarked, h]) :
    Shrinks (n + 1) (n' + 1) Q :=
  ⟨Nat.succ_le_succ h.le, fun heq => hpq (h.same (Nat.succ.inj heq))⟩

namespace Pared

lemma refl (n : Nat) (h : P) : Pared true n n P := ⟨.refl n h, iff_of_true rfl rfl⟩

/-- Both parts are kept, or one has become smaller. -/
theorem and (h : Pared k m m' P) (h' : Pared l n n' Q) :
    Pared (k && l) (m + n) (m' + n') (P ∧ Q) where
  toShrinks := h.toShrinks.and h'.toShrinks
  kept_iff := by
    have hm := h.le
    have hn := h'.le
    rw [Bool.and_eq_true, h.kept_iff, h'.kept_iff]
    omega

lemma imp (h : Pared k n n' P) (hpq : P → Q) : Pared k n n' Q :=
  ⟨h.toShrinks.imp hpq, h.kept_iff⟩

lemma succ (h : Pared k n n' P)
    (hpq : P → Q := by intro h; simp only [Space.unmarked, Code.unmarked, h]) :
    Pared k (n + 1) (n' + 1) Q :=
  ⟨h.toShrinks.succ hpq, h.kept_iff.trans Nat.succ_inj.symm⟩

lemma of_lt (h : n' < n) : Pared false n n' P :=
  ⟨⟨h.le, fun heq => absurd heq h.ne⟩, iff_of_false Bool.false_ne_true h.ne⟩

/-- A part that is asked along with others goes. -/
lemma dropped (h : Pared k n n' P) (m : Nat) : Pared false (n + m + 1) n' Q :=
  of_lt (Nat.lt_succ_of_le (h.le.trans (Nat.le_add_right n m)))

end Pared

end Parts

abbrev Space.Shrinks (old new : Space) : Prop :=
  NavQuery.Shrinks old.extent new.extent (new.unmarked = old.unmarked)

abbrev Code.Shrinks (old new : Code) : Prop :=
  NavQuery.Shrinks old.extent new.extent (new.unmarked = old.unmarked)

abbrev Space.Pared (kept : Bool) (old new : Space) : Prop :=
  NavQuery.Pared kept old.extent new.extent (new.unmarked = old.unmarked)

abbrev Code.Pared (kept : Bool) (old new : Code) : Prop :=
  NavQuery.Pared kept old.extent new.extent (new.unmarked = old.unmarked)

section Columns

namespace Space

lemma originColumn_of_isOrigin {s : Space} {c : Column} (h : s.isOrigin c) :
    s.originColumn c = (s, c) := by
  cases s with
  | fiber m b j =>
    rw [originColumn]
    split
    · rename_i hjoin
      split
      · rename_i o _ hfind
        have hany : (j.originColumns.zip j.targetColumns).any (·.2 == c) :=
          any_eq_true.2 ⟨_, mem_of_find?_eq_some hfind, by simpa using find?_some hfind⟩
        simp [isOrigin, hjoin, hany] at h
      · rfl
    · rfl
  | _ => rfl

lemma extent_originColumn_le : ∀ (s : Space) (c : Column), (s.originColumn c).1.extent ≤ s.extent
  | .fiber m b j, c => by
    rw [originColumn]
    split
    · split
      · exact (extent_originColumn_le b _).trans (Nat.le_succ _)
      · exact Nat.le_refl _
    · exact Nat.le_refl _
  | .root _, _ | .scalar _ _, _ | .table _ _ _, _ | .quotient _ _ _ _ _, _ | .complement _ _ _, _
  | .moniker _ _ _ _, _ | .forked _ _ _ _ _, _ | .linked _ _ _ _ _, _ | .filtered _ _ _, _
  | .ordered _ _ _ _ _, _ => Nat.le_refl _

lemma extent_originColumn_lt {s : Space} {c : Column} (h : s.isOrigin c = false) :
    (s.originColumn c).1.extent < s.extent := by
  cases s with
  | fiber m b j =>
    simp only [isOrigin, Bool.not_eq_false', Bool.and_eq_true] at h
    obtain ⟨hjoin, hany⟩ := h
    obtain ⟨p, hp⟩ := Option.isSome_iff_exists.1 (find?_isSome.2 (any_eq_true.1 hany))
    rw [originColumn, if_pos (by simpa using hjoin), hp]
    exact Nat.lt_succ_of_le (extent_originColumn_le b p.1)
  | _ => cases h

lemma isOrigin_unmarked (s : Space) (c : Column) : s.unmarked.isOrigin c = s.isOrigin c := by
  cases s <;> simp [unmarked, isOrigin]

end Space

lemma Code.Pared.column {k : Bool} {s s' : Space} (h : s.Pared k s') (m : Mark) (d : Domain)
    (c : Column) : (column m d c s).Pared (k && s.isOrigin c)
      (.column m d (s'.originColumn c).2 (s'.originColumn c).1) := by
  have hle := Space.extent_originColumn_le s' c
  have hs := h.le
  have horigin (heq : s'.extent = s.extent) : s'.isOrigin c = s.isOrigin c := by
    rw [← Space.isOrigin_unmarked, h.same heq, Space.isOrigin_unmarked]
  -- A column that stays in its space has lost no join before it.
  have hstays : (s'.originColumn c).1.extent = s.extent ↔ s'.extent = s.extent ∧ s'.isOrigin c := by
    refine ⟨fun heq => ⟨by omega, ?_⟩, fun ⟨heq, ho⟩ => by rw [Space.originColumn_of_isOrigin ho, heq]⟩
    by_contra hno
    have hlt := Space.extent_originColumn_lt (Bool.eq_false_iff.2 hno)
    omega
  refine ⟨⟨Nat.succ_le_succ (hle.trans hs), fun heq => ?_⟩, ?_⟩
  · obtain ⟨hsame, ho⟩ := hstays.1 (Nat.succ.inj heq)
    simp only [Space.originColumn_of_isOrigin ho, Code.unmarked, h.same hsame]
  · simp only [Code.extent, Nat.succ_inj, hstays, Bool.and_eq_true, h.kept_iff]
    exact and_congr_right fun heq => by rw [horigin heq]

end Columns

section Stages

lemma Family.kernels_unmarked (f : Family) : f.unmarked.kernels = f.kernels.map Code.unmarked := by
  cases f with
  | scalar | table => rfl
  | quotient s g ks f => exact unmarkedAll_eq ks

/-- A kernel that is read in its place is the same as long as the kernels of the space are. -/
lemma Code.kernel_unmarked {s s' : Space} {c c' : Code} {i : Nat}
    (hi : s.family.kernels.findIdx? (· == c) = some i) (hc : s'.family.kernels[i]? = some c')
    (h : s'.unmarked = s.unmarked) : c'.unmarked = c.unmarked := by
  obtain ⟨hlt, hbeq, _⟩ := findIdx?_eq_some_iff_getElem.1 hi
  have hkernels : s'.family.kernels.map unmarked = s.family.kernels.map unmarked := by
    rw [← Family.kernels_unmarked, ← family_unmarked, h, family_unmarked, Family.kernels_unmarked]
  apply Option.some.inj
  rw [← Code.beq_iff_unmarked.1 hbeq, ← Option.map_some, ← hc, ← getElem?_map, hkernels,
    getElem?_map, getElem?_eq_getElem hlt, Option.map_some]

variable {root : Space}

lemma Pared.all {mask : Space} {cs ds : List Code}
    (h : Forall₂ (fun c d => c.Pared (c.isSettled root mask) d) cs ds) :
    Pared (areSettled root cs mask) (extentOfAll cs) (extentOfAll ds) (unmarkedAll ds = unmarkedAll cs) := by
  induction h with
  | nil => exact .refl _ rfl
  | cons hc _ ih => exact (hc.and ih).imp fun h => congrArg₂ cons h.1 h.2

lemma Pared.images {base seed : Space} {is js : List Image} (h : Forall₂ (fun i j =>
      i.1.Pared (i.1.isSettled root base) j.1 ∧ i.2.Pared (i.2.isSettled root seed) j.2) is js) :
    Pared (areSettledImages root is base seed) (extentOfImages is) (extentOfImages js)
      (unmarkedImages js = unmarkedImages is) := by
  induction h with
  | nil => exact .refl _ rfl
  | @cons i j _ _ hi _ ih =>
    obtain ⟨_, _⟩ := i
    obtain ⟨_, _⟩ := j
    exact ((hi.1.and hi.2).and ih).imp fun h => congrArg₂ cons (congrArg₂ Prod.mk h.1.1 h.1.2) h.2

lemma Pared.order {mask : Space} {os ps : List OrderItem} (h : Forall₂ (fun o p =>
      o.1.Pared (o.1.isSettled root mask) p.1 ∧ o.2 = p.2) os ps) :
    Pared (areSettledOrder root os mask) (extentOfOrder os) (extentOfOrder ps)
      (unmarkedOrder ps = unmarkedOrder os) := by
  induction h with
  | nil => exact .refl _ rfl
  | @cons o p _ _ ho _ ih =>
    obtain ⟨_, _⟩ := o
    obtain ⟨_, _⟩ := p
    obtain ⟨hc, rfl⟩ := ho
    exact (hc.and ih).imp fun h => congrArg₂ cons (congrArg (·, _) h.1) h.2

variable [Discipline.Tolerant]

/-- Unmasking pares a space or code down, to its own extent exactly if it is settled behind the mask. -/
def Part.ParedBehind (root : Space) : Part → Prop
  | space s => ∀ mask, Ensures (s.Pared (Space.isSettled root s mask)) (Space.unmask root s mask)
  | code c => ∀ mask, Ensures (c.Pared (c.isSettled root mask)) (c.unmask root mask)

open Ensures in
theorem Part.paredBehind (a : Part) : a.ParedBehind root := by
  refine Part.recursion (fun a hmade => ?_) a
  rcases a with s | c <;> intro mask
  · cases s with
    | root => exact .refl _ rfl
    | scalar | table | fiber | complement => exact (hmade mask).bind fun _ hb => hb.succ
    | quotient =>
      obtain ⟨hb, hs, hks⟩ := hmade
      rw [Space.unmask, unmaskAll_eq]
      refine (mapM_forall₂ fun k hk => hks k hk _).bind fun _ hks => (ensures_variableKernels hks).bind fun _ hks => ?_
      exact (hs _).bind fun _ hs => (hb mask).bind fun _ hb => ensures_checked ((hb.and hs).and (.all hks)).succ
    | moniker =>
      exact (hmade.2 _).bind fun _ hs => (hmade.1 mask).bind fun _ hb => ensures_checked (hb.and hs).succ
    | forked =>
      obtain ⟨hb, hs, hks⟩ := hmade
      rw [Space.unmask, unmaskAll_eq]
      refine (hs _).bind fun _ hs => (mapM_forall₂ fun k hk => hks k hk _).bind fun _ hks => ?_
      exact (hb mask).bind fun _ hb => ensures_checked ((hb.and hs).and (.all hks)).succ
    | linked =>
      obtain ⟨hb, hs, his⟩ := hmade
      rw [Space.unmask, unmaskImages_eq]
      refine (hs _).bind fun _ hs => (mapM_forall₂ fun i hi => ?_).bind fun _ his =>
        (hb mask).bind fun _ hb => ensures_checked ((hb.and hs).and (.images his)).succ
      cases i
      exact ((his _ hi).1 _).bind fun _ hc => ((his _ hi).2 _).bind fun _ hd => .pure ⟨hc, hd⟩
    | filtered m b f =>
      rw [Space.unmask, Space.isSettled]
      cases hmasked : Space.isMasked mask (.filtered m b f) b with
      | true => exact (hmade.1 mask).imp fun _ hb => hb.dropped _
      | false => exact (hmade.2 _).bind fun _ hf => (hmade.1 mask).bind fun _ hb => (hb.and hf).succ
    | ordered m b os l o =>
      rw [Space.unmask, Space.isSettled, unmaskOrder_eq]
      cases hmasked : Space.isMasked mask (.ordered m b os l o) b with
      | true => exact (hmade.1 mask).imp fun _ hb => hb.dropped _
      | false =>
        refine (mapM_forall₂ fun i hi => ?_).bind fun _ hos =>
          (hmade.1 _).bind fun _ hb => (hb.and (.order hos)).succ
        cases i
        exact (hmade.2 _ hi _).bind fun _ hc => .pure ⟨hc, rfl⟩
  · cases c with
    | missing | literal | parameter => exact .refl _ rfl
    | cast | correlation => exact (hmade mask).bind fun _ hc => hc.succ
    | formula =>
      rw [Code.unmask, unmaskAll_eq]
      exact (mapM_forall₂ fun a ha => hmade a ha mask).bind fun _ has => (Pared.all has).succ
    | column => exact (hmade mask).bind fun _ hs => Code.Pared.column hs _ _ _
    | single m c s cs =>
      rw [Code.unmask, Code.isSettled]
      cases himmediate : isImmediate mask s c with
      | true => exact (hmade.1 mask).imp fun _ hc => hc.dropped _
      | false => exact (hmade.1 _).bind fun _ hc => (hmade.2 mask).bind fun _ hs => (hc.and hs).succ
    | aggregate | correlated =>
      obtain ⟨hc, hp, hs⟩ := hmade
      exact (hc _).bind fun _ hc => (hp _).bind fun _ hp => (hs mask).bind fun _ hs =>
        ((hc.and hp).and hs).succ
    | kernel =>
      refine (Ensures.require _ rfl).bind fun i hi => (hmade.2 mask).bind fun s' hs =>
        (Ensures.require _ rfl).bind fun c' hc => hs.succ fun h => ?_
      simp only [Code.unmarked, h, kernel_unmarked hi hc h]
    | covering => exact (hmade.1 _).bind fun _ hc => (hmade.2 mask).bind fun _ hs => (hc.and hs).succ

end Stages

section Tidy

abbrev Discipline.ending : Discipline.Tolerant where
  __ := Discipline.allowing True (· ≠ .endless)
  query _ _ := nofun
  rule _ := nofun
  kind _ := .inr (.inr nofun)
  absent _ := nofun

attribute [local instance] Discipline.ending

lemma Code.ensures_isTrue (c : Code) : Passes c.isTrue := by
  unfold isTrue
  split
  · split
    · exact trivial
    · exact trivial
    · exact nofun
  · exact trivial

abbrev shrinking : Renewal where
  given _ := True
  core _ := Part.made_iff.2 fun _ _ => trivial
  space := Space.Shrinks
  code := Code.Shrinks

lemma Shrinks.all {cs ds : List Code} (h : Forall₂ shrinking.code cs ds) :
    Shrinks (extentOfAll cs) (extentOfAll ds) (unmarkedAll ds = unmarkedAll cs) := by
  induction h with
  | nil => exact .refl _ rfl
  | cons hc _ ih => exact (hc.and ih).imp fun h => congrArg₂ cons h.1 h.2

lemma Shrinks.images {is js : List Image}
    (h : Forall₂ (fun i j => shrinking.code i.1 j.1 ∧ shrinking.code i.2 j.2) is js) :
    Shrinks (extentOfImages is) (extentOfImages js) (unmarkedImages js = unmarkedImages is) := by
  induction h with
  | nil => exact .refl _ rfl
  | @cons i j _ _ hi _ ih =>
    obtain ⟨_, _⟩ := i
    obtain ⟨_, _⟩ := j
    exact ((hi.1.and hi.2).and ih).imp fun h => congrArg₂ cons (congrArg₂ Prod.mk h.1.1 h.1.2) h.2

lemma Shrinks.order {os ps : List OrderItem}
    (h : Forall₂ (fun o p => shrinking.code o.1 p.1 ∧ o.2 = p.2) os ps) :
    Shrinks (extentOfOrder os) (extentOfOrder ps) (unmarkedOrder ps = unmarkedOrder os) := by
  induction h with
  | nil => exact .refl _ rfl
  | @cons o p _ _ ho _ ih =>
    obtain ⟨_, _⟩ := o
    obtain ⟨_, _⟩ := p
    obtain ⟨hc, rfl⟩ := ho
    exact (hc.and ih).imp fun h => congrArg₂ cons (congrArg (·, _) h.1) h.2

lemma shrinking_joins : shrinking.Joins where
  space _ hj := by
    cases hj with
    | root => exact .refl _ rfl
    | scalar hb | table hb | fiber hb | complement hb => exact hb.succ
    | quotient hb hs hks | forked hb hs hks => exact ((hb.and hs).and (.all hks)).succ
    | moniker hb hs => exact (hb.and hs).succ
    | linked hb hs his => exact ((hb.and hs).and (.images his)).succ
    | filtered hb hc => exact (hb.and hc).succ
    | ordered hb hos => exact (hb.and (.order hos)).succ
  code _ hj := by
    cases hj with
    | missing | literal | parameter => exact .refl _ rfl
    | cast hc | correlation hc | column hc => exact hc.succ
    | formula has => exact (Shrinks.all has).succ
    | single hc hs | covering hc hs => exact (hc.and hs).succ
    | aggregate hc hp hs | correlated hc hp hs => exact ((hc.and hp).and hs).succ
    | kernel hplace hs hk => exact hs.succ fun h => by simp only [Code.unmarked, h, kernel_unmarked hplace hk h]

lemma Space.ensures_tidy (s : Space) : Ensures s.Shrinks (s.rebuild .tidy) := by
  refine (shrinking_joins.tidy (fun {m b b' f} hb => ?_) fun _ _ => Code.ensures_isTrue _).rebuilt
    (a := .space s) trivial
  have hlt : b'.extent < b.extent + f.extent + 1 :=
    Nat.lt_succ_of_le (hb.le.trans (Nat.le_add_right _ _))
  exact ⟨hlt.le, fun heq => absurd heq hlt.ne⟩

end Tidy

section Unmarked

lemma Space.isMasked_unmarked (m s b : Space) :
    Space.isMasked m.unmarked s.unmarked b.unmarked = Space.isMasked m s b := by
  rw [Space.isMasked, prune_unmarked, prune_unmarked, Space.beq_unmarked, Space.isMasked]

lemma Space.codeMask_unmarked (m b : Space) :
    codeMask m.unmarked b.unmarked = (codeMask m b).unmarked := by
  rw [codeMask, dominates_unmarked, codeMask]
  split <;> rfl

lemma isImmediate_unmarked (m s : Space) (c : Code) :
    isImmediate m.unmarked s.unmarked c.unmarked = isImmediate m s c := by
  rw [isImmediate, space?_unmarked, Option.any_map, isImmediate]
  simp only [dominates_unmarked]

lemma Space.seed?_unmarked (s : Space) : s.unmarked.seed? = s.seed?.map Space.unmarked := by
  cases s with
  | complement m b cs =>
    simp only [Space.unmarked, seed?, family_unmarked]
    cases b.family <;> rfl
  | _ => simp [Space.unmarked, seed?]

variable (root : Space)

lemma isSettled_unmarked_mutual : (∀ s mask : Space,
        Space.isSettled root.unmarked s.unmarked mask.unmarked = Space.isSettled root s mask) ∧
      (∀ os (mask : Space), areSettledOrder root.unmarked (unmarkedOrder os) mask.unmarked =
          areSettledOrder root os mask) ∧
      (∀ o (mask : Space), isSettledItem root.unmarked (Code.unmarkedItem o) mask.unmarked =
          isSettledItem root o mask) ∧
      (∀ (c : Code) (mask : Space),
        c.unmarked.isSettled root.unmarked mask.unmarked = c.isSettled root mask) ∧
      (∀ cs (mask : Space), areSettled root.unmarked (unmarkedAll cs) mask.unmarked =
          areSettled root cs mask) ∧
      (∀ is (base seed : Space),
        areSettledImages root.unmarked (unmarkedImages is) base.unmarked seed.unmarked =
          areSettledImages root is base seed) ∧
      ∀ i (base seed : Space),
        isSettledImage root.unmarked (unmarkedImage i) base.unmarked seed.unmarked =
          isSettledImage root i base seed := by
  apply Space.unmarked.mutual_induct
  case case10 =>
    intro m b f hb hf mask
    have hmasked := isMasked_unmarked mask (.filtered m b f) b
    rw [Space.unmarked] at hmasked
    simp [Space.unmarked, Space.isSettled, codeMask_unmarked, hmasked, hb, hf]
  case case11 =>
    intro m b os l o hb hos mask
    have hmasked := isMasked_unmarked mask (.ordered m b os l o) b
    rw [Space.unmarked] at hmasked
    simp [Space.unmarked, Space.isSettled, codeMask_unmarked, ← apply_ite, hmasked, hb, hos]
  all_goals
    simp +contextual [Space.unmarked, Code.unmarked, unmarkedAll, unmarkedImages,
      unmarkedImage, unmarkedOrder, Code.unmarkedItem, Space.isSettled, Code.isSettled,
      areSettled, areSettledImages, isSettledImage, areSettledOrder,
      isSettledItem, lastAxis_unmarked, isImmediate_unmarked, Space.isOrigin_unmarked,
      dominates_unmarked, seed?_unmarked, Option.getD_map, ← apply_ite]

lemma Space.isSettled_unmarked (s mask : Space) :
    Space.isSettled root.unmarked s.unmarked mask.unmarked = Space.isSettled root s mask :=
  (isSettled_unmarked_mutual root).1 s mask

end Unmarked

namespace Space

attribute [local instance] Discipline.ending

variable {s t m : Space}

lemma extent_of_beq (h : (s == t)) : s.extent = t.extent := by
  rw [← extent_unmarked s, beq_iff_unmarked.1 h, extent_unmarked]

lemma exists_of_simplify_eq_ok (h : s.simplify (some m) = .ok t) :
    ∃ v n, s.tidy = .ok v ∧ m.tidy = .ok n ∧ unmask (s.ancestors.getLast?.getD s) v n = .ok t := by
  rw [simplify_eq] at h
  obtain ⟨v, hv, h⟩ := exists_of_bind_eq_ok h
  obtain ⟨n, hn, h⟩ := exists_of_bind_eq_ok h
  exact ⟨v, n, hv, hn, h⟩

lemma shrinks_of_tidy_eq_ok {v : Space} (h : s.tidy = .ok v) : s.Shrinks v := (ensures_tidy s).of_ok h

lemma pared_of_unmask_eq_ok {root : Space} (h : unmask root s m = .ok t) :
    s.Pared (isSettled root s m) t :=
  (Part.paredBehind (.space s) m).of_ok h

lemma Shrinks.beq_iff (h : s.Shrinks t) : (t == s) ↔ t.extent = s.extent :=
  ⟨extent_of_beq, fun heq => beq_iff_unmarked.2 (h.same heq)⟩

lemma extent_simplify_le (h : s.simplify (some m) = .ok t) : t.extent ≤ s.extent := by
  obtain ⟨v, n, hv, -, ht⟩ := exists_of_simplify_eq_ok h
  exact (pared_of_unmask_eq_ok ht).le.trans (shrinks_of_tidy_eq_ok hv).le

/-- A pass leaves a space as it is exactly if both of its halves do. -/
theorem simplify_beq_iff (h : s.simplify (some m) = .ok t) : ((t == s) ↔ t.extent = s.extent) ∧
      ∃ n, m.tidy = .ok n ∧ ((t == s) ↔ (∃ v, s.tidy = .ok v ∧ (v == s)) ∧
          isSettled (s.ancestors.getLast?.getD s) s n) := by
  obtain ⟨v, n, hv, hn, ht⟩ := exists_of_simplify_eq_ok h
  have hsv := shrinks_of_tidy_eq_ok hv
  have hvt := pared_of_unmask_eq_ok ht
  have hsvle := hsv.le
  have hvtle := hvt.le
  have hst : s.Shrinks t :=
    ⟨hvtle.trans hsvle, fun heq => (hvt.same (by omega)).trans (hsv.same (by omega))⟩
  have hsettled (h : v.extent = s.extent) : isSettled (s.ancestors.getLast?.getD s) s n ↔
      t.extent = v.extent := by
    rw [← hvt.kept_iff, ← isSettled_unmarked _ v, hsv.same h, isSettled_unmarked]
  refine ⟨hst.beq_iff, n, hn, hst.beq_iff.trans ⟨fun heq => ?_, fun ⟨⟨v', hv', hsame⟩, hset⟩ => ?_⟩⟩
  · have hvs : v.extent = s.extent := by omega
    exact ⟨⟨v, hv, hsv.beq_iff.2 hvs⟩, (hsettled hvs).2 (by omega)⟩
  · obtain rfl : v = v' := Except.ok.inj (hv.symm.trans hv')
    have hvs := hsv.beq_iff.1 hsame
    exact ((hsettled hvs).1 hset).trans hvs

/-- A pass over what a pass has left does not make the space larger. It leaves the space as it is exactly
if it does not make it smaller, and that is so exactly if no condition has become one that always holds
and nothing is superfluous behind the mask. -/
theorem simplify_simplify_beq_iff {u : Space} (ht : s.simplify (some m) = .ok t)
    (hu : t.simplify (some m) = .ok u) :
    t.extent ≤ s.extent ∧ u.extent ≤ t.extent ∧ ((u == t) = true ↔ u.extent = t.extent) ∧
      ∃ n, m.tidy = .ok n ∧ ((u == t) = true ↔ (∃ v, t.tidy = .ok v ∧ (v == t) = true) ∧
          isSettled (t.ancestors.getLast?.getD t) t n = true) :=
  ⟨extent_simplify_le ht, extent_simplify_le hu, simplify_beq_iff hu⟩

/-- Departments that are asked twice whether they are open, behind open departments: the first pass drops
one of the conditions, the second the other. -/
theorem simplify_simplify_beq_iff_twiceOpen :
    let twice : Space := .filtered .nowhere Sample.openDepartments
      (.column .nowhere .boolean Sample.isOpen Sample.departments)
    twice.simplify (some Sample.openDepartments) = .ok Sample.openDepartments ∧
      Sample.openDepartments.simplify (some Sample.openDepartments) = .ok Sample.departments ∧
      (Sample.departments == Sample.openDepartments) = false := by
  intro twice
  have hkept : isMasked Sample.openDepartments twice Sample.openDepartments = false := by
    simp [twice, isMasked, prune, pruneBy, isInflated, line, ancestors, Sample.openDepartments,
      Sample.departments, isAxis, pruneSteps, pruneSteps.keepSteps, resembles, isCommutative, chain,
      withBase]
    rfl
  have hmasked : isMasked Sample.openDepartments Sample.openDepartments Sample.departments = true := by
    simp [isMasked, prune, pruneBy, isInflated, line, ancestors, Sample.openDepartments,
      Sample.departments, isAxis, pruneSteps, pruneSteps.keepSteps, resembles, isCommutative, chain,
      withBase]
  have hdrop (root : Space) :
      unmask root Sample.openDepartments Sample.openDepartments = .ok Sample.departments := by
    rw [Sample.openDepartments] at hmasked ⊢
    rw [unmask, if_pos hmasked]
    rfl
  have hfirst : twice.simplify (some Sample.openDepartments) = .ok Sample.openDepartments := by
    rw [simplify_eq]
    change unmask _ twice Sample.openDepartments = _
    simp only [twice, unmask, hkept, hdrop]
    rfl
  have hsecond : Sample.openDepartments.simplify (some Sample.openDepartments) =
      .ok Sample.departments := by
    rw [simplify_eq]
    exact hdrop _
  have hextent := (simplify_simplify_beq_iff hfirst hsecond).2.2.1
  refine ⟨hfirst, hsecond, Bool.eq_false_iff.2 fun h => ?_⟩
  exact absurd (hextent.1 h) (by decide)

end Space

end NavQuery
