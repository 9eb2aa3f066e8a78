import Mathlib.Data.Fintype.Card
import Mathlib.Data.Set.Finite.Basic
import Mathlib.Logic.Relation
import Mathlib.Order.WellFounded
import NavQuery.Proofs.Company
import NavQuery.Proofs.SettledSpaces

/-!
Companions are given their own companions to a depth. Where a finite depth is enough the number of
entries is, and none is enough only if companions are met again while they are expanded themselves.
-/

namespace NavQuery

open List Code

namespace Companions

def lists (c : Companions) : List (List Code) := c.units.map (·.2) ++ c.spaces.map (·.2)

lemma length_lists (c : Companions) : c.lists.length = c.size := by simp [lists, size]

variable {codes : List Code} {c : Companions}

lemma mem_lists_of_ofUnit? {u : Code} (h : codes ∈ c.ofUnit? u) : codes ∈ c.lists := by
  obtain ⟨e, he, rfl⟩ := Option.map_eq_some_iff.1 h
  exact mem_append_left _ (mem_map_of_mem (mem_of_find?_eq_some he))

lemma mem_lists_of_ofSpace? {s : Space} (h : codes ∈ c.ofSpace? s) : codes ∈ c.lists := by
  obtain ⟨e, he, rfl⟩ := Option.map_eq_some_iff.1 h
  exact mem_append_right _ (mem_map_of_mem (mem_of_find?_eq_some he))

end Companions

mutual

def Space.met (c : Companions) : Space → List (List Code)
  | .root _ => []
  | .scalar _ b | .table _ b _ | .fiber _ b _ | .complement _ b _ => b.met c
  | .quotient m b s ks cs =>
    b.met c ++ (s.met c ++ (Code.metInAll c ks ++ (c.ofSpace? (.quotient m b s ks cs)).toList))
  | .moniker _ b s _ => b.met c ++ s.met c
  | .forked _ b s ks _ => b.met c ++ (s.met c ++ Code.metInAll c ks)
  | .linked _ b s is _ => b.met c ++ (s.met c ++ Code.metInImages c is)
  | .filtered _ b f => b.met c ++ f.met c
  | .ordered _ b os _ _ => b.met c ++ Code.metInOrder c os

def Code.met (c : Companions) : Code → List (List Code)
  | .missing | .literal _ _ _ | .parameter _ _ _ => []
  | .cast _ _ k | .correlation _ k => k.met c
  | .formula _ _ _ as => Code.metInAll c as
  | .column _ _ _ s | .kernel _ _ s => s.met c
  | .single m k s cs => k.met c ++ (s.met c ++ (c.ofUnit? (.single m k s cs)).toList)
  | .aggregate m k p s cs =>
    k.met c ++ (p.met c ++ (s.met c ++ (c.ofUnit? (.aggregate m k p s cs)).toList))
  | .correlated _ k p s => k.met c ++ (p.met c ++ s.met c)
  | .covering _ k s => k.met c ++ s.met c

def Code.metInAll (c : Companions) : List Code → List (List Code)
  | [] => []
  | k :: ks => k.met c ++ Code.metInAll c ks

def Code.metInImages (c : Companions) : List (Code × Code) → List (List Code)
  | [] => []
  | i :: is => Code.metInImage c i ++ Code.metInImages c is

def Code.metInImage (c : Companions) : Code × Code → List (List Code)
  | (a, b) => a.met c ++ b.met c

def Code.metInOrder (c : Companions) : List (Code × Direction) → List (List Code)
  | [] => []
  | o :: os => Code.metInItem c o ++ Code.metInOrder c os

def Code.metInItem (c : Companions) : Code × Direction → List (List Code)
  | (k, _) => k.met c

end

/-- The second result is the first one, unless this is that no end was reached. -/
def Result.Below {α : Type} (x y : Result α) : Prop := x = .error .endless ∨ x = y

/-- How a computation depends on the companions that are met: by one way to expand them and by another
that comes to an end at least as often. -/
structure Traced (c : Companions) (x y : Code → Result Code) {α : Type} (met : List (List Code))
    (r r' : Result α) : Prop where
  below : (∀ codes ∈ met, Result.Below (codes.mapM x) (codes.mapM y)) → Result.Below r r'
  endless : r = .error .endless → ∃ codes ∈ met, codes ∈ c.lists ∧ codes.mapM x = .error .endless
  ok : ∀ a, r = .ok a → ∀ codes ∈ met, ∃ ks, codes.mapM x = .ok ks

namespace Traced

variable {c : Companions} {x y : Code → Result Code} {α β : Type} {M N : List (List Code)}
  {r r' : Result α}

lemma const (r : Result α) (h : r ≠ .error .endless) : Traced c x y [] r r where
  below _ := .inr rfl
  endless hr := absurd hr h
  ok _ _ := nofun

lemma pure (a : α) : Traced c x y [] (Pure.pure a : Result α) (Pure.pure a) := const _ nofun

lemma bind {f f' : α → Result β} (h : Traced c x y M r r') (hf : ∀ a, Traced c x y N (f a) (f' a)) :
    Traced c x y (M ++ N) (r >>= f) (r' >>= f') where
  below hMN := by
    rw [forall_mem_append] at hMN
    obtain hr | rfl := h.below hMN.1
    · exact .inl (by rw [hr]; rfl)
    · cases r with
      | ok a => exact (hf a).below hMN.2
      | error e => exact .inr rfl
  endless hr := by
    cases r with
    | ok a =>
      obtain ⟨codes, hcodes, h⟩ := (hf a).endless hr
      exact ⟨codes, mem_append_right _ hcodes, h⟩
    | error e =>
      have he : e = .endless := Except.error.inj hr
      obtain ⟨codes, hcodes, h⟩ := h.endless (by rw [he])
      exact ⟨codes, mem_append_left _ hcodes, h⟩
  ok b hr := by
    cases r with
    | ok a => exact forall_mem_append.2 ⟨h.ok a rfl, (hf a).ok b hr⟩
    | error e => cases hr

lemma map {f : α → β} (h : Traced c x y M r r') :
    Traced c x y M (r >>= fun a => Pure.pure (f a)) (r' >>= fun a => Pure.pure (f a)) := by
  rw [← append_nil M]
  exact h.bind fun a => pure (f a)

lemma codes {codes : List Code} (hcodes : codes ∈ c.lists) :
    Traced c x y [codes] (codes.mapM x) (codes.mapM y) where
  below h := h codes (mem_singleton_self codes)
  endless h := ⟨codes, mem_singleton_self codes, hcodes, h⟩
  ok ks h := forall_mem_singleton.2 ⟨ks, h⟩

lemma attended_code (u joined : Code) : Traced c x y (c.ofUnit? u).toList
    (attended c x u joined) (attended c y u joined) := by
  unfold attended
  cases hks : c.ofUnit? u with
  | none => exact pure joined
  | some ks => exact (codes (Companions.mem_lists_of_ofUnit? hks)).map

lemma attended_space (s joined : Space) : Traced c x y (c.ofSpace? s).toList
    (Space.attended c x s joined) (Space.attended c y s joined) := by
  unfold Space.attended
  cases hks : c.ofSpace? s with
  | none => exact pure joined
  | some ks => exact (codes (Companions.mem_lists_of_ofSpace? hks)).map

lemma kernelPlace (k : Code) (s : Space) : Traced c x y [] (k.kernelPlace s) (k.kernelPlace s) := by
  refine const _ ?_
  unfold Code.kernelPlace
  cases s.family.kernels.findIdx? (· == k) <;> exact nofun

lemma kernelAt (m : Mark) (s : Space) (i : Nat) :
    Traced c x y [] (Code.kernelAt m s i) (Code.kernelAt m s i) := by
  refine const _ ?_
  unfold Code.kernelAt
  cases s.family.kernels[i]? <;> exact nofun

end Traced

section Rebuild

variable (c : Companions) (x y : Code → Result Code)

mutual

lemma Space.traced : ∀ s : Space,
    Traced c x y (s.met c) (s.rebuild (.accompany c x)) (s.rebuild (.accompany c y))
  | .root _ => .pure _
  | .scalar _ b | .table _ b _ | .fiber _ b _ | .complement _ b _ => by
    exact (Space.traced b).map
  | .quotient m b s ks cs => by
    exact (Space.traced b).bind fun b' => (Space.traced s).bind fun s' =>
      (Code.tracedAll ks).bind fun ks' => Traced.attended_space _ _
  | .moniker _ b s _ => by
    exact (Space.traced b).bind fun b' => (Space.traced s).map
  | .forked _ b s ks _ => by
    exact (Space.traced b).bind fun b' => (Space.traced s).bind fun s' => (Code.tracedAll ks).map
  | .linked _ b s is _ => by
    exact (Space.traced b).bind fun b' => (Space.traced s).bind fun s' => (Code.tracedImages is).map
  | .filtered _ b f => by
    exact (Space.traced b).bind fun b' => (Code.traced f).map
  | .ordered _ b os _ _ => by
    exact (Space.traced b).bind fun b' => (Code.tracedOrder os).map

lemma Code.traced : ∀ k : Code,
    Traced c x y (k.met c) (k.rebuild (.accompany c x)) (k.rebuild (.accompany c y))
  | .missing | .literal _ _ _ | .parameter _ _ _ => .pure _
  | .cast _ _ k | .correlation _ k => by
    exact (Code.traced k).map
  | .formula _ _ _ as => by
    exact (Code.tracedAll as).map
  | .column _ _ _ s => by
    exact (Space.traced s).map
  | .single m k s cs => by
    exact (Code.traced k).bind fun k' => (Space.traced s).bind fun s' => Traced.attended_code _ _
  | .aggregate m k p s cs => by
    exact (Code.traced k).bind fun k' => (Space.traced p).bind fun p' =>
      (Space.traced s).bind fun s' => Traced.attended_code _ _
  | .correlated _ k p s => by
    exact (Code.traced k).bind fun k' => (Space.traced p).bind fun p' => (Space.traced s).map
  | .kernel m k s => by
    rw [Code.met, ← append_nil (s.met c)]
    exact (Traced.kernelPlace k s).bind fun i => (Space.traced s).bind fun s' =>
      (Traced.kernelAt m s' i).map
  | .covering _ k s => by
    exact (Code.traced k).bind fun k' => (Space.traced s).map

lemma Code.tracedAll : ∀ ks : List Code, Traced c x y (metInAll c ks) (rebuildAll (.accompany c x) ks)
      (rebuildAll (.accompany c y) ks)
  | [] => .pure _
  | k :: ks => by
    exact (Code.traced k).bind fun k' => (Code.tracedAll ks).map

lemma Code.tracedImages : ∀ is : List (Code × Code),
    Traced c x y (metInImages c is) (rebuildImages (.accompany c x) is)
      (rebuildImages (.accompany c y) is)
  | [] => .pure _
  | i :: is => by
    exact (Code.tracedImage i).bind fun i' => (Code.tracedImages is).map

lemma Code.tracedImage : ∀ i : Code × Code,
    Traced c x y (metInImage c i) (rebuildImage (.accompany c x) i) (rebuildImage (.accompany c y) i)
  | (a, b) => by
    exact (Code.traced a).bind fun a' => (Code.traced b).map

lemma Code.tracedOrder : ∀ os : List (Code × Direction),
    Traced c x y (metInOrder c os) (rebuildOrder (.accompany c x) os) (rebuildOrder (.accompany c y) os)
  | [] => .pure _
  | o :: os => by
    exact (Code.tracedItem o).bind fun o' => (Code.tracedOrder os).map

lemma Code.tracedItem : ∀ o : Code × Direction,
    Traced c x y (metInItem c o) (rebuildItem (.accompany c x) o) (rebuildItem (.accompany c y) o)
  | (k, _) => by
    exact (Code.traced k).map

end

end Rebuild

section Depth

def Result.isEndless {α : Type} : Result α → Bool
  | .error .endless => true
  | _ => false

variable {α : Type} {ks : List Code} {x : Code → Result Code}

lemma Result.isEndless_iff {r : Result α} : r.isEndless ↔ r = .error .endless := by
  unfold isEndless
  split <;> simp_all

lemma Result.Below.trans {r r' r'' : Result α} (h : Below r r') (h' : Below r' r'') : Below r r'' := by
  obtain rfl | rfl := h
  · exact .inl rfl
  · exact h'

lemma Result.Below.mapM {y : Code → Result Code}
    (h : ∀ k ∈ ks, Below (x k) (y k)) : Below (ks.mapM x) (ks.mapM y) := by
  induction ks with
  | nil => exact .inr rfl
  | cons k ks ih =>
    rw [forall_mem_cons] at h
    rw [mapM_cons, mapM_cons]
    obtain hk | hk := h.1
    · exact .inl (by rw [hk]; rfl)
    · rw [hk]
      cases y k with
      | error e => exact .inr rfl
      | ok a =>
        obtain hks | hks := ih h.2
        · refine .inl ?_
          rw [hks]
          rfl
        · exact .inr (by rw [hks])

lemma exists_of_mapM_eq_endless (h : ks.mapM x = .error .endless) : ∃ k ∈ ks, x k = .error .endless := by
  induction ks with
  | nil => cases h
  | cons k ks ih =>
    rw [mapM_cons] at h
    cases hk : x k with
    | error e =>
      rw [hk] at h
      exact ⟨k, mem_cons_self, by rw [hk, show e = .endless from Except.error.inj h]⟩
    | ok a =>
      rw [hk] at h
      cases hks : ks.mapM x with
      | error e =>
        rw [hks] at h
        obtain ⟨l, hl, hx⟩ := ih (by rw [hks, show e = .endless from Except.error.inj h])
        exact ⟨l, mem_cons_of_mem k hl, hx⟩
      | ok as =>
        rw [hks] at h
        cases h

end Depth

namespace Companions

variable {c : Companions}

lemma expand_below_succ (c : Companions) (n : Nat) (k : Code) :
    Result.Below (c.expand n k) (c.expand (n + 1) k) := by
  induction n generalizing k with
  | zero => exact .inl rfl
  | succ n ih =>
    rw [expand_succ, expand_succ]
    exact (Code.traced c (c.expand n) (c.expand (n + 1)) k).below fun codes _ =>
      .mapM fun k _ => ih k

variable {n m : Nat} {codes : List Code}

lemma expand_below (h : m ≤ n) (codes : List Code) :
    Result.Below (codes.mapM (c.expand m)) (codes.mapM (c.expand n)) := by
  induction n, h using Nat.le_induction with
  | base => exact .inr rfl
  | succ n _ ih => exact ih.trans (.mapM fun k _ => c.expand_below_succ n k)

def Stable (c : Companions) (n : Nat) : Prop :=
  ∀ codes ∈ c.lists, codes.mapM (c.expand n) = codes.mapM (c.expand (n + 1))

lemma accompany_congr {x y : Code → Result Code} (h : ∀ codes ∈ c.lists, codes.mapM x = codes.mapM y) :
    Finish.accompany c x = Finish.accompany c y := by
  have hspace (s joined : Space) : Space.attended c x s joined = Space.attended c y s joined := by
    unfold Space.attended
    cases hks : c.ofSpace? s with
    | none => rfl
    | some ks => simp only [h ks (mem_lists_of_ofSpace? hks)]
  have hcode (u joined : Code) : attended c x u joined = attended c y u joined := by
    unfold attended
    cases hks : c.ofUnit? u with
    | none => rfl
    | some ks => simp only [h ks (mem_lists_of_ofUnit? hks)]
  simp only [Finish.accompany, hspace, hcode]

lemma Stable.succ (h : c.Stable n) : c.Stable (n + 1) := by
  have hexpand : c.expand (n + 1 + 1) = c.expand (n + 1) := by
    funext k
    rw [expand_succ, expand_succ, accompany_congr h]
  intro codes _
  rw [hexpand]

lemma Stable.mono (h : c.Stable n) (hnm : n ≤ m) : c.Stable m := by
  induction m, hnm using Nat.le_induction with
  | base => exact h
  | succ m _ ih => exact ih.succ

lemma Stable.mapM_eq (h : c.Stable n) (hnm : n ≤ m)
    (hcodes : codes ∈ c.lists) : codes.mapM (c.expand m) = codes.mapM (c.expand n) := by
  induction m, hnm using Nat.le_induction with
  | base => rfl
  | succ m hnm ih => rw [← h.mono hnm codes hcodes, ih]

def undecided (c : Companions) (n : Nat) : Nat :=
  c.lists.countP fun codes => (codes.mapM (c.expand n)).isEndless

variable {α : Type}

lemma countP_lt_countP {p q : α → Bool} {l : List α} (h : ∀ a ∈ l, q a → p a)
    {a : α} (ha : a ∈ l) (hp : p a) (hq : q a = false) : l.countP q < l.countP p := by
  obtain ⟨l₁, l₂, rfl⟩ := append_of_mem ha
  rw [countP_append, countP_append, countP_cons_of_pos hp, countP_cons_of_neg (by simp [hq])]
  have h₁ : l₁.countP q ≤ l₁.countP p :=
    countP_mono_left fun b hb => h b (mem_append_left _ hb)
  have h₂ : l₂.countP q ≤ l₂.countP p :=
    countP_mono_left fun b hb => h b (mem_append_right _ (mem_cons_of_mem a hb))
  omega

/-- A level that changes something decides an entry. -/
theorem undecided_succ_lt (h : ¬ c.Stable n) : c.undecided (n + 1) < c.undecided n := by
  simp only [Stable, not_forall] at h
  obtain ⟨codes, hcodes, hne⟩ := h
  have hbelow := fun codes => c.expand_below (Nat.le_succ n) codes
  refine countP_lt_countP (fun ks _ hks => ?_) hcodes ?_ ?_
  · rw [Result.isEndless_iff] at hks ⊢
    exact (hbelow ks).elim id fun h => h.trans hks
  · exact Result.isEndless_iff.2 ((hbelow codes).resolve_right hne)
  · rw [Bool.eq_false_iff, Ne, Result.isEndless_iff]
    exact fun hks => hne (((hbelow codes).resolve_right hne).trans hks.symm)

lemma exists_stable (c : Companions) : ∃ n ≤ c.size, c.Stable n := by
  by_contra h
  push Not at h
  have hcount : ∀ n ≤ c.size + 1, c.undecided n + n ≤ c.size := by
    intro n
    induction n with
    | zero => exact fun _ => c.length_lists ▸ countP_le_length
    | succ n ih =>
      intro hn
      have hlt := undecided_succ_lt (h n (Nat.le_of_succ_le_succ hn))
      omega
  have := hcount (c.size + 1) le_rfl
  omega

lemma mapM_expand_eq (h : c.size ≤ m) (hcodes : codes ∈ c.lists) :
    codes.mapM (c.expand m) = codes.mapM (c.expand c.size) := by
  obtain ⟨n, hn, hstable⟩ := c.exists_stable
  rw [hstable.mapM_eq (hn.trans h) hcodes, hstable.mapM_eq hn hcodes]

def Leads (c : Companions) (codes codes' : List Code) : Prop := ∃ k ∈ codes, codes' ∈ k.met c

/-- Companions that lead back to themselves are among those that are met further on. -/
def LeadsToCircle (c : Companions) (codes : List Code) : Prop :=
  ∃ codes', Relation.ReflTransGen c.Leads codes codes' ∧ Relation.TransGen c.Leads codes' codes'

lemma exists_leads_of_endless (h : codes.mapM (c.expand (n + 1)) = .error .endless) :
    ∃ codes' ∈ c.lists, c.Leads codes codes' ∧ codes'.mapM (c.expand n) = .error .endless := by
  obtain ⟨k, hk, hendless⟩ := exists_of_mapM_eq_endless h
  rw [expand_succ] at hendless
  obtain ⟨codes', hmet, hlisted, hcodes'⟩ :=
    (Code.traced c (c.expand n) (c.expand n) k).endless hendless
  exact ⟨codes', hlisted, ⟨k, hk, hmet⟩, hcodes'⟩

/-- In a finite set where every item has a successor some item comes after itself. -/
theorem exists_circle {R : α → α → Prop} {S : Set α} (hS : S.Finite)
    (hserial : ∀ a ∈ S, ∃ b ∈ S, R a b) {a : α} (ha : a ∈ S) :
    ∃ b, Relation.ReflTransGen R a b ∧ Relation.TransGen R b b := by
  by_contra hnone
  push Not at hnone
  let T : Set α := {b ∈ S | Relation.ReflTransGen R a b}
  have : Finite T := hS.subset fun b hb => hb.1
  let later : T → T → Prop := fun b b' => Relation.TransGen R b'.1 b.1
  have : Std.Irrefl later := ⟨fun b h => hnone b.1 b.2.2 h⟩
  have hwf : WellFounded later := Finite.wellFounded_of_trans_of_irrefl later
  obtain ⟨b, -, hmin⟩ := hwf.has_min Set.univ ⟨⟨a, ha, .refl⟩, trivial⟩
  obtain ⟨b', hb', hstep⟩ := hserial b.1 b.2.1
  exact hmin ⟨b', hb', b.2.2.tail hstep⟩ trivial (.single hstep)

lemma leadsToCircle_of_endless (hcodes : codes ∈ c.lists)
    (h : codes.mapM (c.expand c.size) = .error .endless) : c.LeadsToCircle codes := by
  let S : Set (List Code) :=
    {codes | codes ∈ c.lists ∧ codes.mapM (c.expand c.size) = .error .endless}
  have hfinite : S.Finite := c.lists.finite_toSet.subset fun codes h => h.1
  refine exists_circle hfinite (fun codes h => ?_) (a := codes) ⟨hcodes, h⟩
  obtain ⟨hcodes, h⟩ : codes ∈ c.lists ∧ codes.mapM (c.expand c.size) = .error .endless := h
  rw [← mapM_expand_eq (Nat.le_succ _) hcodes] at h
  obtain ⟨codes', hlisted, hleads, hendless⟩ := exists_leads_of_endless h
  exact ⟨codes', ⟨hlisted, hendless⟩, hleads⟩

lemma exists_lt_of_leads {codes' : List Code} (h : c.Leads codes codes')
    (hok : ∃ ks, codes.mapM (c.expand n) = .ok ks) :
    ∃ m < n, ∃ ks, codes'.mapM (c.expand m) = .ok ks := by
  obtain ⟨k, hk, hmet⟩ := h
  obtain ⟨ks, hks⟩ := hok
  obtain ⟨k', hk'⟩ := exists_of_mapM_eq_ok hks hk
  cases n with
  | zero => cases hk'
  | succ n =>
    rw [expand_succ] at hk'
    exact ⟨n, Nat.lt_succ_self n, (Code.traced c (c.expand n) (c.expand n) k).ok k' hk' codes' hmet⟩

lemma not_leadsToCircle_of_ok
    (hok : ∃ ks, codes.mapM (c.expand n) = .ok ks) : ¬ c.LeadsToCircle codes := by
  rintro ⟨codes', hreach, hcircle⟩
  have hpass {codes codes' : List Code} (h : Relation.ReflTransGen c.Leads codes codes') {n : Nat}
      (hok : ∃ ks, codes.mapM (c.expand n) = .ok ks) :
      ∃ m ≤ n, ∃ ks, codes'.mapM (c.expand m) = .ok ks := by
    induction h with
    | refl => exact ⟨n, le_rfl, hok⟩
    | tail _ hstep ih =>
      obtain ⟨m, hm, hok⟩ := ih
      obtain ⟨l, hl, hok⟩ := exists_lt_of_leads hstep hok
      exact ⟨l, (hl.trans_le hm).le, hok⟩
  obtain ⟨m, -, hok⟩ := hpass hreach hok
  -- once around the circle the depth has become less, for ever
  induction m using Nat.strong_induction_on with
  | _ m ih =>
    obtain ⟨codes'', hstep, hback⟩ := Relation.TransGen.head'_iff.1 hcircle
    obtain ⟨l, hl, hok⟩ := exists_lt_of_leads hstep hok
    obtain ⟨l', hl', hok⟩ := hpass hback hok
    exact ih l' (hl'.trans_lt hl) hok

end Companions

namespace Segment

/-- A segment without what always holds and what its root guarantees, before units get companions. -/
def pared (s : Segment) : Result Segment := do (← s.tidy).unmask s.root

def companions (s : Segment) : Companions := Companions.ofUnits s.units

def accompanyTo (n : Nat) (s : Segment) : Result Segment :=
  s.rebuild (.accompany s.companions (s.companions.expand n))

def simplifyTo (n : Nat) (s : Segment) : Result Segment := do (← s.pared).accompanyTo n

def met (s : Segment) : List (List Code) :=
  s.root.met s.companions ++ (s.space.met s.companions ++ metInAll s.companions s.codes)

/-- What a segment asks for has companions that lead back to themselves. -/
def Circular (s : Segment) : Prop :=
  ∃ u, s.pared = .ok u ∧ ∃ codes ∈ u.met, u.companions.LeadsToCircle codes

lemma traced (s : Segment) (x y : Code → Result Code) :
    Traced s.companions x y s.met (s.rebuild (.accompany s.companions x))
      (s.rebuild (.accompany s.companions y)) := by
  rw [rebuild_eq, rebuild_eq]
  exact (Space.traced _ x y s.root).bind fun root => (Space.traced _ x y s.space).bind fun space =>
    (tracedAll _ x y s.codes).map

variable {s : Segment} {n : Nat}

lemma accompanyTo_eq (h : s.companions.size ≤ n) : s.accompanyTo n = s.accompany := by
  rw [accompanyTo, Companions.accompany_congr fun codes => Companions.mapM_expand_eq h]
  rfl

lemma accompanyTo_below {m : Nat} (h : m ≤ n) (s : Segment) :
    Result.Below (s.accompanyTo m) (s.accompanyTo n) :=
  (s.traced _ _).below fun codes _ => Companions.expand_below h codes

lemma simplify_eq_bind (s : Segment) : s.simplify = s.pared >>= accompany := by
  rw [simplify, pared, bind_assoc]

section Ending

attribute [local instance] Discipline.ending

lemma ensures_pared (s : Segment) : Passes s.pared := by
  let R : Renewal := ⟨fun _ => True, fun _ => Part.made_iff.2 fun _ _ => trivial, fun _ _ => True, fun _ _ => True⟩
  have hR : R.Unmasks := ⟨⟨fun _ _ => trivial, fun _ _ => trivial⟩, fun _ => trivial, fun _ => trivial,
    fun _ _ => trivial, fun _ _ => trivial⟩
  have htidy := hR.tidy (fun _ => trivial) fun _ _ => ensures_isTrue _
  refine (ensures_rebuild htidy fun _ _ => trivial).bind fun t _ => ?_
  exact (ensures_unmask hR s.root fun _ _ => trivial).imp fun _ _ => trivial

lemma pared_ne_endless (s : Segment) : s.pared ≠ .error .endless := by
  intro h
  have hs := s.ensures_pared
  rw [h] at hs
  exact hs rfl

end Ending

lemma circular_of_endless {u : Segment} (hu : s.pared = .ok u) (h : u.accompany = .error .endless) :
    s.Circular := by
  obtain ⟨codes, hmet, hlisted, hendless⟩ := (u.traced _ (u.companions.expand 0)).endless h
  exact ⟨u, hu, codes, hmet, Companions.leadsToCircle_of_endless hlisted hendless⟩

/-- Simplifying a segment is done at some depth of companions, and deeper it gives the same. It comes to
no end at any depth only if there are companions that lead back to themselves, and gives a segment only if
there are none. -/
theorem simplify_ends_unless_circular (s : Segment) : (∃ n, ∀ m, n ≤ m → s.simplifyTo m = s.simplify) ∧
      (s.simplify = .error .endless → s.Circular ∧ ∀ n, s.simplifyTo n = .error .endless) ∧
      ∀ t, s.simplify = .ok t → ¬ s.Circular := by
  rw [simplify_eq_bind]
  unfold simplifyTo
  cases hu : s.pared with
  | error e =>
    refine ⟨⟨0, fun _ _ => rfl⟩, fun h => ?_, nofun⟩
    exact absurd (hu.trans h) s.pared_ne_endless
  | ok u =>
    refine ⟨⟨u.companions.size, fun m => accompanyTo_eq⟩, fun h => ⟨circular_of_endless hu h, fun n => ?_⟩,
      fun t ht => ?_⟩
    · have hbelow := u.accompanyTo_below (le_max_left n u.companions.size)
      rw [accompanyTo_eq (le_max_right _ _)] at hbelow
      exact hbelow.elim id fun heq => heq.trans h
    · rintro ⟨v, hv, codes, hmet, hcircle⟩
      obtain rfl : u = v := Except.ok.inj (hu.symm.trans hv)
      exact Companions.not_leadsToCircle_of_ok ((u.traced _ (u.companions.expand 0)).ok t ht codes hmet)
        hcircle

/-- The greatest code among the departments of each kind, open or not. -/
def lastByKind : Segment :=
  let kinds : Space := .quotient .nowhere (.root .nowhere) Sample.departments
    [.column .nowhere .boolean Sample.isOpen Sample.departments] []
  let members : Space := .complement .nowhere kinds []
  let last : Code := .aggregate .nowhere
    (.formula .nowhere .text (.plain .max) [.column .nowhere .text Sample.departmentCode members])
    members kinds []
  ⟨.root .nowhere, kinds, [last], .nowhere⟩

/-- The kinds are asked for the greatest code while their members are, and for their members while the
kinds are. -/
theorem simplify_ends_unless_circular_lastByKind :
    lastByKind.simplify = .error .endless ∧ lastByKind.Circular ∧
      ∀ n, lastByKind.simplifyTo n = .error .endless := by
  have htidy : lastByKind.tidy = .ok lastByKind := (rebuild_eq _ _).trans rfl
  have hunmask : lastByKind.unmask (.root .nowhere) = .ok lastByKind := by
    rw [unmask_eq]
    rfl
  have hpared : lastByKind.pared = .ok lastByKind := by
    simp only [pared, htidy, bind]
    exact hunmask
  have haccompany : lastByKind.accompany = .error .endless := by
    rw [← accompanyTo_eq (n := 2) (by rw [companions, units_eq]; decide +kernel), ← Result.isEndless_iff]
    have hexpand (c : Companions) (n : Nat) :
        c.expand (n + 1) = fun k => k.rebuild (.accompany c (c.expand n)) := funext (c.expand_succ n)
    simp only [accompanyTo, companions, rebuild_eq, units_eq, hexpand]
    decide +kernel
  have hsimplify : lastByKind.simplify = .error .endless := by
    simp only [simplify_eq_bind, hpared]
    exact haccompany
  exact ⟨hsimplify, (simplify_ends_unless_circular _).2.1 hsimplify⟩

end Segment

end NavQuery
