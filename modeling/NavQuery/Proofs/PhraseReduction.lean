import Mathlib.Order.Lattice.Nat
import NavQuery.Proofs.PhraseRules

/-!
`value_reduce`: a reduced phrase has the value of the phrase, if a NULLIF or an aggregate that loses its
nullable mark on the way is not null. A default behind it would be lost.
-/

namespace NavQuery

open List Operator

variable {V : Type}

def Phrase.isLeaf : Phrase → Bool
  | literal _ _ _ | parameter _ _ | column _ _ _ | embedding _ _ => true
  | _ => false

namespace Phrase

lemma reduceAllWith_eq (resolve : Tag → Nat → Result (Option Phrase)) (ps : List Phrase) :
    reduceAllWith resolve ps = ps.mapM (reduceWith resolve) := eq_mapM_of_cons ps rfl fun _ _ => rfl

variable {p : Phrase} {resolve : Tag → Nat → Result (Option Phrase)} {q : Phrase}

lemma reduceWith_mono {resolve' : Tag → Nat → Result (Option Phrase)}
    (h : ∀ t i r, resolve t i = .ok r → resolve' t i = .ok r)
    (hq : p.reduceWith resolve = .ok q) : p.reduceWith resolve' = .ok q := by
  induction p generalizing q with
  | literal | parameter | column | embedding => exact hq
  | cast d n p ih =>
    rw [reduceWith] at hq ⊢
    obtain ⟨r, hr, hq⟩ := exists_of_bind_eq_ok hq
    rw [ih hr]
    exact hq
  | reference d n t i =>
    rw [reduceWith] at hq ⊢
    obtain ⟨r, hr, hq⟩ := exists_of_bind_eq_ok hq
    rw [h t i r hr]
    exact hq
  | formula d n f as ih =>
    rw [reduceWith, reduceAllWith_eq] at hq ⊢
    obtain ⟨bs, hbs, hq⟩ := exists_of_bind_eq_ok hq
    rw [mapM_mono (fun a ha b => ih a ha) hbs]
    exact hq

lemma exists_resolve_of_reduceWith_eq_ok
    (hq : p.reduceWith resolve = .ok q) {t : Tag} {i : Nat} (hi : Use.item t i ∈ p.uses) :
    ∃ r, resolve t i = .ok r := by
  induction p generalizing q with
  | literal | parameter => cases hi
  | column | embedding => cases mem_singleton.1 hi
  | cast d n p ih =>
    obtain ⟨r, hr, -⟩ := exists_of_bind_eq_ok hq
    exact ih hr hi
  | reference d n u j =>
    obtain ⟨rfl, rfl⟩ := Use.item.inj (mem_singleton.1 hi)
    obtain ⟨r, hr, -⟩ := exists_of_bind_eq_ok hq
    exact ⟨r, hr⟩
  | formula d n f as ih =>
    obtain ⟨a, ha, hi⟩ := mem_uses_formula.1 hi
    rw [reduceWith, reduceAllWith_eq] at hq
    obtain ⟨bs, hbs, -⟩ := exists_of_bind_eq_ok hq
    obtain ⟨b, hb⟩ := exists_of_mapM_eq_ok hbs ha
    exact ih a ha hb hi

lemma exists_reduceWith_eq_ok (h : ∀ t i, Use.item t i ∈ p.uses → ∃ r, resolve t i = .ok r) :
    ∃ q, p.reduceWith resolve = .ok q := by
  induction p with
  | literal | parameter | column | embedding => exact ⟨_, rfl⟩
  | cast d n p ih =>
    obtain ⟨q, hq⟩ := ih h
    rw [reduceWith, hq]
    exact ⟨_, rfl⟩
  | reference d n t i =>
    obtain ⟨r, hr⟩ := h t i (by simp [uses])
    rw [reduceWith, hr]
    cases r <;> exact ⟨_, rfl⟩
  | formula d n f as ih =>
    obtain ⟨bs, hbs⟩ := exists_mapM_eq_ok as fun a ha =>
      ih a ha fun t i hi => h t i (mem_uses_formula.2 ⟨a, ha, hi⟩)
    rw [reduceWith, reduceAllWith_eq, hbs]
    exact ⟨_, rfl⟩

end Phrase

namespace Substitutes

open Phrase

variable {m i : Nat} {s : Substitutes} {t : Tag} {r : Option Phrase}

variable {p : Phrase} {select : List Phrase} {x : Tag × Nat}

lemma resolve_succ {q : Phrase} (hgone : s.lookup t = some select) (hselect : select[i]? = some p)
    (hq : p.reduceWith (s.resolve m) = .ok q) : s.resolve (m + 1) t i = .ok (some q) := by
  simp only [resolve, hgone, hselect, hq]
  rfl

lemma resolve_cases (h : s.resolve m t i = .ok r) : (s.lookup t = none ∧ r = none) ∨
      ∃ select p q n, s.lookup t = some select ∧ select[i]? = some p ∧ m = n + 1 ∧
        p.reduceWith (s.resolve n) = .ok q ∧ r = some q := by
  unfold resolve at h
  cases hgone : s.lookup t with
  | none =>
    simp only [hgone] at h
    cases h
    exact .inl ⟨rfl, rfl⟩
  | some select =>
    simp only [hgone] at h
    cases hselect : select[i]? with
    | none =>
      simp only [hselect] at h
      cases h
    | some p =>
      simp only [hselect] at h
      cases m with
      | zero => cases h
      | succ n =>
        obtain ⟨q, hq, h⟩ := exists_of_bind_eq_ok h
        cases h
        exact .inr ⟨select, p, q, n, rfl, hselect, rfl, hq, rfl⟩

lemma resolve_mono (s : Substitutes) {m' : Nat} (hm : m ≤ m') (h : s.resolve m t i = .ok r) : s.resolve m' t i = .ok r := by
  induction m generalizing m' t i r with
  | zero =>
    obtain ⟨hgone, rfl⟩ | ⟨select, p, q, n, -, -, hn, -⟩ := resolve_cases h
    · unfold resolve
      rw [hgone]
      rfl
    · cases hn
  | succ m ih =>
    obtain ⟨hgone, rfl⟩ | ⟨select, p, q, n, hgone, hselect, hn, hq, rfl⟩ := resolve_cases h
    · unfold resolve
      rw [hgone]
      rfl
    · cases hn
      obtain ⟨m', rfl⟩ : ∃ l, m' = l + 1 := ⟨m' - 1, by omega⟩
      exact resolve_succ hgone hselect (reduceWith_mono (fun _ _ _ => ih (by omega)) hq)

/-- The references in a phrase to frames that are gone are to items that they selected. -/
def InRange (s : Substitutes) (p : Phrase) : Prop :=
  ∀ t i, Use.item t i ∈ p.uses → ∀ select, List.lookup t s = some select → i < select.length

/-- Nor do the references in the selected phrases run in a circle: they lead to items of a lower rank. -/
structure Grounded (s : Substitutes) (rank : Tag × Nat → Nat) : Prop where
  inRange : ∀ t select, List.lookup t s = some select → ∀ p ∈ select, s.InRange p
  rank_lt : ∀ t select i p, List.lookup t s = some select → select[i]? = some p →
    ∀ u j, Use.item u j ∈ p.uses → (List.lookup u s).isSome → rank (u, j) < rank (t, i)

def items (s : Substitutes) : List (Tag × Nat) :=
  s.flatMap fun x => (List.range x.2.length).map fun i => (x.1, i)

lemma length_items (s : Substitutes) : s.items.length = s.count := by
  simp [items, count]

lemma mem_items (hgone : s.lookup t = some select) (hi : i < select.length) : (t, i) ∈ s.items :=
  mem_flatMap.2 ⟨_, mem_of_lookup hgone, mem_map.2 ⟨i, mem_range.2 hi, rfl⟩⟩

variable {s : Substitutes} {rank : Tag × Nat → Nat}

def depth (s : Substitutes) (rank : Tag × Nat → Nat) (x : Tag × Nat) : Nat :=
  (s.items.filter fun y => rank y < rank x).length

lemma depth_lt {y : Tag × Nat} (hx : x ∈ s.items) (h : rank x < rank y) :
    s.depth rank x < s.depth rank y := by
  have hfilter : s.items.filter (fun z => rank z < rank x) =
      (s.items.filter fun z => rank z < rank y).filter fun z => rank z < rank x := by
    rw [filter_filter]
    refine filter_congr fun z _ => ?_
    rw [Bool.eq_iff_iff, Bool.and_eq_true, decide_eq_true_eq, decide_eq_true_eq]
    omega
  rw [depth, depth, hfilter, length_filter_lt_length_iff_exists]
  exact ⟨x, mem_filter.2 ⟨hx, by simpa using h⟩, by simp⟩

lemma depth_lt_count (hx : x ∈ s.items) : s.depth rank x < s.count := by
  rw [depth, ← length_items, length_filter_lt_length_iff_exists]
  exact ⟨x, hx, by simp⟩

/-- From references of a kind only such references are met, and each of them is to a selected item and leads
to items of a lower rank. -/
def Descends (s : Substitutes) (rank : Tag × Nat → Nat) (G : Tag → Nat → Prop) : Prop :=
  ∀ t i select, G t i → List.lookup t s = some select → ∃ p, select[i]? = some p ∧
    ∀ u j, Use.item u j ∈ p.uses → (List.lookup u s).isSome → G u j ∧ rank (u, j) < rank (t, i)

lemma Descends.exists_resolve_eq_ok {G : Tag → Nat → Prop} (hs : s.Descends rank G) (h : (s.lookup t).isSome → G t i ∧ s.depth rank (t, i) < m) :
    ∃ r, s.resolve m t i = .ok r := by
  induction m generalizing t i with
  | zero =>
    cases hgone : s.lookup t with
    | none => exact ⟨none, by rw [resolve, hgone]; rfl⟩
    | some select => exact absurd (h (by rw [hgone]; rfl)).2 (Nat.not_lt_zero _)
  | succ m ih =>
    cases hgone : s.lookup t with
    | none => exact ⟨none, by rw [resolve, hgone]; rfl⟩
    | some select =>
      obtain ⟨hG, hdepth⟩ := h (by rw [hgone]; rfl)
      obtain ⟨p, hp, hlower⟩ := hs t i select hG hgone
      have hresolve : ∀ u j, Use.item u j ∈ p.uses → ∃ r, s.resolve m u j = .ok r := by
        refine fun u j hu => ih fun hsome => ?_
        obtain ⟨hG', hrank⟩ := hlower u j hu hsome
        obtain ⟨select', hselect'⟩ := Option.isSome_iff_exists.1 hsome
        obtain ⟨q, hq, -⟩ := hs u j select' hG' hselect'
        have hlt := depth_lt (mem_items hselect' (List.getElem?_eq_some_iff.1 hq).1) hrank
        exact ⟨hG', by omega⟩
      obtain ⟨q, hq⟩ := exists_reduceWith_eq_ok hresolve
      exact ⟨some q, resolve_succ hgone hp hq⟩

lemma Grounded.descends (hs : s.Grounded rank) :
    s.Descends rank fun t i => ∀ select, s.lookup t = some select → i < select.length := by
  intro t i select hG hgone
  have hi := hG select hgone
  have hselect := getElem?_eq_getElem hi
  exact ⟨_, hselect, fun u j hu hsome => ⟨hs.inRange t select hgone _ (getElem_mem hi) u j hu,
    hs.rank_lt t select i _ hgone hselect u j hu hsome⟩⟩

lemma exists_resolve_count_eq_ok (h : s.resolve m t i = .ok r) : ∃ r, s.resolve s.count t i = .ok r := by
  let Ends (t : Tag) (i m : Nat) : Prop := ∃ r, s.resolve m t i = .ok r
  -- the rank is the least depth that is enough
  let rank (x : Tag × Nat) : Nat := sInf {m | Ends x.1 x.2 m}
  have hends {t : Tag} {i : Nat} (h : ∃ m, Ends t i m) : Ends t i (rank (t, i)) :=
    Nat.sInf_mem (s := {m | Ends t i m}) h
  have hdescends : s.Descends rank fun t i => ∃ m, Ends t i m := by
    intro t i select hG hgone
    obtain ⟨r, hr⟩ := hends hG
    obtain ⟨hnone, -⟩ | ⟨select', p, q, n, hgone', hp, hn, hq, -⟩ := resolve_cases hr
    · rw [hgone] at hnone
      cases hnone
    obtain rfl := Option.some.inj (hgone.symm.trans hgone')
    refine ⟨p, hp, fun u j hu _ => ?_⟩
    have hu : Ends u j n := exists_resolve_of_reduceWith_eq_ok hq hu
    have hle : rank (u, j) ≤ n := Nat.sInf_le hu
    exact ⟨⟨n, hu⟩, by omega⟩
  refine hdescends.exists_resolve_eq_ok fun hsome => ⟨⟨m, r, h⟩, depth_lt_count ?_⟩
  obtain ⟨select, hselect⟩ := Option.isSome_iff_exists.1 hsome
  obtain ⟨p, hp, -⟩ := hdescends t i select ⟨m, r, h⟩ hselect
  exact mem_items hselect (List.getElem?_eq_some_iff.1 hp).1

lemma exists_reduce_eq_ok (hs : s.Grounded rank) (hp : s.InRange p) : ∃ q, s.reduce p = .ok q :=
  exists_reduceWith_eq_ok fun t i hi => hs.descends.exists_resolve_eq_ok fun hsome => by
    obtain ⟨select, hgone⟩ := Option.isSome_iff_exists.1 hsome
    exact ⟨hp t i hi, depth_lt_count (mem_items hgone (hp t i hi select hgone))⟩

end Substitutes

namespace Interpretation

open Phrase

variable (I : Interpretation V) [DecidableEq V]

/-- A property holds of a phrase and all that it reads, where a reference to a frame that is gone reads
the phrase that the frame selected. -/
inductive Everywhere (s : Substitutes) (P : Phrase → Scene V → Prop) : Phrase → Scene V → Prop
  | leaf {p : Phrase} {k : Scene V} (self : P p k) (hp : p.isLeaf) : Everywhere s P p k
  | cast {d : Domain} {n : Bool} {p : Phrase} {k : Scene V} (self : P (.cast d n p) k)
      (operand : Everywhere s P p k) : Everywhere s P (.cast d n p) k
  | formula {d : Domain} {n : Bool} {f : Operator} {as : List Phrase} {k : Scene V}
      (self : P (.formula d n f as) k)
      (operands : ∀ k' ∈ f.scenes k, ∀ a ∈ as, Everywhere s P a k') :
      Everywhere s P (.formula d n f as) k
  | kept {d : Domain} {n : Bool} {t : Tag} {i : Nat} {k : Scene V} (self : P (.reference d n t i) k)
      (hkept : List.lookup t s = none) : Everywhere s P (.reference d n t i) k
  | gone {d : Domain} {n : Bool} {t : Tag} {i : Nat} {k : Scene V} {select : List Phrase} {p : Phrase}
      (self : P (.reference d n t i) k) (hgone : List.lookup t s = some select)
      (hselect : select[i]? = some p) (hreads : I.value (.reference d n t i) k = I.value p k)
      (target : Everywhere s P p k) : Everywhere s P (.reference d n t i) k

/-- A formula loses its mark where no reduced operand is marked nullable. If its operator can give null
of its own, the value has to be another one there. -/
def Candid (s : Substitutes) (p : Phrase) (k : Scene V) : Prop :=
  ∀ d f as, p = .formula d true f as → f.canGiveNull →
    ∀ bs, as.mapM s.reduce = .ok bs → (∀ b ∈ bs, b.nullable = false) → I.value p k ≠ I.null

variable {I} {s : Substitutes} {k : Scene V}

namespace Everywhere

variable {P Q : Phrase → Scene V → Prop} {p : Phrase}

lemma self (h : I.Everywhere s P p k) : P p k := by
  cases h <;> assumption

lemma imp (h : I.Everywhere s P p k) (hPQ : ∀ p k, I.Everywhere s P p k → Q p k) :
    I.Everywhere s Q p k := by
  induction h with
  | leaf self hp => exact .leaf (hPQ _ _ (.leaf self hp)) hp
  | cast self operand ih => exact .cast (hPQ _ _ (.cast self operand)) ih
  | formula self operands ih => exact .formula (hPQ _ _ (.formula self operands)) ih
  | kept self hkept => exact .kept (hPQ _ _ (.kept self hkept)) hkept
  | gone self hgone hselect hreads target ih =>
    exact .gone (hPQ _ _ (.gone self hgone hselect hreads target)) hgone hselect hreads ih

lemma and (hP : I.Everywhere s P p k) (hQ : I.Everywhere s Q p k) :
    I.Everywhere s (fun p k => P p k ∧ Q p k) p k := by
  induction hP with
  | leaf self hp => exact .leaf ⟨self, hQ.self⟩ hp
  | cast self _ ih =>
    have hself := hQ.self
    cases hQ with
    | leaf _ hp => cases hp
    | cast _ operand => exact .cast ⟨self, hself⟩ (ih operand)
  | formula self _ ih =>
    have hself := hQ.self
    cases hQ with
    | leaf _ hp => cases hp
    | formula _ operands =>
      exact .formula ⟨self, hself⟩ fun k' hk' a ha => ih k' hk' a ha (operands k' hk' a ha)
  | kept self hkept => exact .kept ⟨self, hQ.self⟩ hkept
  | gone self hgone hselect hreads _ ih =>
    have hself := hQ.self
    cases hQ with
    | leaf _ hp => cases hp
    | kept _ hkept => simp [hkept] at hgone
    | gone _ hgone' hselect' _ target =>
      obtain rfl := Option.some.inj (hgone.symm.trans hgone')
      obtain rfl := Option.some.inj (hselect.symm.trans hselect')
      exact .gone ⟨self, hself⟩ hgone hselect hreads (ih target)

end Everywhere

variable {p q : Phrase} {bs : List Phrase} {f : Operator}

lemma ready_of_fits (h : I.Fits p k) (hp : ∀ d n f as, p ≠ .formula d n f as) : I.Ready p k :=
  .intro h fun d n f as heq => absurd heq (hp d n f as)

variable {as : List Phrase} {y x : Phrase} {g : Operator}

lemma Fits.formula_congr {d : Domain} {n : Bool}
    (h : I.Fits (.formula d n f as) k) (hlength : as.length = bs.length)
    (hvalue : ∀ k' ∈ f.scenes k, as.map (I.value · k') = bs.map (I.value · k')) :
    I.Fits (.formula d n f bs) k := by
  refine fits_formula (fun hn => ?_) (hlength ▸ h.formed _ _ _ _ rfl) fun hlogical b hb => ?_
  · rw [← value_formula_congr hvalue]
    exact h.marked hn
  · have haggregate : f.isAggregate = false := by
      unfold isLogical at hlogical
      unfold isAggregate
      split at hlogical <;> simp_all
    have hmem : I.value b k ∈ as.map (I.value · k) := by
      rw [hvalue k (by simp [scenes_eq haggregate])]
      exact mem_map_of_mem hb
    obtain ⟨a, ha, heq⟩ := mem_map.1 hmem
    exact heq ▸ h.truths _ _ _ _ rfl hlogical a ha

lemma replaces_operands
    {resolve : Tag → Nat → Result (Option Phrase)} (hbs : as.mapM (reduceWith resolve) = .ok bs)
    (h : ∀ k' ∈ f.scenes k, ∀ a ∈ as, ∀ b, a.reduceWith resolve = .ok b → I.Replaces k' a b) :
    (∀ k' ∈ f.scenes k, as.map (I.value · k') = bs.map (I.value · k')) ∧
      ∀ k' ∈ f.scenes k, ∀ b ∈ bs, I.Ready b k' := by
  have hreplaces : ∀ k' ∈ f.scenes k, List.Forall₂ (I.Replaces k') as bs := fun k' hk' =>
    ((forall₂_and_left (p := (· ∈ as)) _ _).2 ⟨fun _ => id, forall₂_of_mapM_eq_ok hbs⟩).imp
      fun a b hab => h k' hk' a hab.1 b hab.2
  refine ⟨fun k' hk' => ?_, fun k' hk' => ?_⟩
  · exact map_eq_map_of_forall₂ (hreplaces k' hk') fun a b hab => hab.value_eq.symm
  · exact ((forall₂_and_left (p := (I.Ready · k')) bs as).1
      ((hreplaces k' hk').flip.imp fun b a hab => ⟨hab.ready, hab⟩)).1

lemma replaces_reduceWith (h : I.Everywhere s (fun p k => I.Fits p k ∧ I.Candid s p k) p k) {m : Nat}
    (hm : m ≤ s.count) (hq : p.reduceWith (s.resolve m) = .ok q) : I.Replaces k p q := by
  induction h generalizing m q with
  | @leaf p k self hp =>
    have hself : reduceWith (s.resolve m) p = .ok p := by
      cases p <;> first | rfl | simp [isLeaf] at hp
    obtain rfl : p = q := by simpa [hself] using hq
    exact ⟨rfl, ready_of_fits self.1 fun d n f as heq => by simp [heq, isLeaf] at hp⟩
  | @cast d n p k self _ ih =>
    obtain ⟨r, hr, hq⟩ := exists_of_bind_eq_ok hq
    obtain ⟨hvalue, hready⟩ := ih hm hr
    cases hq
    split
    · rename_i hnull
      refine ⟨?_, ready_null d⟩
      rw [value, ← hvalue, value_of_isNull hnull]
      exact ((I.cast_eq_null_iff d _).2 rfl).symm
    · refine ⟨congrArg (I.cast d) hvalue, ready_of_fits ⟨fun hn => ?_, ?_, ?_, ?_⟩ ?_⟩
      · exact fun hnull => hready.fits.marked hn ((I.cast_eq_null_iff d _).1 hnull)
      · rintro _ _ _ ⟨⟩
      all_goals rintro _ _ _ _ ⟨⟩
  | @formula d n f as k self _ ih =>
    rw [reduceWith, reduceAllWith_eq] at hq
    obtain ⟨bs, hbs, hq⟩ := exists_of_bind_eq_ok hq
    cases hq
    have hlength := (forall₂_of_mapM_eq_ok hbs).length_eq
    obtain ⟨hvalue, hready⟩ := replaces_operands hbs fun k' hk' a ha b => ih k' hk' a ha hm
    have hcandid : f.canGiveNull → n → (∀ b ∈ bs, b.nullable = false) →
        I.value (.formula d n f bs) k ≠ I.null := by
      rintro hnull rfl hnullable
      rw [← value_formula_congr hvalue d d true true]
      refine self.2 d f as rfl hnull bs ?_ hnullable
      exact mapM_mono (fun a _ b => reduceWith_mono fun _ _ _ => s.resolve_mono hm) hbs
    obtain ⟨heq, hfits⟩ := replaces_reduceFormula (self.1.formula_congr hlength hvalue) hready hcandid
    exact ⟨heq.trans (value_formula_congr hvalue d d n n).symm, hfits⟩
  | @kept d n t i k self hkept =>
    obtain ⟨r, hr, hq⟩ := exists_of_bind_eq_ok hq
    obtain ⟨-, rfl⟩ | ⟨select, p, q, l, hgone, -⟩ := Substitutes.resolve_cases hr
    · cases hq
      exact ⟨rfl, ready_of_fits self.1 (by rintro _ _ _ _ ⟨⟩)⟩
    · simp [hkept] at hgone
  | @gone d n t i k select p self hgone hselect hreads _ ih =>
    obtain ⟨r, hr, hq⟩ := exists_of_bind_eq_ok hq
    obtain ⟨hkept, -⟩ | ⟨select', p', q', l, hgone', hselect', rfl, hq', rfl⟩ :=
      Substitutes.resolve_cases hr
    · simp [hkept] at hgone
    · obtain rfl : select = select' := by simpa [hgone] using hgone'
      obtain rfl : p = p' := by simpa [hselect] using hselect'
      obtain ⟨hvalue, hready⟩ := ih (by omega) hq'
      cases hq
      split
      · exact ⟨(value_asNullable _).trans (hvalue.trans hreads.symm), ready_asNullable hready⟩
      · exact ⟨hvalue.trans hreads.symm, hready⟩

/-- An operator that can give null of its own loses its mark with those of its operands. -/
theorem reduceFormula_of_canGiveNull (hf : f.canGiveNull)
    (hmarks : ∀ b ∈ bs, b.nullable = false) (hnull : f.kind = .nullIf → ∀ b ∈ bs, b.isNull = false)
    (d : Domain) : reduceFormula d true f bs = .formula d false f bs := by
  have hregular : regular d true f bs = .formula d false f bs := by
    have hirregular : f.isNullRegular = false := by
      unfold canGiveNull isAggregate at hf
      unfold isNullRegular
      split <;> simp_all
    have hany : bs.any (·.nullable) = false := by simpa using hmarks
    simp [regular, hirregular, hany]
  unfold canGiveNull isAggregate at hf
  unfold reduceFormula
  split
  case h_10 a as hkind => rw [if_neg (by simp [hnull hkind a mem_cons_self]), hregular]
  case h_12 => exact hregular
  all_goals simp_all

/-- Where such a formula is null all the same, the mark of its reduced form is wrong. -/
theorem exists_reduce_eq_of_not_candid (hfits : I.Fits p k) (h : ¬I.Candid s p k)
    (hoperands : ∀ d n f as, p = .formula d n f as → ∀ k' ∈ f.scenes k, ∀ a ∈ as,
      I.Everywhere s (fun p k => I.Fits p k ∧ I.Candid s p k) a k') :
    I.value p k = I.null ∧ ∃ d f bs, s.reduce p = .ok (.formula d false f bs) ∧
      I.value (.formula d false f bs) k = I.null := by
  unfold Candid at h
  push Not at h
  obtain ⟨d, f, as, rfl, hnull, bs, hbs, hmarks, hvalue⟩ := h
  obtain ⟨heq, hready⟩ := replaces_operands hbs fun k' hk' a ha b =>
    replaces_reduceWith (hoperands d true f as rfl k' hk' a ha) le_rfl
  refine ⟨hvalue, d, f, bs, ?_, (value_formula_congr heq d d true false).symm.trans hvalue⟩
  have hunnull : f.kind = .nullIf → ∀ b ∈ bs, b.isNull = false := fun hkind b hb => by
    have hscene : k ∈ f.scenes k := by simp [Operator.scenes, isAggregate, hkind]
    rw [← Bool.not_eq_true]
    exact fun hb' => (hready k hscene b hb).fits.marked (hmarks b hb) (value_of_isNull hb')
  rw [Substitutes.reduce, reduceWith, reduceAllWith_eq]
  change (as.mapM s.reduce >>= fun bs => pure (reduceFormula d true f bs)) = _
  rw [hbs]
  exact congrArg Except.ok (reduceFormula_of_canGiveNull hnull hmarks hunnull d)

lemma reduce_pair_ifNull (hg : g.kind = .ifNull)
    (hq : s.reduce p = .ok q) (hy : s.reduce x = .ok y) (d : Domain) (n : Bool) :
    s.reduce (.formula d n g [p, x]) = .ok (reduceIfNull d g [q, y]) := by
  change (do return reduceFormula d n g (← reduceAllWith _ [p, x])) = _
  rw [reduceAllWith_eq, mapM_cons, mapM_cons]
  unfold Substitutes.reduce at hq hy
  rw [hq, hy]
  exact congrArg Except.ok (by simp [reduceFormula, hg])

lemma reduce_ifNull (hg : g.kind = .ifNull)
    (hq : s.reduce p = .ok q) (hmark : q.nullable = false) (hnull : q.isNull = false)
    (hy : s.reduce x = .ok y) (d : Domain) (n : Bool) : s.reduce (.formula d n g [p, x]) = .ok q := by
  rw [reduce_pair_ifNull hg hq hy, reduceIfNull, filter_cons_of_pos (by simp [hnull])]
  cases hy : y.isNull <;> simp [hy, hmark]

variable (I) in
def Preserved (s : Substitutes) (p : Phrase) (k : Scene V) : Prop :=
  ∀ q, s.reduce p = .ok q → I.value q k = I.value p k ∧ (q.nullable = false → I.value q k ≠ I.null)

lemma preserved_of_candid
    (h : I.Everywhere s (fun p k => I.Fits p k ∧ I.Candid s p k) p k) : I.Preserved s p k := fun q hq => by
  obtain ⟨hvalue, hready⟩ := replaces_reduceWith h le_rfl hq
  exact ⟨hvalue, hready.fits.marked⟩

lemma candid_of_preserved (h : I.Everywhere s (fun p k => I.Fits p k ∧ I.Preserved s p k) p k) :
    I.Everywhere s (fun p k => I.Fits p k ∧ I.Candid s p k) p k := by
  have hother : ∀ (p : Phrase) (k : Scene V), (∀ d n f as, p ≠ .formula d n f as) → I.Candid s p k :=
    fun p k hp d f as heq => absurd heq (hp d true f as)
  induction h with
  | leaf self hp =>
    exact .leaf ⟨self.1, hother _ _ fun d n f as heq => by simp [heq, isLeaf] at hp⟩ hp
  | cast self _ ih => exact .cast ⟨self.1, hother _ _ fun _ _ _ _ => nofun⟩ ih
  | formula self _ ih =>
    refine .formula ⟨self.1, by_contra fun hcandid => ?_⟩ ih
    obtain ⟨-, d, f, bs, hq, hnull⟩ := exists_reduce_eq_of_not_candid self.1 hcandid
      fun _ _ _ _ heq => by cases heq; exact ih
    exact (self.2 _ hq).2 rfl hnull
  | kept self hkept => exact .kept ⟨self.1, hother _ _ fun _ _ _ _ => nofun⟩ hkept
  | gone self hgone hselect hreads _ ih =>
    exact .gone ⟨self.1, hother _ _ fun _ _ _ _ => nofun⟩ hgone hselect hreads ih

/-- Reducing returns, and keeps the value and the truth of the mark of a phrase and of all that it reads
just if no NULLIF or aggregate is null whose reduced operands are not marked nullable. A default behind
one that is null is lost. -/
theorem value_reduce (I : Interpretation V) (s : Substitutes) {p : Phrase} {k : Scene V}
    (hfits : I.Everywhere s I.Fits p k) :
    (∀ rank, s.Grounded rank → s.InRange p → ∃ q, s.reduce p = .ok q) ∧
      (I.Everywhere s (I.Candid s) p k → I.Preserved s p k) ∧
      (I.Everywhere s (I.Preserved s) p k → I.Everywhere s (I.Candid s) p k) ∧
      ((∀ d n f as, p = .formula d n f as → ∀ k' ∈ f.scenes k, ∀ a ∈ as,
          I.Everywhere s (I.Candid s) a k') → ¬I.Candid s p k →
        ∀ d n g x y, g.kind = .ifNull → s.reduce x = .ok y → I.value x k ≠ I.null →
          ∃ q, s.reduce (.formula d n g [p, x]) = .ok q ∧
            I.value q k ≠ I.value (.formula d n g [p, x]) k) := by
  refine ⟨fun _ hs hp => Substitutes.exists_reduce_eq_ok hs hp, fun h => ?_, fun h => ?_,
    fun hoperands hcandid d n g x y hg hy hx => ?_⟩
  · exact preserved_of_candid (hfits.and h)
  · exact (candid_of_preserved (hfits.and h)).imp fun p k hp => hp.self.2
  · have hinner : ∀ d n f as, p = .formula d n f as → ∀ k' ∈ f.scenes k, ∀ a ∈ as,
        I.Everywhere s (fun p k => I.Fits p k ∧ I.Candid s p k) a k' := by
      rintro d n f as rfl k' hk' a ha
      cases hfits with
      | leaf _ hp => cases hp
      | formula _ operands => exact (operands k' hk' a ha).and (hoperands d n f as rfl k' hk' a ha)
    obtain ⟨hnull, e, f, bs, hq, hvalue⟩ := exists_reduce_eq_of_not_candid hfits.self hcandid hinner
    refine ⟨_, reduce_ifNull hg hq rfl rfl hy d n, ?_⟩
    rw [hvalue, value_ifNull hg]
    exact (I.coalesce_ne_null (mem_map.2 ⟨x, by simp, rfl⟩) hx).symm

/-- A column that is never null and was selected by a frame that is gone: its own default may go, but not
that of a NULLIF over it. -/
theorem value_reduce_lostDefault :
    let code : Phrase := .column false 3 ⟨0, "code", ⟨"ad", "school"⟩, .text, false, false⟩
    let art : Phrase := .literal .text false (.text "art")
    let item : Phrase := .reference .text false 5 0
    let cleared : Phrase := .formula .text true (.plain .nullIf) [item, art]
    let s : Substitutes := [(5, [code])]
    let e : Env (Option (Option Bool)) := ⟨fun _ => ⟨fun _ => some none, [some none]⟩, fun _ => none⟩
    coarse.Everywhere s coarse.Fits cleared (.single e) ∧
      (∃ q, s.reduce (.formula .text false (.plain .ifNull) [item, art]) = .ok q ∧
        coarse.value q (.single e) =
          coarse.value (.formula .text false (.plain .ifNull) [item, art]) (.single e)) ∧
      ∃ q, s.reduce (.formula .text false (.plain .ifNull) [cleared, art]) = .ok q ∧
        coarse.value q (.single e) ≠
          coarse.value (.formula .text false (.plain .ifNull) [cleared, art]) (.single e) := by
  intro code art item cleared s e
  have hcode : coarse.Fits code (.single e) :=
    ⟨fun _ => by decide, by simp [code], by simp [code], by simp [code]⟩
  have hart : coarse.Fits art (.single e) := fits_literal (fun _ => rfl) (by rintro ⟨⟩)
  have hitem : coarse.Fits item (.single e) :=
    ⟨fun _ => by decide, by simp [item], by simp [item], by simp [item]⟩
  have hoperands : ∀ a ∈ [item, art],
      coarse.Everywhere s (fun p k => coarse.Fits p k ∧ coarse.Candid s p k) a (.single e) := by
    have hcode' : coarse.Everywhere s (fun p k => coarse.Fits p k ∧ coarse.Candid s p k) code
        (.single e) := .leaf ⟨hcode, by simp [Candid]⟩ rfl
    simp only [forall_mem_cons]
    exact ⟨.gone ⟨hitem, by simp [Candid]⟩ rfl rfl rfl hcode', .leaf ⟨hart, by simp [Candid, art]⟩ rfl,
      by rintro _ ⟨⟩⟩
  have hcleared : coarse.Everywhere s coarse.Fits cleared (.single e) := by
    refine .formula (fits_formula (by rintro ⟨⟩) rfl (by rintro ⟨⟩)) fun k' hk' a ha => ?_
    obtain rfl := mem_singleton.1 hk'
    exact (hoperands a ha).imp fun p k h => h.self.1
  have hnull : ¬coarse.Candid s cleared (.single e) := fun h =>
    h .text (.plain .nullIf) [item, art] rfl rfl [code, art] rfl (by decide) (by decide)
  have hlookup : ∀ t select, s.lookup t = some select → select = [code] := fun t select h => by
    simpa using congrArg Prod.snd (mem_singleton.1 (Substitutes.mem_of_lookup h))
  have hgrounded : s.Grounded fun _ => 0 := by
    have huses : ∀ u j, Use.item u j ∉ code.uses := by simp [code, uses]
    refine ⟨fun t select h p hp u j hu => ?_, fun t select i p h hp u j hu => ?_⟩ <;>
      obtain rfl := hlookup t select h
    · exact absurd (mem_singleton.1 hp ▸ hu) (huses u j)
    · exact absurd (mem_singleton.1 (mem_of_getElem? hp) ▸ hu) (huses u j)
  have hinRange : s.InRange (.formula .text false (.plain .ifNull) [item, art]) := by
    rintro t i hi select h
    rw [hlookup t select h]
    have hi' : t = 5 ∧ i = 0 := by simpa [item, art, uses, usesAll] using hi
    simp [hi'.2]
  refine ⟨hcleared, ?_, ?_⟩
  · have hdefault : coarse.Everywhere s (fun p k => coarse.Fits p k ∧ coarse.Candid s p k)
        (.formula .text false (.plain .ifNull) [item, art]) (.single e) := by
      refine .formula ⟨fits_formula (fun _ => by decide) rfl (by rintro ⟨⟩), by rintro _ _ _ ⟨⟩⟩ fun k' hk' => ?_
      obtain rfl := mem_singleton.1 hk'
      exact hoperands
    obtain ⟨hreturns, hpreserved, -⟩ := value_reduce coarse s (hdefault.imp fun p k h => h.self.1)
    obtain ⟨q, hq⟩ := hreturns (fun _ => 0) hgrounded hinRange
    exact ⟨q, hq, (hpreserved (hdefault.imp fun p k h => h.self.2) q hq).1⟩
  · refine (value_reduce coarse s hcleared).2.2.2 ?_ hnull .text false (.plain .ifNull) art art rfl rfl
      (by decide)
    intro d n f as heq k' hk' a ha
    injection heq with _ _ hf has
    subst hf has
    obtain rfl := mem_singleton.1 hk'
    exact (hoperands a ha).imp fun p k h => h.self.2

end Interpretation

end NavQuery
