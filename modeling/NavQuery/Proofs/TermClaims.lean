import NavQuery.Frame.OfTerm
import NavQuery.Proofs.FormedSpaces
import NavQuery.Proofs.TermTrees
import NavQuery.Proofs.UnmarkedSeams

/-!
`Term.Demands` is the least set of claims that has those of the clauses and those that a claim leads to.
A tree is route-consistent if each route leads down to a term that computes the unit, all clauses can be
evaluated by what is routed, and each subquery is claimed for one unit.
-/

namespace NavQuery

open List

namespace Code

mutual

/-- Whether nothing is missing in a code, and the values that it takes from the enclosing rows are among
those that are given. -/
def isClosed (given : List Code) : Code → Bool
  | missing => false
  | cast _ _ c => isClosed given c
  | formula _ _ _ as => areClosed given as
  | correlation _ c => given.any (· == c)
  | _ => true

def areClosed (given : List Code) : List Code → Bool
  | [] => true
  | c :: cs => isClosed given c && areClosed given cs

end

lemma areClosed_eq (given cs : List Code) : areClosed given cs = cs.all (isClosed given) :=
  eq_all_of_cons cs rfl fun _ _ => rfl

mutual

lemma isClosed_unmarked (given : List Code) : ∀ c : Code, c.unmarked.isClosed given = c.isClosed given
  | cast _ _ c => by simp only [unmarked, isClosed, isClosed_unmarked given c]
  | formula _ _ _ as => by simp only [unmarked, isClosed, areClosed_unmarked given as]
  | correlation _ c => by
    have hsame : ∀ k : Code, (k == c.unmarked) = (k == c) := fun k =>
      Bool.eq_iff_iff.2 ⟨fun h => BEq.trans h c.unmarked_beq, fun h => BEq.trans h (BEq.symm c.unmarked_beq)⟩
    simp only [unmarked, isClosed, hsame]
  | missing | literal _ _ _ | parameter _ _ _ | column _ _ _ _ | single _ _ _ _ | aggregate _ _ _ _ _
  | correlated _ _ _ _ | kernel _ _ _ | covering _ _ _ => by simp only [unmarked, isClosed]

lemma areClosed_unmarked (given : List Code) :
    ∀ cs : List Code, areClosed given (unmarkedAll cs) = areClosed given cs
  | [] => rfl
  | c :: cs => by
    rw [unmarkedAll, areClosed, areClosed, isClosed_unmarked given c, areClosed_unmarked given cs]

end

section Same

variable {c d : Code}

lemma isClosed_of_beq {given : List Code} (h : (c == d)) : c.isClosed given = d.isClosed given := by
  rw [← isClosed_unmarked given c, beq_iff_unmarked.1 h, isClosed_unmarked]

lemma units_of_beq {u : Code} (h : (c == d)) (hu : u ∈ c.units) : ∃ v ∈ d.units, (v == u) := by
  have hmap : c.units.map unmarked = d.units.map unmarked := by
    rw [← units_unmarked, ← units_unmarked, beq_iff_unmarked.1 h]
  obtain ⟨v, hv, heq⟩ := mem_map.1 (hmap ▸ mem_map_of_mem hu)
  exact ⟨v, hv, beq_iff_unmarked.2 heq⟩

lemma operand?_unmarked (c : Code) : c.unmarked.operand? = c.operand?.map unmarked := by
  cases c <;> rfl

lemma operand?_of_beq {k : Code} (h : (c == d)) (hk : c.operand? = some k) :
    ∃ l, d.operand? = some l ∧ (k == l) := by
  have hmap : c.operand?.map unmarked = d.operand?.map unmarked := by
    rw [← operand?_unmarked, ← operand?_unmarked, beq_iff_unmarked.1 h]
  rw [hk] at hmap
  obtain ⟨l, hl, heq⟩ := Option.map_eq_some_iff.1 hmap.symm
  exact ⟨l, hl, beq_iff_unmarked.2 heq.symm⟩

end Same

end Code

lemma Routes.find?_of_beq (r : Routes) {u v : Code} (h : (v == u)) : r.find? v = r.find? u := by
  unfold Routes.find?
  congr 2
  funext e
  exact Bool.eq_iff_iff.2 ⟨fun he => BEq.trans he h, fun he => BEq.trans he (BEq.symm h)⟩

namespace Claim

lemma beq_iff {a b : Claim} :
    (a == b) ↔ a.broker = b.broker ∧ a.target = b.target ∧ (a.unit == b.unit) := by
  show (a.broker == b.broker && a.target == b.target && a.unit == b.unit) ↔ _
  simp only [Bool.and_eq_true, beq_iff_eq, and_assoc]

instance : EquivBEq Claim where
  rfl := beq_iff.2 ⟨rfl, rfl, BEq.rfl⟩
  symm h := by
    rw [beq_iff] at h ⊢
    exact ⟨h.1.symm, h.2.1.symm, BEq.symm h.2.2⟩
  trans h k := by
    rw [beq_iff] at h k ⊢
    exact ⟨h.1.trans k.1, h.2.1.trans k.2.1, BEq.trans h.2.2 k.2.2⟩

end Claim

namespace Term

/-- The codes that a term evaluates beyond what is claimed of it, with the routes for their units. -/
def clauses : Term → List (Routes × Code)
  | filter _ k c => [(k.routes, c)]
  | join _ l r js _ => js.flatMap fun j => [(l.routes, j.left), (r.routes, j.right)]
  | embedding _ l _ cs => cs.map fun c => (l.routes, c)
  | projection _ k ks => ks.map fun c => (k.routes, c)
  | order _ k is _ _ => is.map fun i => (k.routes, i.1)
  | segment h _ cs => cs.map fun c => (h.routes, c)
  | scalar _ | table _ | correlation _ _ | wrapper _ _ | permanent _ _ => []

/-- The routes for the units of what a term computes: groups compute from the rows below them. -/
def inner : Term → Routes
  | projection _ k _ => k.routes
  | t => t.routes

def places : Term → List Code → List (List Code × Term)
  | scalar h, cs => [(cs, scalar h)]
  | table h, cs => [(cs, table h)]
  | filter h k c, cs => (cs, filter h k c) :: places k cs
  | join h l r js o, cs => (cs, join h l r js o) :: (places l cs ++ places r cs)
  | embedding h l r given, cs => (cs, embedding h l r given) :: (places l cs ++ places r given)
  | correlation h k, cs => (cs, correlation h k) :: places k cs
  | projection h k ks, cs => (cs, projection h k ks) :: places k cs
  | order h k is l o, cs => (cs, order h k is l o) :: places k cs
  | wrapper h k, cs => (cs, wrapper h k) :: places k cs
  | permanent h k, cs => (cs, permanent h k) :: places k cs
  | segment h k codes, cs => (cs, segment h k codes) :: places k cs

inductive Demands (top : Term) : Claim → Prop
  | clause {t : Term} {x : Routes × Code} {u : Code} {n b : Nat} (ht : t ∈ top.subterms)
    (hx : x ∈ t.clauses) (hu : u ∈ x.2.units) (hn : x.1.find? u = some n)
    (hb : t.offspring? n = some b) : Demands top ⟨u, b, n⟩
  | operand {t : Term} {c : Claim} {k u : Code} {n b : Nat} (hc : Demands top c) (ht : t ∈ top.subterms)
    (hbroker : c.broker = t.tag) (htarget : c.target = t.tag) (hk : c.unit.operand? = some k)
    (hu : u ∈ k.units) (hn : t.inner.find? u = some n) (hb : t.offspring? n = some b) :
    Demands top ⟨u, b, n⟩
  | forward {t : Term} {c : Claim} {b : Nat} (hc : Demands top c) (ht : t ∈ top.subterms)
    (hbroker : c.broker = t.tag) (htarget : c.target ≠ t.tag) (hb : t.offspring? c.target = some b) :
    Demands top { c with broker := b }

def evaluates (t : Term) (given : List Code) (r : Routes) (c : Code) : Bool :=
  c.isClosed given && c.units.all fun u => (r.find? u).any (· != t.tag)

/-- Whether a term computes a unit: tables have columns, and units are computed where their code can be
evaluated. -/
def computes (given : List Code) (u : Code) : Term → Bool
  | scalar _ | segment _ _ _ => false
  | table h =>
    match u with
    | .column _ d c _ => d == c.domain && h.space.family.table?.any (c.owner == ·.name)
    | _ => false
  | t => u.operand?.any (t.evaluates given t.inner)

/-- Whether the kids of a term are of the right kind: rows, or a subquery beside rows. -/
def isFitted : Term → Bool
  | table h => h.space.family.table?.isSome
  | embedding _ l r _ => l.isSource && r.isCorrelation
  | t => t.kids.all isSource

/-- A tree in which each route leads down to a term that computes the unit, each clause can be evaluated,
and each subquery is claimed for one unit. -/
structure RouteConsistent (top : Term) : Prop where
  nodup : top.tags.Nodup
  segment : top.isSegment = true
  fitted : ∀ t ∈ top.subterms, t.isFitted = true
  routes : ∀ x ∈ top.places [], ∀ e ∈ x.2.routes.entries,
    ∃ y ∈ x.2.places x.1, y.2.tag = e.2 ∧ y.2.computes y.1 e.1 = true
  clauses : ∀ x ∈ top.places [], ∀ y ∈ x.2.clauses, x.2.evaluates x.1 y.1 y.2 = true
  claimed : ∀ t ∈ top.subterms, t.isCorrelation → ∃ u, top.Demands ⟨u, t.tag, t.tag⟩ ∧
      ∀ c, top.Demands c → c.broker = t.tag → (c == ⟨u, t.tag, t.tag⟩) = true

section Places

def settings (given : List Code) : Term → List (List Code × Term)
  | embedding _ l r cs => [(given, l), (cs, r)]
  | t => t.kids.map (given, ·)

lemma places_eq (t : Term) (given : List Code) :
    t.places given = (given, t) :: (t.settings given).flatMap fun x => x.2.places x.1 := by
  cases t <;> simp [places, settings, kids]

lemma mem_places_self (t : Term) (given : List Code) : (given, t) ∈ t.places given := by
  rw [places_eq]
  exact mem_cons_self

lemma map_places (t : Term) (given : List Code) : (t.places given).map Prod.snd = t.subterms := by
  induction t generalizing given <;> simp_all [places, subterms]

variable {top t : Term} {given : List Code} {x y : List Code × Term}

lemma mem_subterms_of_place (hx : x ∈ top.places given) : x.2 ∈ top.subterms :=
  map_places top given ▸ mem_map_of_mem hx

lemma exists_place (ht : t ∈ top.subterms) (given : List Code) : ∃ cs, (cs, t) ∈ top.places given := by
  rw [← map_places top given] at ht
  obtain ⟨x, hx, rfl⟩ := mem_map.1 ht
  exact ⟨x.1, hx⟩

lemma kid_of_setting (hx : x ∈ t.settings given) : x.2 ∈ t.kids := by
  cases t <;> simp_all [settings, kids] <;> aesop

lemma places_trans (hx : x ∈ top.places given) (hy : y ∈ x.2.places x.1) : y ∈ top.places given := by
  induction top using kids_induction generalizing given with
  | h t ih =>
    rw [places_eq] at hx ⊢
    rcases mem_cons.1 hx with rfl | hx
    · rwa [places_eq] at hy
    · obtain ⟨z, hz, hx⟩ := mem_flatMap.1 hx
      exact mem_cons_of_mem _ (mem_flatMap.2 ⟨z, hz, ih z.2 (kid_of_setting hz) hx⟩)

lemma mem_places_of_setting (hx : x ∈ top.places given) (hy : y ∈ x.2.settings x.1) :
    y ∈ top.places given := by
  refine places_trans hx ?_
  rw [places_eq]
  exact mem_cons_of_mem _ (mem_flatMap.2 ⟨y, hy, mem_places_self y.2 y.1⟩)

lemma place_unique (hn : top.tags.Nodup) (hx : x ∈ top.places given) (hy : y ∈ top.places given)
    (h : x.2.tag = y.2.tag) : x = y := by
  rw [tags_eq_map, ← map_places top given, map_map] at hn
  exact inj_on_of_nodup_map hn hx hy h

end Places

def Looks (t : Term) (r : Routes) : Prop := r = t.routes ∨ ∃ k ∈ t.kids, r = k.routes

lemma looks_inner (t : Term) : t.Looks t.inner := by
  cases t with
  | projection _ k _ => exact .inr ⟨k, mem_cons_self, rfl⟩
  | _ => exact .inl rfl

lemma looks_of_clauses {t : Term} {x : Routes × Code} (hx : x ∈ t.clauses) : t.Looks x.1 := by
  cases t with
  | scalar | table | correlation | wrapper | permanent => exact absurd hx not_mem_nil
  | filter _ k _ => exact .inr ⟨k, mem_cons_self, mem_singleton.1 hx ▸ rfl⟩
  | segment =>
    obtain ⟨_, _, rfl⟩ := mem_map.1 hx
    exact .inl rfl
  | projection _ k | order _ k | embedding _ k =>
    obtain ⟨_, _, rfl⟩ := mem_map.1 hx
    exact .inr ⟨k, mem_cons_self, rfl⟩
  | join _ l r =>
    obtain ⟨_, _, hx⟩ := mem_flatMap.1 hx
    rcases mem_cons.1 hx with rfl | hx
    · exact .inr ⟨l, mem_cons_self, rfl⟩
    · exact .inr ⟨r, mem_cons_of_mem _ mem_cons_self, mem_singleton.1 hx ▸ rfl⟩

variable {c : Claim} {top : Term}

lemma Demands.exists_kid (h : top.Demands c) :
    ∃ t ∈ top.subterms, ∃ k ∈ t.kids, c.broker = k.tag ∧ c.target ∈ k.tags := by
  cases h with
  | clause ht _ _ _ hb | operand _ ht _ _ _ _ _ hb | forward _ ht _ _ hb => exact ⟨_, ht, of_offspring hb⟩

lemma Demands.target_mem (h : top.Demands c) :
    ∃ t ∈ top.subterms, t.tag = c.broker ∧ c.target ∈ t.tags := by
  obtain ⟨t, ht, k, hk, htag, hmem⟩ := h.exists_kid
  exact ⟨k, subterms_trans ht (mem_subterms_of_kid hk), htag.symm, hmem⟩

lemma Demands.broker_ne (hn : top.tags.Nodup) (h : top.Demands c) : c.broker ≠ top.tag := by
  intro hb
  obtain ⟨t, ht, k, hk, htag, -⟩ := h.exists_kid
  have hk' : k ∈ top.subterms := subterms_trans ht (mem_subterms_of_kid hk)
  obtain rfl := eq_of_tag_eq hn hk' (mem_subterms_self top) (htag.symm.trans hb)
  exact tag_not_mem_kid (nodup_subterm hn ht) hk (mem_tags_iff.2 ⟨t, ht, rfl⟩)

section Computing

variable {t : Term} {given : List Code} {r : Routes} {u v : Code}

lemma evaluates_of_beq (h : (u == v)) (he : t.evaluates given r u) : t.evaluates given r v := by
  simp only [evaluates, Bool.and_eq_true, all_eq_true] at he ⊢
  refine ⟨Code.isClosed_of_beq h ▸ he.1, fun w hw => ?_⟩
  obtain ⟨w', hw', hbeq⟩ := Code.units_of_beq (BEq.symm h) hw
  rw [← r.find?_of_beq hbeq]
  exact he.2 w' hw'

lemma computes_of_beq (h : (u == v)) (hc : t.computes given u) : t.computes given v := by
  have hoperand {s : Term} (hs : u.operand?.any (s.evaluates given s.inner)) :
      v.operand?.any (s.evaluates given s.inner) := by
    obtain ⟨k, hk, he⟩ := (Option.any_eq_true _ _).1 hs
    obtain ⟨l, hl, hkl⟩ := Code.operand?_of_beq h hk
    exact (Option.any_eq_true _ _).2 ⟨l, hl, evaluates_of_beq hkl he⟩
  cases t with
  | scalar | segment => exact hc
  | table head =>
    have hunmarked := Code.beq_iff_unmarked.1 h
    cases u with
    | column =>
      cases v with
      | column =>
        simp only [Code.unmarked, Code.column.injEq] at hunmarked
        obtain ⟨-, rfl, rfl, -⟩ := hunmarked
        exact hc
      | _ => simp only [Code.unmarked, reduceCtorEq] at hunmarked
    | _ => cases hc
  | filter | join | embedding | correlation | projection | order | wrapper | permanent =>
    exact hoperand hc

end Computing

namespace RouteConsistent

variable {top : Term} (h : top.RouteConsistent) {x : List Code × Term} {r : Routes} {u : Code} {n : Nat}
include h

lemma computes (hx : x ∈ top.places []) (hr : x.2.Looks r) (hn : r.find? u = some n) :
    n ∈ x.2.tags ∧ ∃ y ∈ top.places [], y.2.tag = n ∧ y.2.computes y.1 u := by
  have hroute {y : List Code × Term} (hy : y ∈ top.places []) (hn : y.2.routes.find? u = some n) :
      n ∈ y.2.tags ∧ ∃ z ∈ top.places [], z.2.tag = n ∧ z.2.computes z.1 u := by
    obtain ⟨e, he, rfl⟩ := Option.map_eq_some_iff.1 hn
    have hbeq : (e.1 == u) := find?_some (p := fun x : Code × Nat => x.1 == u) he
    obtain ⟨z, hz, htag, hc⟩ := h.routes y hy e (mem_of_find?_eq_some he)
    exact ⟨mem_tags_iff.2 ⟨z.2, mem_subterms_of_place hz, htag⟩, z, places_trans hy hz, htag,
      computes_of_beq hbeq hc⟩
  rcases hr with rfl | ⟨k, hk, rfl⟩
  · exact hroute hx hn
  · have hk' : k ∈ x.2.subterms := mem_subterms_of_kid hk
    obtain ⟨cs, hcs⟩ := exists_place hk' x.1
    obtain ⟨hmem, hz⟩ := hroute (places_trans hx hcs) hn
    exact ⟨tags_subset_of_kid hk hmem, hz⟩

lemma routed {c : Code} (hx : x ∈ top.places []) (hr : x.2.Looks r) (he : x.2.evaluates x.1 r c) :
    c.isClosed x.1 ∧ ∀ u ∈ c.units, ∃ n b, r.find? u = some n ∧ x.2.offspring? n = some b := by
  simp only [evaluates, Bool.and_eq_true, all_eq_true] at he
  refine ⟨he.1, fun u hu => ?_⟩
  obtain ⟨n, hn, hne⟩ := (Option.any_eq_true _ _).1 (he.2 u hu)
  obtain ⟨b, hb⟩ := exists_offspring (h.computes hx hr hn).1 (by simpa using hne)
  exact ⟨n, b, hn, hb⟩

lemma computes_of_demands {c : Claim} (hc : top.Demands c) :
    ∃ y ∈ top.places [], y.2.tag = c.target ∧ y.2.computes y.1 c.unit := by
  have hroute {t : Term} {r : Routes} {u : Code} {n : Nat} (ht : t ∈ top.subterms) (hr : t.Looks r)
      (hn : r.find? u = some n) : ∃ y ∈ top.places [], y.2.tag = n ∧ y.2.computes y.1 u := by
    obtain ⟨cs, hcs⟩ := exists_place ht []
    exact (h.computes hcs hr hn).2
  induction hc with
  | clause ht hx _ hn _ => exact hroute ht (looks_of_clauses hx) hn
  | operand _ ht _ _ _ _ hn _ _ => exact hroute ht (looks_inner _) hn
  | forward _ _ _ _ _ ih => exact ih

end RouteConsistent

end Term

end NavQuery
