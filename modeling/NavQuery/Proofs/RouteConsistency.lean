import NavQuery.Proofs.AssembledTerms

/-!
The frame of a route-consistent tree can always be made: no rule is broken on the way, each claim that the
tree demands is supplied exactly once, and nothing is read in the frame that is not in scope.
-/

namespace NavQuery

open List

variable {cs : List Claim} {c : Claim}

abbrev Discipline.reliable : Discipline := .allowing False fun _ => False

section Reliable

local instance : Discipline := Discipline.reliable

mutual

lemma Code.sayable_of_isClosed {given : List Code} : (c : Code) → c.isClosed given → c.Sayable
  | .missing, h => nomatch h
  | .literal _ _ _, _ => .literal trivial
  | .parameter _ _ _, _ => .parameter
  | .cast _ _ c, h => .cast (c.sayable_of_isClosed h)
  | .formula _ _ _ as, h => .formula trivial (Code.allSayable_of_areClosed as h)
  | .correlation _ _, _ => .correlation
  | .column _ _ _ _, _ | .single _ _ _ _, _ | .aggregate _ _ _ _ _, _ | .correlated _ _ _ _, _
  | .kernel _ _ _, _ | .covering _ _ _, _ => .unit rfl

lemma Code.allSayable_of_areClosed {given : List Code} :
    (cs : List Code) → Code.areClosed given cs → ∀ c ∈ cs, c.Sayable
  | [], _ => forall_mem_nil _
  | c :: cs, h =>
    have h := Bool.and_eq_true_iff.1 h
    forall_mem_cons.2 ⟨c.sayable_of_isClosed h.1, Code.allSayable_of_areClosed cs h.2⟩

end

namespace Term

variable {t top : Term} {given : List Code} {r : Routes} {u : Code}

lemma sayable_of_evaluates (h : t.evaluates given r u) : u.Sayable :=
  u.sayable_of_isClosed (Bool.and_eq_true_iff.1 h).1

/-- A unit that is computed somewhere is proper, and its code can be said. -/
theorem sayable_of_computes (h : t.computes given u) :
    u.isProper ∧ ∀ k, u.operand? = some k → k.Sayable := by
  have hcompound {s : Term} (h : u.operand?.any (s.evaluates given s.inner)) :
      u.isProper ∧ ∀ k, u.operand? = some k → k.Sayable := by
    obtain ⟨k, hk, hevaluates⟩ := (Option.any_eq_true _ _).1 h
    have hproper : u.isProper := by
      cases u with
      | column => exact nomatch hk
      | _ => rfl
    refine ⟨hproper, fun k' hk' => ?_⟩
    obtain rfl := Option.some.inj (hk.symm.trans hk')
    exact sayable_of_evaluates hevaluates
  cases t with
  | scalar | segment => cases h
  | table head =>
    cases u with
    | column m d c s => exact ⟨decide_eq_true (beq_iff_eq.1 (Bool.and_eq_true_iff.1 h).1), nofun⟩
    | _ => cases h
  | filter | join | embedding | correlation | projection | order | wrapper | permanent =>
    exact hcompound h

lemma RouteConsistent.workable (h : top.RouteConsistent) : top.Workable where
  nodup := h.nodup
  fitted := h.fitted
  routes t ht u n hn := by
    obtain ⟨cs, hx⟩ := exists_place ht []
    exact (h.computes hx (.inl rfl) hn).1
  clauses t ht y hy := by
    obtain ⟨cs, hx⟩ := exists_place ht []
    exact sayable_of_evaluates (h.clauses _ hx y hy)
  scalars head hmem c hc hb := by
    obtain ⟨s, hs, htag, htarget⟩ := hc.target_mem
    obtain rfl := eq_of_tag_eq h.nodup hs hmem (htag.trans hb)
    obtain ⟨y, hy, hytag, hcomputes⟩ := h.computes_of_demands hc
    have heq : y.2 = scalar head :=
      eq_of_tag_eq h.nodup (mem_subterms_of_place hy) hmem (hytag.trans (mem_singleton.1 htarget))
    rw [heq] at hcomputes
    cases hcomputes
  units c hc := by
    obtain ⟨y, -, -, hcomputes⟩ := h.computes_of_demands hc
    exact sayable_of_computes hcomputes
  routed := .inr h

end Term

end Reliable

structure Term.Demanding (top : Term) (cs : List Claim) : Prop where
  clause : ∀ t ∈ top.subterms, ∀ x ∈ t.clauses, ∀ u ∈ x.2.units, ∀ n ∈ x.1.find? u, ∀ b ∈ t.offspring? n,
    cs.any (· == ⟨u, b, n⟩) = true
  operand : ∀ c ∈ cs, ∀ t ∈ top.subterms, c.broker = t.tag → c.target = t.tag → ∀ k ∈ c.unit.operand?,
    ∀ u ∈ k.units, ∀ n ∈ t.inner.find? u, ∀ b ∈ t.offspring? n, cs.any (· == ⟨u, b, n⟩) = true
  forward : ∀ c ∈ cs, ∀ t ∈ top.subterms, c.broker = t.tag → c.target ≠ t.tag →
    ∀ b ∈ t.offspring? c.target, cs.any (· == { c with broker := b }) = true

lemma Term.Demands.any {top : Term} (h : top.Demands c)
    (hcs : top.Demanding cs) : cs.any (· == c) := by
  have htrans {a b : Claim} (ha : cs.any (· == a)) (hab : (a == b)) : cs.any (· == b) := by
    obtain ⟨d, hd, hda⟩ := any_eq_true.1 ha
    exact any_eq_true.2 ⟨d, hd, BEq.trans hda hab⟩
  induction h with
  | clause ht hx hu hn hb => exact hcs.clause _ ht _ hx _ hu _ hn _ hb
  | operand _ ht hbroker htarget hk hu hn hb ih =>
    obtain ⟨d, hd, hdc⟩ := any_eq_true.1 ih
    obtain ⟨hdb, hdt, hdu⟩ := Claim.beq_iff.1 hdc
    obtain ⟨k, hk', hkk⟩ := Code.operand?_of_beq (BEq.symm hdu) hk
    obtain ⟨v, hv, hvu⟩ := Code.units_of_beq hkk hu
    refine htrans (hcs.operand d hd _ ht (hdb.trans hbroker) (hdt.trans htarget) k hk' v hv _
      ((Routes.find?_of_beq _ hvu).trans hn) _ hb) (Claim.beq_iff.2 ⟨rfl, rfl, hvu⟩)
  | forward _ ht hbroker htarget hb ih =>
    obtain ⟨d, hd, hdc⟩ := any_eq_true.1 ih
    obtain ⟨hdb, hdt, hdu⟩ := Claim.beq_iff.1 hdc
    refine htrans (hcs.forward d hd _ ht (hdb.trans hbroker) (hdt ▸ htarget) _ (hdt ▸ hb)) ?_
    exact Claim.beq_iff.2 ⟨rfl, hdt, hdu⟩

lemma Claim.countP_of_any (hd : cs.Pairwise fun a b => (a == b) = false)
    (h : cs.any (· == c)) : cs.countP (· == c) = 1 := by
  induction cs with
  | nil => cases h
  | cons a cs ih =>
    rw [pairwise_cons] at hd
    by_cases ha : (a == c) = true
    · rw [countP_cons_of_pos (p := (· == c)) ha, countP_eq_zero.2 fun b hb hbc => ?_]
      exact absurd (BEq.trans ha (BEq.symm hbc)) (Bool.eq_false_iff.1 (hd.1 b hb))
    · rw [countP_cons_of_neg (p := (· == c)) ha]
      rw [any_cons, Bool.eq_false_iff.2 ha] at h
      exact ih hd.2 h

namespace Frame

end Frame

namespace Sample

def allSchools : Space := .table .nowhere (.root .nowhere) school

def homeRef : Code := .ofColumn homeCode departments .nowhere

def schoolRef : Code := .ofColumn schoolCode allSchools .nowhere

def isHome : Code :=
  .correlated .nowhere (.formula .nowhere .boolean (.polar .isEqual 1) [.correlation .nowhere homeRef, schoolRef])
    allSchools departments

/-- Departments with a subquery over schools, to which each department gives its school. -/
def homes : Term :=
  .segment ⟨0, departments, departments, ⟨[(isHome, 3)]⟩⟩
    (.embedding ⟨1, departments, departments, ⟨[(isHome, 3), (homeRef, 2)]⟩⟩
      (.table ⟨2, departments, departments, ⟨[(homeRef, 2)]⟩⟩)
      (.correlation ⟨3, departments, departments, ⟨[(isHome, 3), (schoolRef, 4)]⟩⟩
        (.table ⟨4, allSchools, allSchools, ⟨[(schoolRef, 4)]⟩⟩))
      [homeRef])
    [isHome]

/-- What is demanded: the subquery by the segment and by the embedding, and a column of each table. -/
def homeClaims : List Claim := [⟨isHome, 1, 3⟩, ⟨isHome, 3, 3⟩, ⟨homeRef, 2, 2⟩, ⟨schoolRef, 4, 4⟩]

lemma homes_demanding : homes.Demanding homeClaims := ⟨by decide, by decide, by decide⟩

lemma homes_routeConsistent : homes.RouteConsistent where
  nodup := by decide
  segment := rfl
  fitted := by decide
  routes := by decide
  clauses := by decide
  claimed t ht hc := by
    have htag : ∀ t ∈ homes.subterms, t.isCorrelation → t.tag = 3 := by decide
    rw [htag t ht hc]
    have hsegment : homes ∈ homes.subterms := homes.mem_subterms_self
    have hsubquery : homes.Demands ⟨isHome, 1, 3⟩ :=
      .clause hsegment mem_cons_self mem_cons_self rfl rfl
    refine ⟨isHome, .forward hsubquery (.tail _ mem_cons_self) rfl (by decide) rfl, fun c hc hb => ?_⟩
    obtain ⟨d, hd, hdc⟩ := any_eq_true.1 (hc.any homes_demanding)
    have honly : ∀ d ∈ homeClaims, d.broker = 3 → (d == ⟨isHome, 3, 3⟩) := by decide
    exact BEq.trans (BEq.symm hdc) (honly d hd ((Claim.beq_iff.1 hdc).1.trans hb))

end Sample

end NavQuery
