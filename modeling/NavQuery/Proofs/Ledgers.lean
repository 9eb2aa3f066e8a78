import NavQuery.Proofs.GroundedPhrases
import NavQuery.Proofs.TermClaims

/-!
A ledger opens for a term when just what the tree demands of the term is claimed of it, and nothing below
it is claimed yet. `Term.Workable` is what the frames of a tree can be made from.
-/

namespace NavQuery

open List Discipline

variable {r : Routes} {a : Claim}

/-- A code whose literals and formulas follow the discipline, down to its units. -/
inductive Code.Sayable [Discipline] : Code → Prop
  | missing (h : error .missingEntry) : Code.Sayable .missing
  | literal {m : Mark} {d : Domain} {v : Value} (h : Discipline.literal d v) :
    Code.Sayable (.literal m d v)
  | parameter {m : Mark} {d : Domain} {n : Text} : Code.Sayable (.parameter m d n)
  | cast {m : Mark} {d : Domain} {c : Code} (hc : c.Sayable) : Code.Sayable (.cast m d c)
  | formula {m : Mark} {d : Domain} {f : Operator} {as : List Code}
    (hf : Discipline.formula d f (as.map Code.domain)) (has : ∀ a ∈ as, a.Sayable) :
    Code.Sayable (.formula m d f as)
  | correlation {m : Mark} {c : Code} : Code.Sayable (.correlation m c)
  | unit {c : Code} (h : c.isUnit) : Code.Sayable c

lemma Code.domain_of_operand {u k : Code} (h : u.operand? = some k) : k.domain = u.domain := by
  cases u <;> cases h <;> rfl

namespace Term

variable [Discipline]

structure Workable (top : Term) : Prop where
  nodup : top.tags.Nodup
  fitted : ∀ t ∈ top.subterms, t.isFitted = true
  routes : ∀ t ∈ top.subterms, ∀ {u n}, t.routes.find? u = some n → n ∈ t.tags
  clauses : ∀ t ∈ top.subterms, ∀ x ∈ t.clauses, x.2.Sayable
  scalars : ∀ h, scalar h ∈ top.subterms → ∀ c, top.Demands c → c.broker ≠ h.tag
  units : ∀ c, top.Demands c → c.unit.isProper ∧ ∀ k, c.unit.operand? = some k → k.Sayable
  routed : Tolerates ∨ top.RouteConsistent

/-- A code that a term can evaluate: its units are demanded of the kids, or may fail to be. -/
structure Reads (top : Term) (x : List Code × Term) (r : Routes) (c : Code) : Prop where
  sayable : c.Sayable
  demands : ∀ u ∈ c.units, ∀ {n b}, r.find? u = some n → x.2.offspring? n = some b → top.Demands ⟨u, b, n⟩
  routed : Tolerates ∨ c.isClosed x.1 ∧
    ∀ u ∈ c.units, ∃ n b, r.find? u = some n ∧ x.2.offspring? n = some b

namespace Workable

variable {top : Term} (h : top.Workable) {x : List Code × Term}
include h

variable (hx : x ∈ top.places [])
include hx

lemma reads_clause {y : Routes × Code} (hy : y ∈ x.2.clauses) : Reads top x y.1 y.2 where
  sayable := h.clauses x.2 (mem_subterms_of_place hx) y hy
  demands _ hu _ _ hn hb := .clause (mem_subterms_of_place hx) hy hu hn hb
  routed := h.routed.imp_right fun hr => hr.routed hx (looks_of_clauses hy) (hr.clauses x hx y hy)

variable {c : Claim}

/-- If a claim has come to its target, the target computes the unit. -/
theorem computes (hc : top.Demands c) (ht : c.target = x.2.tag) :
    Tolerates ∨ top.RouteConsistent ∧ x.2.computes x.1 c.unit := by
  refine h.routed.imp_right fun hr => ⟨hr, ?_⟩
  obtain ⟨y, hy, htag, hcomputes⟩ := hr.computes_of_demands hc
  obtain rfl := place_unique h.nodup hx hy (ht.symm.trans htag.symm)
  exact hcomputes

/-- A claim on a term other than a table is for a unit that it computes from a code. -/
theorem operand (htable : x.2.isTable = false) (hc : top.Demands c) (ht : c.target = x.2.tag) :
    Tolerates ∨ top.RouteConsistent ∧ c.unit.operand?.any (x.2.evaluates x.1 x.2.inner) := by
  refine (h.computes hx hc ht).imp_right fun ⟨hr, hcomputes⟩ => ⟨hr, ?_⟩
  generalize x.2 = t at htable hcomputes
  cases t with
  | scalar | segment => cases hcomputes
  | table => cases htable
  | filter | join | embedding | correlation | projection | order | wrapper | permanent => exact hcomputes

lemma reads_operand (htable : x.2.isTable = false) (hc : top.Demands c) (hb : c.broker = x.2.tag)
    (ht : c.target = x.2.tag) {k : Code} (hk : c.unit.operand? = some k) : Reads top x x.2.inner k where
  sayable := (h.units c hc).2 k hk
  demands _ hu _ _ hn hb' := .operand hc (mem_subterms_of_place hx) hb ht hk hu hn hb'
  routed := by
    refine (h.operand hx htable hc ht).imp_right fun ⟨hr, hoperand⟩ => ?_
    rw [hk] at hoperand
    exact hr.routed hx (looks_inner _) hoperand

lemma exists_forward (hc : top.Demands c) (hb : c.broker = x.2.tag) (hne : c.target ≠ x.2.tag) :
    ∃ b, x.2.offspring? c.target = some b ∧ top.Demands { c with broker := b } := by
  obtain ⟨t, ht, htag, hmem⟩ := hc.target_mem
  obtain rfl := eq_of_tag_eq h.nodup ht (mem_subterms_of_place hx) (htag.trans hb)
  obtain ⟨b, hoff⟩ := exists_offspring hmem hne
  exact ⟨b, hoff, .forward hc ht hb hne hoff⟩

end Workable

end Term

namespace Gate

def withRoutes (g : Gate) (r : Routes) : Gate := { g with routes := r }

variable {g : Gate} {l : Ledger} {u : Code}

lemma appoint_of_routes {t : Term} {n b : Nat} (hr : g.routes = r)
    (hd : g.dispatcher = t) (hn : r.find? u = some n) (hb : t.offspring? n = some b) :
    g.appoint u = .ok ⟨u, b, n⟩ := by
  rw [appoint, hr, hd, Routes.tag, hn]
  simp only [require, bind, Except.bind, hb, pure, Except.pure]

lemma supplied_of_beq {v : Code} (h : (v == u)) : g.supplied l v = g.supplied l u := by
  have hfind (b n : Nat) : l.find? ⟨v, b, n⟩ = l.find? ⟨u, b, n⟩ := by
    unfold Ledger.find?
    congr 2
    funext e
    have hclaim : ((⟨v, b, n⟩ : Claim) == ⟨u, b, n⟩) := Claim.beq_iff.2 ⟨rfl, rfl, h⟩
    exact Bool.eq_iff_iff.2 ⟨fun he => BEq.trans he hclaim, fun he => BEq.trans he (BEq.symm hclaim)⟩
  unfold supplied appoint Routes.tag
  rw [g.routes.find?_of_beq h]
  cases hn : g.routes.find? u with
  | none => rfl
  | some n =>
    cases hb : g.dispatcher.offspring? n with
    | none => simp only [require, bind, Except.bind, hb]
    | some b => simp only [require, bind, Except.bind, hb, pure, Except.pure, hfind]

variable [Discipline]

lemma ensures_appoint {x : List Code × Term} {c : Code} (hr : g.routes = r)
    (hd : g.dispatcher = x.2) {top : Term} (h : Term.Reads top x r c)
    (hu : u ∈ c.units) :
    Ensures (fun a => ∃ n b, r.find? u = some n ∧ x.2.offspring? n = some b ∧ a = ⟨u, b, n⟩)
      (g.appoint u) := by
  rcases h.routed with htolerates | ⟨-, hrouted⟩
  · refine (Ensures.require_of fun _ => htolerates rfl).bind fun n hn => ?_
    refine (Ensures.require_of fun _ => htolerates rfl).bind fun b hb => .pure ?_
    exact ⟨n, b, hr ▸ hn, hd ▸ hb, rfl⟩
  · obtain ⟨n, b, hn, hb⟩ := hrouted u hu
    rw [appoint_of_routes hr hd hn hb]
    exact ⟨n, b, hn, hb, rfl⟩

end Gate

namespace Ledger

variable {l l' m : Ledger} {top t k : Term} {tags : List Nat}

/-- Claims are distinct, and each is supplied at most once. -/
structure Sound (l : Ledger) : Prop where
  distinct : l.claims.Pairwise fun a b => (a == b) = false
  claimed : ∀ e ∈ l.phrases, e.1 ∈ l.claims
  once : (l.phrases.map (·.1)).Nodup

lemma sound_empty : empty.Sound :=
  ⟨.nil, nofun, nodup_nil⟩

/-- A ledger before the frame of a term is made: in its tree only the term itself is claimed, for what the
tree demands of it. -/
structure Opens (l : Ledger) (top t : Term) : Prop where
  claims : ∀ c ∈ l.claims, c.broker ∈ t.tags → c.broker = t.tag ∧ top.Demands c
  complete : ∀ c, top.Demands c → c.broker = t.tag → l.claims.any (· == c) = true
  phrases : ∀ e ∈ l.phrases, e.1.broker ∉ t.tags

lemma Opens.demands (h : l.Opens top t) {c : Claim} (hc : c ∈ l.claimsOf t.tag) :
    c.broker = t.tag ∧ top.Demands c := by
  obtain ⟨hc, hb⟩ := mem_filter.1 hc
  exact h.claims c hc (beq_iff_eq.1 hb ▸ Term.tag_mem_tags t)

/-- What a term demands of its kids is added to the claims. -/
structure Delegates (top t : Term) (l l' : Ledger) : Prop where
  phrases : l'.phrases = l.phrases
  distinct : (l.claims.Pairwise fun a b => (a == b) = false) →
    l'.claims.Pairwise fun a b => (a == b) = false
  claims : ∃ new, l'.claims = l.claims ++ new ∧ ∀ c ∈ new, top.Demands c ∧ ∃ k ∈ t.kids, c.broker = k.tag

lemma Delegates.refl (top t : Term) (l : Ledger) : Delegates top t l l :=
  ⟨rfl, id, [], (append_nil _).symm, nofun⟩

lemma Delegates.trans (h : Delegates top t l l') (h' : Delegates top t l' m) : Delegates top t l m := by
  obtain ⟨new, hnew, hdemands⟩ := h.claims
  obtain ⟨new', hnew', hdemands'⟩ := h'.claims
  refine ⟨h'.phrases.trans h.phrases, fun hd => h'.distinct (h.distinct hd), new ++ new', ?_,
    forall_mem_append.2 ⟨hdemands, hdemands'⟩⟩
  rw [hnew', hnew, append_assoc]

lemma Delegates.subset (h : Delegates top t l l') : l.claims ⊆ l'.claims := by
  obtain ⟨new, hnew, _⟩ := h.claims
  exact hnew ▸ subset_append_left _ _

lemma Delegates.sound (h : Delegates top t l l') (hl : l.Sound) : l'.Sound where
  distinct := h.distinct hl.distinct
  claimed e he := h.subset (hl.claimed e (h.phrases ▸ he))
  once := h.phrases ▸ hl.once

lemma any_of_subset (hl : l.claims ⊆ l'.claims) (h : l.claims.any (· == a)) :
    l'.claims.any (· == a) := by
  obtain ⟨c, hc, ha⟩ := any_eq_true.1 h
  exact any_eq_true.2 ⟨c, hl hc, ha⟩

/-- A ledger in which a term has claimed of its kids what the tree demands of them. -/
theorem Delegates.opens (h : Delegates top t l l') (hn : t.tags.Nodup) (hl : l.Opens top t)
    (hk : k ∈ t.kids)
    (hcomplete : ∀ c, top.Demands c → c.broker = k.tag → l'.claims.any (· == c)) :
    l'.Opens top k where
  claims c hc hb := by
    obtain ⟨new, hnew, hdemands⟩ := h.claims
    rw [hnew] at hc
    rcases mem_append.1 hc with hc | hc
    · have hself := (hl.claims c hc (Term.tags_subset_of_kid hk hb)).1
      exact absurd (hself ▸ hb) (Term.tag_not_mem_kid hn hk)
    · obtain ⟨hc, k', hk', hb'⟩ := hdemands c hc
      obtain rfl := Term.kid_unique hn hk hk' hb (hb' ▸ Term.tag_mem_tags k')
      exact ⟨hb', hc⟩
  complete := hcomplete
  phrases e he hb := hl.phrases e (h.phrases ▸ he) (Term.tags_subset_of_kid hk hb)

/-- Claims and phrases are added for terms with given tags only. -/
structure Grows (tags : List Nat) (l l' : Ledger) : Prop where
  claims : ∃ new, l'.claims = l.claims ++ new ∧ ∀ c ∈ new, c.broker ∈ tags
  phrases : ∃ new, l'.phrases = l.phrases ++ new ∧ ∀ e ∈ new, e.1.broker ∈ tags

lemma Grows.refl (tags : List Nat) (l : Ledger) : Grows tags l l :=
  ⟨⟨[], (append_nil _).symm, nofun⟩, ⟨[], (append_nil _).symm, nofun⟩⟩

variable {tags' : List Nat}

lemma Grows.mono (h : Grows tags l l') (hs : tags ⊆ tags') : Grows tags' l l' := by
  obtain ⟨⟨new, hnew, hb⟩, ⟨added, hadded, hb'⟩⟩ := h
  exact ⟨⟨new, hnew, fun c hc => hs (hb c hc)⟩, ⟨added, hadded, fun e he => hs (hb' e he)⟩⟩

lemma Grows.trans (h : Grows tags l l') (h' : Grows tags l' m) : Grows tags l m := by
  obtain ⟨⟨new, hnew, hb⟩, ⟨added, hadded, ha⟩⟩ := h
  obtain ⟨⟨new', hnew', hb'⟩, ⟨added', hadded', ha'⟩⟩ := h'
  refine ⟨⟨new ++ new', ?_, forall_mem_append.2 ⟨hb, hb'⟩⟩,
    ⟨added ++ added', ?_, forall_mem_append.2 ⟨ha, ha'⟩⟩⟩
  · rw [hnew', hnew, append_assoc]
  · rw [hadded', hadded, append_assoc]

lemma Grows.claims_subset (h : Grows tags l l') : l.claims ⊆ l'.claims := by
  obtain ⟨new, hnew, _⟩ := h.claims
  exact hnew ▸ subset_append_left _ _

lemma Grows.phrases_subset (h : Grows tags l l') : l.phrases ⊆ l'.phrases := by
  obtain ⟨new, hnew, _⟩ := h.phrases
  exact hnew ▸ subset_append_left _ _

lemma Grows.mem_phrases (h : Grows tags l l') {e : Claim × Phrase} (he : e ∈ l'.phrases)
    (hb : e.1.broker ∉ tags) : e ∈ l.phrases := by
  obtain ⟨new, hnew, hbrokers⟩ := h.phrases
  rw [hnew] at he
  exact (mem_append.1 he).resolve_right fun he => hb (hbrokers e he)

lemma Grows.claimsOf_eq (h : Grows tags l l') {b : Nat} (hb : b ∉ tags) :
    l'.claimsOf b = l.claimsOf b := by
  obtain ⟨new, hnew, hbrokers⟩ := h.claims
  have hnone : new.filter (·.broker == b) = [] :=
    filter_eq_nil_iff.2 fun c hc hbeq => hb (beq_iff_eq.1 hbeq ▸ hbrokers c hc)
  rw [Ledger.claimsOf, hnew, filter_append, hnone, append_nil]
  rfl

lemma Delegates.grows (h : Delegates top t l l') : Grows (t.kids.map Term.tag) l l' := by
  obtain ⟨new, hnew, hdemands⟩ := h.claims
  refine ⟨⟨new, hnew, fun c hc => ?_⟩, ⟨[], h.phrases.trans (append_nil _).symm,
    nofun⟩⟩
  obtain ⟨-, k, hk, hb⟩ := hdemands c hc
  exact hb ▸ mem_map_of_mem hk

lemma Grows.opens (h : Grows tags l l') (hl : l.Opens top t) (hd : tags.Disjoint t.tags) :
    l'.Opens top t where
  claims c hc hbroker := by
    obtain ⟨new, hnew, hb⟩ := h.claims
    rw [hnew] at hc
    rcases mem_append.1 hc with hc | hc
    · exact hl.claims c hc hbroker
    · exact absurd hbroker (hd (hb c hc))
  complete c hc hb := any_of_subset h.claims_subset (hl.complete c hc hb)
  phrases e he hbroker :=
    hl.phrases e (h.mem_phrases he fun hb => hd hb hbroker) hbroker

/-- All that the tree demands of terms with given tags is claimed. -/
def Complete (top : Term) (tags : List Nat) (l : Ledger) : Prop :=
  ∀ c, top.Demands c → c.broker ∈ tags → l.claims.any (· == c) = true

lemma Complete.mono (h : l.Complete top tags) (hl : l.claims ⊆ l'.claims) : l'.Complete top tags :=
  fun c hc hb => any_of_subset hl (h c hc hb)

lemma Complete.append (h : l.Complete top tags) (h' : l.Complete top tags') :
    l.Complete top (tags ++ tags') :=
  fun c hc hb => (mem_append.1 hb).elim (h c hc) (h' c hc)

lemma Opens.complete_self (h : l.Opens top t) : l.Complete top [t.tag] :=
  fun c hc hb => h.complete c hc (mem_singleton.1 hb)

def Settled (tags : List Nat) (l : Ledger) : Prop :=
  ∀ c ∈ l.claims, c.broker ∈ tags → ∃ e ∈ l.phrases, e.1 = c

lemma Settled.grows (h : Settled tags l) (hg : Grows tags' l l')
    (hd : tags'.Disjoint tags) : Settled tags l' := by
  intro c hc hb
  obtain ⟨new, hnew, hbrokers⟩ := hg.claims
  rw [hnew] at hc
  rcases mem_append.1 hc with hc | hc
  · obtain ⟨e, he, rfl⟩ := h c hc hb
    exact ⟨e, hg.phrases_subset he, rfl⟩
  · exact absurd hb (hd (hbrokers c hc))

lemma Settled.mono (h : Settled tags l) (hs : tags' ⊆ tags) : Settled tags' l :=
  fun c hc hb => h c hc (hs hb)

lemma Settled.append (h : Settled tags l) (h' : Settled tags' l) : Settled (tags ++ tags') l :=
  fun c hc hb => (mem_append.1 hb).elim (h c hc) (h' c hc)

lemma find_of_prefix {new : List (Claim × Phrase)} {p : Phrase}
    (hl : l'.phrases = l.phrases ++ new) (h : l.find? a = some p) : l'.find? a = some p := by
  obtain ⟨e, he, rfl⟩ := Option.map_eq_some_iff.1 h
  rw [Ledger.find?, hl, find?_append, he]
  rfl

section Answers

variable [Discipline] {O O' : List Offer}

/-- What is supplied for terms with given tags is read from what is offered, in the domain of the
unit. -/
def Answers (tags : List Nat) (O : List Offer) (l : Ledger) : Prop :=
  ∀ e ∈ l.phrases, e.1.broker ∈ tags → e.2.Grounded O ∧ e.2.domain = e.1.unit.domain

lemma Answers.mono (h : l.Answers tags O) (hO : O ⊆ O') : l.Answers tags O' :=
  fun e he hb => ⟨(h e he hb).1.mono hO, (h e he hb).2⟩

lemma Answers.grows {tags' : List Nat} (h : l.Answers tags O) (hg : Grows tags' l l')
    (hd : tags'.Disjoint tags) : l'.Answers tags O :=
  fun e he hb => h e (hg.mem_phrases he fun hb' => hd hb' hb) hb

lemma Answers.append {tags' : List Nat} (h : l.Answers tags O) (h' : l.Answers tags' O) :
    l.Answers (tags ++ tags') O :=
  fun e he hb => (mem_append.1 hb).elim (h e he) (h' e he)

lemma Settled.find (hs : l.Settled tags) (ha : l.Answers tags O) (hb : a.broker ∈ tags)
    (h : l.claims.any (· == a)) :
    ∃ p, l.find? a = some p ∧ p.Grounded O ∧ p.domain = a.unit.domain := by
  obtain ⟨c, hc, hca⟩ := any_eq_true.1 h
  obtain ⟨hbroker, -, -⟩ := Claim.beq_iff.1 hca
  obtain ⟨e, he, rfl⟩ := hs c hc (hbroker ▸ hb)
  unfold Ledger.find?
  cases hf : l.phrases.find? (·.1 == a) with
  | none => exact absurd hca (find?_eq_none.1 hf e he)
  | some x =>
    have hbeq : (x.1 == a) := find?_some (p := fun x : Claim × Phrase => x.1 == a) hf
    obtain ⟨hbroker', -, hunit⟩ := Claim.beq_iff.1 hbeq
    obtain ⟨hground, hdomain⟩ := ha x (mem_of_find?_eq_some hf) (hbroker' ▸ hb)
    exact ⟨x.2, rfl, hground, hdomain.trans (Code.domain_of_beq hunit)⟩

end Answers

end Ledger

end NavQuery
