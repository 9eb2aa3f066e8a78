import NavQuery.Proofs.Delegation
import NavQuery.Proofs.FrameOffers

/-!
`Frame.Clausal` says what comes of exporting claims and evaluating clauses: phrases that are grounded in
what they see, and a phrase for each claim, in the domain of the claimed unit.
-/

namespace NavQuery

open List Phrase

namespace Term

def condition? : Term → Option Code
  | .filter _ _ c => some c
  | _ => none

def BooleanFilters (t : Term) : Prop := ∀ s ∈ t.subterms, ∀ c ∈ s.condition?, c.domain = .boolean

end Term

variable [Discipline]

namespace Gate

variable {g : Gate} {l l' : Ledger} {O : List Offer}

/-- A gate at the place of a term, where the phrases of the enclosing rows read what is offered. -/
structure At (g : Gate) (O : List Offer) (x : List Code × Term) : Prop where
  dispatcher : g.dispatcher = x.2
  given : g.correlations.map (·.1) = x.1
  correlations : ∀ e ∈ g.correlations, e.2.Grounded O ∧ e.2.domain = e.1.domain

variable {x : List Code × Term} {c : Code} {new : List (Claim × Phrase)}

lemma At.mono {O' : List Offer} (h : g.At O x) (hO : O ⊆ O') : g.At O' x :=
  { h with correlations := fun e he => ⟨(h.correlations e he).1.mono hO, (h.correlations e he).2⟩ }

lemma At.withRoutes (h : g.At O x) (r : Routes) : (g.withRoutes r).At O x :=
  ⟨h.dispatcher, h.given, h.correlations⟩

def Ready (g : Gate) (l : Ledger) (O : List Offer) (c : Code) : Prop :=
  ∀ u ∈ c.units, Ensures (fun a => ∃ p, l.find? a = some p ∧ p.Grounded O ∧ p.domain = u.domain)
    (g.appoint u)

structure Answers (g : Gate) (l : Ledger) (O : List Offer) (tag : Nat) (c : Claim) : Prop where
  forwarded : c.target ≠ tag →
    ∃ a p, g.forward c = .ok a ∧ l.find? a = some p ∧ p.Grounded O ∧ p.domain = c.unit.domain
  operand : c.target = tag → ∀ k, c.unit.operand? = some k → g.Ready l O k

/-- Phrases that are added later change nothing. -/
theorem Ready.extend (h : g.Ready l O c) (hl : l'.phrases = l.phrases ++ new) : g.Ready l' O c :=
  fun u hu => (h u hu).imp fun _ ⟨p, hp, hp'⟩ => ⟨p, Ledger.find_of_prefix hl hp, hp'⟩

lemma Answers.extend {tag : Nat} {c : Claim} (h : g.Answers l O tag c)
    (hl : l'.phrases = l.phrases ++ new) : g.Answers l' O tag c where
  forwarded hne := by
    obtain ⟨a, p, ha, hp, hp'⟩ := h.forwarded hne
    exact ⟨a, p, ha, Ledger.find_of_prefix hl hp, hp'⟩
  operand heq k hk := (h.operand heq k hk).extend hl

lemma Ready.supplied {u : Code} (h : g.Ready l O c) (hu : u ∈ c.units) :
    Ensures (fun p => p.Grounded O ∧ p.domain = u.domain) (g.supplied l u) := by
  refine (h u hu).bind fun a ha => ?_
  obtain ⟨p, hp, hp'⟩ := ha
  rw [hp]
  exact hp'

section Kids

variable {top : Term} {x : List Code × Term} {r : Routes}

/-- A code whose units are claimed of the kids can be evaluated when the kids are settled. -/
theorem Demanded.ready {tags : List Nat} {c : Code} (h : g.Demanded l c) (hr : g.routes = r)
    (hd : g.dispatcher = x.2) (hreads : Term.Reads top x r c) (hs : l.Settled tags) (ha : l.Answers tags O)
    (hkids : ∀ u ∈ c.units, ∀ n b, r.find? u = some n → x.2.offspring? n = some b → b ∈ tags) :
    g.Ready l O c := by
  intro u hu
  have happoint := ensures_appoint hr hd hreads hu
  cases heq : g.appoint u with
  | error e => rwa [heq] at happoint
  | ok a =>
    rw [heq] at happoint
    obtain ⟨n, b, hn, hb, rfl⟩ := happoint
    exact hs.find ha (hkids u hu n b hn hb) (h u hu _ heq)

end Kids

end Gate

omit [Discipline] in
lemma Code.evaluateAll_eq (g : Gate) (l : Ledger) (cs : List Code) :
    Code.evaluateAll g l cs = cs.mapM (Code.evaluate g l) := eq_mapM_of_cons cs rfl fun _ _ => rfl

/-- A code whose units are supplied has a grounded phrase of its domain. -/
theorem Code.Sayable.evaluate {g : Gate} {l : Ledger} {x : List Code × Term} {O : List Offer} {c : Code}
    (h : c.Sayable) (hg : g.At O x) (hclosed : Discipline.Tolerates ∨ c.isClosed x.1)
    (hunits : ∀ u ∈ c.units, Ensures (fun p => p.Grounded O ∧ p.domain = u.domain) (g.supplied l u)) :
    Ensures (fun p => p.Grounded O ∧ p.domain = c.domain) (c.evaluate g l) := by
  induction h with
  | missing h => exact h
  | literal h => exact .pure ⟨.literal h, rfl⟩
  | parameter => exact .pure ⟨.parameter, rfl⟩
  | cast _ ih => exact (ih hclosed hunits).bind fun p hp => .pure ⟨.cast hp.1, rfl⟩
  | @formula _ d f as hf _ ih =>
    have hargs : ∀ a ∈ as, Ensures (fun p => p.Grounded O ∧ p.domain = a.domain) (a.evaluate g l) := by
      intro a ha
      refine ih a ha (hclosed.imp_right fun hall => ?_) fun u hu => ?_
      · rw [Code.isClosed, Code.areClosed_eq] at hall
        exact all_eq_true.1 hall a ha
      · obtain ⟨v, hv, hvu⟩ := (Code.distinct_spec (Code.unitsOfAll as)).2 u (Code.mem_unitsOfAll ha hu)
        rw [← Gate.supplied_of_beq hvu, ← Code.domain_of_beq hvu]
        exact hunits v hv
    rw [Code.evaluate, Code.evaluateAll_eq]
    refine (Ensures.mapM_forall₂ hargs).bind fun ps hps => .pure ?_
    obtain ⟨hground, hdomains⟩ := Phrase.grounded_of_forall₂ hps
    exact ⟨.ofFormula (hdomains ▸ hf) hground, domain_ofFormula _ _ _⟩
  | @correlation m c =>
    refine (Ensures.require_of fun hnone => ?_).imp fun p hp => ?_
    · rcases hclosed with htolerates | hclosed
      · exact htolerates rfl
      · rw [Code.isClosed, ← hg.given, any_map] at hclosed
        obtain ⟨e, he, hbeq⟩ := any_eq_true.1 hclosed
        exact absurd hbeq (find?_eq_none.1 (Option.map_eq_none_iff.1 hnone) e he)
    · obtain ⟨e, he, rfl⟩ := Option.map_eq_some_iff.1 hp
      have hbeq : (e.1 == c) := find?_some (p := fun e : Code × Phrase => e.1 == c) he
      obtain ⟨hground, hdomain⟩ := hg.correlations e (mem_of_find?_eq_some he)
      exact ⟨hground, hdomain.trans ((Code.domain_of_beq hbeq).trans (by rw [Code.domain]))⟩
  | @unit c hc =>
    cases c with
    | missing | literal | parameter | cast | formula | correlation => cases hc
    | column | single | aggregate | correlated | kernel | covering => exact hunits _ mem_cons_self

namespace Gate

variable {top : Term} {x : List Code × Term} {g : Gate} {l : Ledger} {O : List Offer}

lemma Handled.answers {c : Claim} (h : g.Handled l x.2.tag c) (hw : top.Workable)
    (hx : x ∈ top.places []) (hr : g.routes = x.2.inner) (hd : g.dispatcher = x.2)
    (htable : x.2.isTable = false) (hc : top.Demands c) (hb : c.broker = x.2.tag)
    (hs : l.Settled (x.2.kids.map Term.tag)) (ha : l.Answers (x.2.kids.map Term.tag) O) :
    g.Answers l O x.2.tag c where
  forwarded hne := by
    obtain ⟨b, hoff, -⟩ := hw.exists_forward hx hc hb hne
    have hforward := forward_of_offspring hd hoff
    obtain ⟨p, hp, hp'⟩ := hs.find ha (Term.offspring_mem hoff) (h.forwarded hne _ hforward)
    exact ⟨_, p, hforward, hp, hp'⟩
  operand heq k hk := (h.operand heq k hk).ready hr hd (hw.reads_operand hx htable hc hb heq hk) hs ha
    fun _ _ _ _ _ hoff => Term.offspring_mem hoff

end Gate

namespace Frame

variable {top : Term} {x : List Code × Term} {g : Gate} {l : Ledger} {O : List Offer}

lemma ensures_evaluate {r : Routes} {c : Code} (hg : g.At O x) (h : Term.Reads top x r c)
    (hr : g.Ready l O c) :
    Ensures (fun p => (p.1.Grounded O ∧ p.1.domain = c.domain) ∧ p.2 = l) (evaluate g c l) :=
  .run_lift (h.sayable.evaluate hg (h.routed.imp_right And.left) fun _ hu => hr.supplied hu)

section Exports

variable {tag : Nat} {select : List Phrase} {p : Phrase}

/-- A phrase gets a place in the select list, and the other places stay. -/
structure Places (select : List Phrase) (p : Phrase) (x : List Phrase × Nat) : Prop where
  keeps : select <+: x.1
  domain : (x.1.map Phrase.domain)[x.2]? = some p.domain
  mem : ∀ q ∈ x.1, q ∈ select ∨ q = p

omit [Discipline] in
lemma places_place (select : List Phrase) (p : Phrase) : Places select p (place select p) := by
  unfold place
  split
  next i hi =>
    obtain ⟨hlt, hbeq, -⟩ := findIdx?_eq_some_iff_getElem.1 hi
    refine ⟨prefix_refl _, ?_, fun q hq => .inl hq⟩
    rw [getElem?_map, getElem?_eq_getElem hlt, Option.map_some, domain_of_beq hbeq]
  next =>
    refine ⟨prefix_append _ _, ?_, fun q hq => (mem_append.1 hq).imp_right mem_singleton.1⟩
    simp

variable {c : Claim}

lemma ensures_supply (hc : c ∈ l.claims) (hfresh : ∀ e ∈ l.phrases, (e.1 == c) = false) :
    Ensures (fun q => q.2 = { l with phrases := l.phrases ++ [(c, p)] }) (supply c p l) := by
  have hany : l.claims.any (· == c) := any_eq_true.2 ⟨c, hc, BEq.rfl⟩
  have hnone : l.find? c = none := by
    rw [Ledger.find?, find?_eq_none.2 fun e he => by simp [hfresh e he]]
    rfl
  have hrun : supply c p l = .ok ((), { l with phrases := l.phrases ++ [(c, p)] }) := by
    simp only [supply, bind, StateT.bind, MonadState.get, getThe, MonadStateOf.get, StateT.get, pure, Except.pure,
      Except.bind, liftM, monadLift, MonadLift.monadLift, StateT.lift, ensure, hany, hnone,
      if_true, Option.isNone_none]
    rfl
  rw [hrun]
  exact rfl

omit [Discipline] in
lemma sound_supply (hl : l.Sound) (hc : c ∈ l.claims) (hfresh : ∀ e ∈ l.phrases, (e.1 == c) = false) :
    ({ l with phrases := l.phrases ++ [(c, p)] } : Ledger).Sound where
  distinct := hl.distinct
  claimed := forall_mem_append.2 ⟨hl.claimed, forall_mem_singleton.2 hc⟩
  once := by
    have hnew : c ∉ l.phrases.map (·.1) := fun hm => by
      obtain ⟨e, he, rfl⟩ := mem_map.1 hm
      exact absurd (hfresh e he) (by simp)
    rw [map_append]
    exact nodup_append'.2 ⟨hl.once, nodup_singleton _, by simpa using hnew⟩

/-- Claims have been supplied with phrases that read what is offered. -/
structure Supplies (O : List Offer) (cs : List Claim) (l l' : Ledger) : Prop where
  sound : l'.Sound
  claims : l'.claims = l.claims
  phrases : ∃ new, l'.phrases = l.phrases ++ new ∧ new.map (·.1) = cs ∧
    ∀ e ∈ new, e.2.Grounded O ∧ e.2.domain = e.1.unit.domain

lemma supplies_nil (hl : l.Sound) : Supplies O [] l l :=
  ⟨hl, rfl, [], (append_nil _).symm, rfl, forall_mem_nil _⟩

variable {cs : List Claim}

lemma Supplies.cons {l' : Ledger} (h : Supplies O cs { l with phrases := l.phrases ++ [(c, p)] } l')
    (hp : p.Grounded O ∧ p.domain = c.unit.domain) : Supplies O (c :: cs) l l' := by
  obtain ⟨new, hnew, hmap, hall⟩ := h.phrases
  exact ⟨h.sound, h.claims, _, hnew.trans (append_assoc _ _ _), congrArg _ hmap,
    forall_mem_cons.2 ⟨hp, hall⟩⟩

/-- Claims can be exported: each one is there, and none of them is supplied yet. -/
structure Pending (l : Ledger) (cs : List Claim) : Prop where
  claims : ∀ c ∈ cs, c ∈ l.claims
  distinct : cs.Pairwise fun a b => (a == b) = false
  fresh : ∀ c ∈ cs, ∀ e ∈ l.phrases, (e.1 == c) = false

omit [Discipline] in
lemma Pending.tail (h : Pending l (c :: cs)) :
    Pending { l with phrases := l.phrases ++ [(c, p)] } cs where
  claims d hd := h.claims d (.tail _ hd)
  distinct := (pairwise_cons.1 h.distinct).2
  fresh d hd := forall_mem_append.2 ⟨h.fresh d (.tail _ hd),
    forall_mem_singleton.2 ((pairwise_cons.1 h.distinct).1 d hd)⟩

section Claims

variable (hw : top.Workable) (hx : x ∈ top.places []) (htable : x.2.isTable = false) (hg : g.At O x)
include hw hx htable hg

lemma ensures_claimed {c : Claim} (hc : top.Demands c) (hb : c.broker = x.2.tag)
    (ha : g.Answers l O x.2.tag c) :
    Ensures (fun p => (p.1.Grounded O ∧ p.1.domain = c.unit.domain) ∧ p.2 = l) (claimed g x.2.tag c l) := by
  unfold claimed
  split
  next hne =>
    obtain ⟨a, p, hforward, hp, hp'⟩ := ha.forwarded hne
    rw [hforward]
    show Ensures _ ((liftM (require (l.find? a) .forwardedClaim) : Assembling Phrase) l)
    rw [hp]
    exact ⟨hp', rfl⟩
  next heq =>
    have heq := Decidable.of_not_not heq
    cases ho : c.unit.operand? with
    | none =>
      rcases hw.operand hx htable hc heq with htolerates | ⟨-, hoperand⟩
      · exact .run_throw (htolerates rfl)
      · rw [ho] at hoperand
        cases hoperand
    | some k =>
      rw [← Code.domain_of_operand ho]
      exact ensures_evaluate hg (hw.reads_operand hx htable hc hb heq ho) (ha.operand heq k ho)

lemma ensures_exportClaims {cs : List Claim} (hselect : ∀ p ∈ select, p.Grounded O) (hl : l.Sound)
    (hpending : Pending l cs)
    (hcs : ∀ c ∈ cs, (top.Demands c ∧ c.broker = x.2.tag) ∧ g.Answers l O x.2.tag c) :
    Ensures (fun q => select <+: q.1 ∧ (∀ p ∈ q.1, p.Grounded O) ∧
        Supplies [.items x.2.tag (q.1.map Phrase.domain)] cs l q.2)
      (exportClaims g x.2.tag cs select l) := by
  induction cs generalizing l select with
  | nil => exact .run_pure ⟨prefix_refl _, hselect, supplies_nil hl⟩
  | cons c cs ih =>
    rw [forall_mem_cons] at hcs
    refine (ensures_claimed hw hx htable hg hcs.1.1.1 hcs.1.1.2 hcs.1.2).run_bind fun p m hp => ?_
    obtain ⟨hp, rfl⟩ := hp
    have hplace := places_place select p
    generalize place select p = placed at hplace
    obtain ⟨select', index⟩ := placed
    have hselect' : ∀ q ∈ select', q.Grounded O := fun q hq =>
      (hplace.mem q hq).elim (hselect q) fun heq => heq ▸ hp.1
    have hmem := hpending.claims c mem_cons_self
    have hfresh := hpending.fresh c mem_cons_self
    refine (ensures_supply hmem hfresh).run_bind fun _ l' heq => ?_
    subst heq
    refine (ih hselect' (sound_supply hl hmem hfresh) hpending.tail fun d hd =>
      ⟨(hcs.2 d hd).1, (hcs.2 d hd).2.extend rfl⟩).imp fun q hq => ?_
    obtain ⟨hkeeps, hground, hsupplies⟩ := hq
    refine ⟨hplace.keeps.trans hkeeps, hground, hsupplies.cons ⟨?_, hp.2⟩⟩
    have href : (Phrase.reference p.domain (p.nullable || g.nullable) x.2.tag index).Grounded
        [.items x.2.tag (select'.map Phrase.domain)] := .reference mem_cons_self hplace.domain
    exact href.lengthen (hkeeps.map _)

end Claims

omit [Discipline] in
lemma orTrue_ne_nil (select : List Phrase) : orTrue select ≠ [] := by
  unfold orTrue
  split
  · exact cons_ne_nil _ _
  next h => exact fun hnil => h (isEmpty_iff.2 hnil)

lemma grounded_orTrue (h : ∀ p ∈ select, p.Grounded O) : ∀ p ∈ orTrue select, p.Grounded O := by
  unfold orTrue
  split
  · exact forall_mem_singleton.2 (grounded_ofBool true)
  · exact h

omit [Discipline] in
lemma prefix_orTrue (select : List Phrase) : select <+: orTrue select := by
  unfold orTrue
  split
  next h => exact isEmpty_iff.1 h ▸ nil_prefix
  next => exact prefix_refl _

end Exports

section Clauses

/-- What holds when the frames of the kids are made, where what they offer and what is seen around is in
`O`. -/
structure Furnished (top : Term) (g : Gate) (t : Term) (O : List Offer) (l : Ledger) : Prop where
  sound : l.Sound
  clauses : ∀ y ∈ t.clauses, (g.withRoutes y.1).Ready l O y.2
  claims : ∀ c ∈ l.claimsOf t.tag,
    (top.Demands c ∧ c.broker = t.tag) ∧ (g.withRoutes t.inner).Answers l O t.tag c
  fresh : ∀ e ∈ l.phrases, e.1.broker ≠ t.tag
  admits : t.Admits (l.claimsOf t.tag)

variable {t : Term}

lemma Furnished.pending (h : Furnished top g t O l) : Pending l (l.claimsOf t.tag) where
  claims c hc := (mem_filter.1 hc).1
  distinct := h.sound.distinct.sublist filter_sublist
  fresh c hc e he := by
    refine Bool.eq_false_iff.2 fun hbeq => h.fresh e he ?_
    exact (Claim.beq_iff.1 hbeq).1.trans (h.claims c hc).1.2

/-- The places of the codes of a segment in its select list. -/
def Outputs (c : Clauses) : Term → Prop
  | .segment _ _ cs => cs.Forall₂ (fun k i => (c.select.map domain)[i]? = some k.domain) c.outputs
  | _ => True

structure Clausal (t : Term) (O : List Offer) (l : Ledger) (q : Clauses × Ledger) : Prop where
  tag : q.1.tag = t.tag
  role : decide (q.1.role = .segment) = t.isSegment
  select : q.1.select ≠ []
  phrases : ∀ p ∈ q.1.phrases, p.Grounded O
  supplies : Supplies (q.1.offer t.isCorrelation) (l.claimsOf t.tag) l q.2
  outputs : Outputs q.1 t
  boolean : (∀ k ∈ t.condition?, k.domain = .boolean) → q.1.BooleanConditions

structure Selects (t : Term) (O : List Offer) (l : Ledger) (q : List Phrase × Ledger) : Prop where
  select : q.1 ≠ []
  phrases : ∀ p ∈ q.1, p.Grounded O
  supplies : Supplies [.items t.tag (q.1.map domain)] (l.claimsOf t.tag) l q.2

lemma Selects.clausal {c : Clauses} {q : List Phrase × Ledger} (h : Selects t O l q)
    (hs : t.isSource) (htag : c.tag = t.tag) (hrole : c.role ≠ .segment) (hselect : c.select = q.1)
    (hothers : ∀ p ∈ c.phrases, p ∉ c.select → p.Grounded O)
    (hboolean : (∀ k ∈ t.condition?, k.domain = .boolean) → c.BooleanConditions) :
    Clausal t O l (c, q.2) where
  tag := htag
  role := by rw [decide_eq_false hrole, Term.isSegment_of_isSource hs]
  select := hselect ▸ h.select
  phrases p hp := by
    by_cases hm : p ∈ c.select
    · exact h.phrases p (hselect ▸ hm)
    · exact hothers p hp hm
  supplies := by
    have hoffer : c.offer t.isCorrelation = [.items t.tag (q.1.map domain)] := by
      rw [Term.isCorrelation_of_isSource hs, ← hselect, ← htag]
      simp only [Clauses.offer, Bool.false_eq_true, if_false, hrole]
    exact hoffer ▸ h.supplies
  outputs := by cases t <;> trivial
  boolean := hboolean

variable (hw : top.Workable) (hx : x ∈ top.places []) (hg : g.At O x) (hr : g.routes = x.2.routes)
  (h : Furnished top g x.2 O l)
include hw hx hg h

lemma ensures_clause {y : Routes × Code} (hy : y ∈ x.2.clauses) {m : Ledger}
    {new : List (Claim × Phrase)} (hm : m.phrases = l.phrases ++ new) :
    Ensures (fun p => (p.1.Grounded O ∧ p.1.domain = y.2.domain) ∧ p.2 = m)
      (evaluate (g.withRoutes y.1) y.2 m) :=
  ensures_evaluate (hg.withRoutes y.1) (hw.reads_clause hx hy) ((h.clauses y hy).extend hm)

include hr

/-- The select list of a term that is neither a subquery nor a segment. -/
theorem ensures_selectOf (hs : x.2.isSource) (htable : x.2.isTable = false) :
    Ensures (Selects x.2 O l) (selectOf g x.2 l) := by
  have hexport : Ensures (Selects x.2 O l) ((do
      return orTrue (← exportClaims (g.withRoutes x.2.inner) x.2.tag (l.claimsOf x.2.tag) []) :
        Assembling _) l) := by
    refine (ensures_exportClaims hw hx htable (hg.withRoutes _) (forall_mem_nil _)
      h.sound h.pending h.claims).run_bind fun select m hm => .run_pure ⟨orTrue_ne_nil select, ?_, ?_⟩
    · exact grounded_orTrue hm.2.1
    · obtain ⟨new, hnew, hmap, hall⟩ := hm.2.2.phrases
      refine ⟨hm.2.2.sound, hm.2.2.claims, new, hnew, hmap, fun e he => ⟨?_, (hall e he).2⟩⟩
      exact (hall e he).1.lengthen ((prefix_orTrue select).map _)
  obtain ⟨given, t⟩ := x
  have hself : t.inner = t.routes → g.withRoutes t.inner = g := fun heq =>
    Gate.withRoutes_eq (hr.trans heq.symm)
  cases t with
  | correlation | segment => cases hs
  | table => cases htable
  | projection => exact hexport
  | scalar | filter | join | embedding | order | wrapper | permanent =>
    rw [hself rfl] at hexport
    exact hexport

omit h in
lemma ensures_selectOf_correlation (h : Furnished top g x.2 O l) (hc : x.2.isCorrelation) :
    Ensures (fun q => Clausal x.2 O l (plainClauses .nested x.2.tag q.1, q.2)) (selectOf g x.2 l) := by
  obtain ⟨given, t⟩ := x
  cases t with
  | correlation top k =>
    obtain ⟨c, hclaims, htarget⟩ := h.admits
    have hmem : c ∈ l.claimsOf top.tag := hclaims ▸ mem_cons_self
    obtain ⟨⟨hdemands, hbroker⟩, hanswers⟩ := h.claims c hmem
    rw [Gate.withRoutes_eq (show g.routes = (Term.correlation top k).inner from hr)] at hanswers
    refine Ensures.run_get_bind ?_
    rw [show l.claimsOf (Term.correlation top k).tag = [c] from hclaims]
    dsimp only
    cases ho : c.unit.operand? with
    | none =>
      rcases hw.operand hx rfl hdemands htarget with htolerates | ⟨-, hoperand⟩
      · exact .run_throw (htolerates rfl)
      · rw [ho] at hoperand
        cases hoperand
    | some code =>
      refine (ensures_evaluate hg (hw.reads_operand hx rfl hdemands hbroker htarget ho)
        (hanswers.operand htarget code ho)).run_bind fun p m hp => ?_
      obtain ⟨hp, rfl⟩ := hp
      have hfresh := h.pending.fresh c hmem
      have hclaim := (mem_filter.1 hmem).1
      refine (ensures_supply hclaim hfresh).run_bind fun _ m hm => .run_pure ?_
      subst hm
      refine ⟨rfl, rfl, cons_ne_nil _ _, ?_, ?_, trivial, fun _ => .of_none rfl rfl⟩
      · simpa [plainClauses, Clauses.phrases] using hp.1
      · rw [show (_ : Ledger).claimsOf _ = [c] from hclaims]
        refine (supplies_nil (sound_supply h.sound hclaim hfresh)).cons ⟨?_, ?_⟩
        · exact .embedding mem_cons_self
        · exact hp.2.trans (Code.domain_of_operand ho)
  | _ => cases hc

omit hw hx hg hr h in
lemma ensures_selectOutputs {cs : List Code} {select : List Phrase}
    (hcs : ∀ c ∈ cs, Ensures (fun p => (p.1.Grounded O ∧ p.1.domain = c.domain) ∧ p.2 = l) (evaluate g c l))
    (hselect : ∀ p ∈ select, p.Grounded O) :
    Ensures (fun q => (select <+: q.1.1 ∧ (∀ p ∈ q.1.1, p.Grounded O) ∧
        cs.Forall₂ (fun k i => (q.1.1.map domain)[i]? = some k.domain) q.1.2) ∧ q.2 = l)
      (selectOutputs g cs select l) := by
  induction cs generalizing select with
  | nil => exact .run_pure ⟨⟨prefix_refl _, hselect, .nil⟩, rfl⟩
  | cons c cs ih =>
    rw [forall_mem_cons] at hcs
    refine hcs.1.run_bind fun p m hp => ?_
    obtain ⟨hp, rfl⟩ := hp
    have hplace := places_place select p
    generalize place select p = placed at hplace
    refine (ih hcs.2 fun q hq => ?_).run_bind fun q m hq => .run_pure ?_
    · exact (hplace.mem q hq).elim (hselect q) fun heq => heq ▸ hp.1
    · obtain ⟨⟨hkeeps, hground, houtputs⟩, rfl⟩ := hq
      refine ⟨⟨hplace.keeps.trans hkeeps, hground, .cons ?_ houtputs⟩, rfl⟩
      obtain ⟨more, hmore⟩ := hkeeps
      have hdomain := hplace.domain
      rw [← hp.2, ← hmore, map_append,
        getElem?_append_left (List.getElem?_eq_some_iff.1 hdomain).1]
      exact hdomain

lemma ensures_clausesOf (htable : x.2.isTable = false) : Ensures (Clausal x.2 O l) (clausesOf g x.2 l) := by
  have hselect := fun hs => ensures_selectOf hw hx hg hr h hs htable
  have hcorrelation := ensures_selectOf_correlation hw hx hg hr h
  have hclause := fun y hy => @ensures_clause _ top x g l O hw hx hg h y hy
  have hplain (role : Role) (hrole : role ≠ .segment) (hs : x.2.isSource) :
      Ensures (Clausal x.2 O l) ((do return plainClauses role x.2.tag (← selectOf g x.2) :
        Assembling Clauses) l) := by
    refine (hselect hs).run_bind fun select m hm => .run_pure ?_
    refine hm.clausal hs rfl hrole rfl (fun p hp hnot => absurd ?_ hnot) fun _ => .of_none rfl rfl
    simpa [plainClauses, Clauses.phrases] using hp
  obtain ⟨given, t⟩ := x
  cases t with
  | table => cases htable
  | scalar | join | embedding | wrapper => exact hplain .nested (by rintro ⟨⟩) rfl
  | permanent => exact hplain .permanent (by rintro ⟨⟩) rfl
  | correlation top k => exact (hcorrelation rfl).run_bind fun select m hm => .run_pure hm
  | segment head k cs =>
    have hcs : ∀ c ∈ cs, Ensures (fun p => (p.1.Grounded O ∧ p.1.domain = c.domain) ∧ p.2 = l)
        (evaluate g c l) := fun c hc => by
      have := hclause (head.routes, c) (mem_map.2 ⟨c, hc, rfl⟩) (append_nil _).symm
      rwa [Gate.withRoutes_eq (show g.routes = head.routes from hr)] at this
    refine (ensures_selectOutputs hcs (forall_mem_nil _)).run_bind fun q m hq => .run_pure ?_
    obtain ⟨⟨-, hground, houtputs⟩, rfl⟩ := hq
    refine ⟨rfl, rfl, orTrue_ne_nil _, fun p hp => grounded_orTrue hground p ?_, ?_, ?_,
      fun _ => .of_none rfl rfl⟩
    · simpa [plainClauses, Clauses.phrases] using hp
    · rw [show (_ : Ledger).claimsOf _ = [] from h.admits]
      exact supplies_nil h.sound
    · refine houtputs.imp fun k i hi => ?_
      obtain ⟨more, hmore⟩ := prefix_orTrue q.1
      show ((orTrue q.1).map domain)[i]? = _
      rw [← hmore, map_append, getElem?_append_left (List.getElem?_eq_some_iff.1 hi).1]
      exact hi
  | filter head k c =>
    refine (hselect rfl).run_bind fun select m hm => ?_
    obtain ⟨new, hnew, -⟩ := hm.supplies.phrases
    refine (hclause _ mem_cons_self hnew).run_bind fun p m' hp => .run_pure ?_
    obtain ⟨hp, rfl⟩ := hp
    refine hm.clausal rfl rfl (by rintro ⟨⟩) rfl (fun q hq hnot => ?_) fun hboolean q hq => ?_
    · have hq : q ∈ select ∨ q = p.toPredicate := by simpa [plainClauses, Clauses.phrases] using hq
      exact hq.resolve_left hnot ▸ hp.1.toPredicate
    · obtain rfl : q = p.toPredicate := by simpa [plainClauses, eq_comm] using hq
      exact hp.2.trans (hboolean c rfl)
  | projection head k ks =>
    refine (hselect rfl).run_bind fun select m hm => ?_
    obtain ⟨new, hnew, -⟩ := hm.supplies.phrases
    refine (Ensures.run_mapM (Q := fun p => p.Grounded O) fun c hc => ?_).run_bind
      fun group m' hgroup => .run_pure ?_
    · refine (hclause (k.routes, c) (mem_map.2 ⟨c, (mem_filter.1 hc).1, rfl⟩) hnew).imp
        fun q hq => ⟨hq.1.1, hq.2⟩
    obtain ⟨hgroup, rfl⟩ := hgroup
    refine hm.clausal rfl rfl (by rintro ⟨⟩) rfl (fun q hq hnot => ?_) fun _ => .of_none rfl rfl
    have hq : q ∈ select ∨ q ∈ orTrue group := by simpa [plainClauses, Clauses.phrases] using hq
    exact grounded_orTrue hgroup q (hq.resolve_left hnot)
  | order head k is lim off =>
    refine (hselect rfl).run_bind fun select m hm => ?_
    obtain ⟨new, hnew, -⟩ := hm.supplies.phrases
    refine (Ensures.run_mapM (Q := fun i : SortItem => i.1.Grounded O) fun i hi => ?_).run_bind
      fun order m' horder => .run_pure ?_
    · exact (hclause (k.routes, i.1) (mem_map.2
        ⟨i, (mem_filter.1 hi).1, rfl⟩) hnew).run_bind fun p m' hp => .run_pure ⟨hp.1.1, hp.2⟩
    · obtain ⟨horder, rfl⟩ := horder
      refine hm.clausal rfl rfl (by rintro ⟨⟩) rfl (fun q hq hnot => ?_) fun _ => .of_none rfl rfl
      have hq : q ∈ select ∨ ∃ d, (q, d) ∈ order := by simpa [plainClauses, Clauses.phrases] using hq
      obtain ⟨d, hd⟩ := hq.resolve_left hnot
      exact horder _ hd

end Clauses

end Frame

end NavQuery
