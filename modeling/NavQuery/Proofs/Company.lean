import NavQuery.Proofs.Renewals

/-!
The companions of a unit are what the units beside it compute, those of a quotient what the aggregates over
its own rows compute. A renewal holds of what gets companions if it also holds with such renewed companions.
-/

namespace NavQuery

open List Ensures

namespace Code

/-- Units that are computed together: in one space, and aggregates over the same rows besides. -/
inductive Beside : Code → Code → Prop
  | single {m n : Mark} {c d : Code} {s t : Space} {cs ds : List Code} (hs : (s == t) = true) :
    Beside (.single m c s cs) (.single n d t ds)
  | aggregate {m n : Mark} {c d : Code} {p q s t : Space} {cs ds : List Code} (hp : (p == q) = true)
    (hs : (s == t) = true) : Beside (.aggregate m c p s cs) (.aggregate n d q t ds)

/-- Aggregates from the complement of a quotient to the quotient. -/
inductive Feeds : Code → Space → Prop
  | aggregate {m n : Mark} {c : Code} {b s q : Space} {cs ds : List Code} (hb : (b == q) = true)
    (hs : (s == q) = true) : Feeds (.aggregate m c (.complement n b cs) s ds) q

variable {u v w : Code} {q : Space}

lemma Beside.symm (h : u.Beside v) : v.Beside u := by
  cases h with
  | single hs => exact .single (BEq.symm hs)
  | aggregate hp hs => exact .aggregate (BEq.symm hp) (BEq.symm hs)

lemma Beside.trans (h : u.Beside v) (k : v.Beside w) : u.Beside w := by
  cases h with
  | single hs =>
    cases k with
    | single ht => exact .single (BEq.trans hs ht)
  | aggregate hp hs =>
    cases k with
    | aggregate hq ht => exact .aggregate (BEq.trans hp hq) (BEq.trans hs ht)

lemma Beside.of_beq (h : u.Beside v) (hw : (w == u)) : w.Beside v := by
  rw [beq_iff_unmarked] at hw
  cases h with
  | single hs =>
    cases w <;> simp only [unmarked, reduceCtorEq, single.injEq] at hw
    exact .single (BEq.trans (Space.beq_iff_unmarked.2 hw.2.2.1) hs)
  | aggregate hp hs =>
    cases w <;> simp only [unmarked, reduceCtorEq, aggregate.injEq] at hw
    exact .aggregate (BEq.trans (Space.beq_iff_unmarked.2 hw.2.2.1) hp)
      (BEq.trans (Space.beq_iff_unmarked.2 hw.2.2.2.1) hs)

lemma Feeds.of_beq {r : Space} (h : u.Feeds q) (hq : (q == r)) : u.Feeds r := by
  cases h with
  | aggregate hb hs => exact .aggregate (BEq.trans hb hq) (BEq.trans hs hq)

lemma Beside.feeds (h : u.Beside v) (hu : u.Feeds q) : v.Feeds q := by
  cases hu with
  | aggregate hb hs =>
    cases h with
    | @aggregate _ _ _ _ _ p _ _ _ _ hp ht =>
      rw [Space.beq_iff_unmarked] at hp
      cases p <;> simp only [Space.unmarked, reduceCtorEq, Space.complement.injEq] at hp
      exact .aggregate (BEq.trans (Space.beq_iff_unmarked.2 hp.2.1.symm) hb) (BEq.trans (BEq.symm ht) hs)

end Code

namespace Companions

variable {c : Companions} {units batch : List Code} {u : Code} {fits : Code → Code → Bool}

/-- The units of a batch fit the first of them. -/
def FitFirst (fits : Code → Code → Bool) (units batch : List Code) : Prop :=
  ∃ v ∈ batch.head?, ∀ u ∈ batch, u ∈ units ∧ (u = v ∨ fits u v)

lemma fitFirst_addToBatch (hunit : u ∈ units) {bs : List (List Code)}
    (h : ∀ b ∈ bs, FitFirst fits units b) : ∀ b ∈ addToBatch fits u bs, FitFirst fits units b := by
  induction bs with
  | nil => simp [addToBatch, FitFirst, hunit]
  | cons c bs ih =>
    rw [forall_mem_cons] at h
    rw [addToBatch]
    split
    next hfits =>
      refine forall_mem_cons.2 ⟨?_, h.2⟩
      obtain ⟨v, hv, hall⟩ := h.1
      rw [Option.mem_def.1 hv] at hfits
      refine ⟨v, by rw [head?_append, hv]; rfl, fun w hw => ?_⟩
      rcases mem_append.1 hw with hw | hw
      · exact hall w hw
      · obtain rfl := mem_singleton.1 hw
        exact ⟨hunit, .inr hfits⟩
    next => exact forall_mem_cons.2 ⟨h.1, ih h.2⟩

/-- Units of a list that are computed together. -/
structure Batch (units batch : List Code) : Prop where
  mem : batch ⊆ units
  beside : ∀ u ∈ batch, ∀ v ∈ batch, u.Beside v

lemma batch_of_mem_batches {p : Code → Bool} (h : ∀ u v, p u → p v → u = v ∨ fits u v → u.Beside v)
    (hb : batch ∈ batches fits (units.filter p)) : Batch units batch := by
  obtain ⟨w, hw, hall⟩ : FitFirst fits (units.filter p) batch :=
    foldlRecOn (motive := fun bs => ∀ b ∈ bs, FitFirst fits (units.filter p) b) _ _
      (forall_mem_nil _) (fun bs hbs u hu => fitFirst_addToBatch hu hbs) batch hb
  have hkind : ∀ u ∈ batch, u ∈ units ∧ p u := fun u hu => mem_filter.1 (hall u hu).1
  have hfirst : ∀ u ∈ batch, u.Beside w := fun u hu =>
    h u w (hkind u hu).2 (hkind w (mem_of_mem_head? hw)).2 (hall u hu).2
  exact ⟨fun u hu => (hkind u hu).1, fun u hu v hv => (hfirst u hu).trans (hfirst v hv).symm⟩

/-- What a unit of a list computes that has a property. -/
def Computed (units : List Code) (P : Code → Prop) (k : Code) : Prop :=
  ∃ v ∈ units, v.operand? = some k ∧ P v

lemma Batch.computed {P : Code → Prop} (hb : Batch units batch) (h : ∀ v ∈ batch, P v) :
    ∀ k ∈ batchCodes batch, Computed units P k := fun k hk => by
  obtain ⟨v, hv, hvk⟩ := mem_filterMap.1 ((Code.distinct_spec _).1 hk)
  exact ⟨v, hb.mem hv, hvk, h v hv⟩

/-- Companions are what units of a list compute: for a unit those beside it, for a quotient those that
feed it. -/
structure Shares (us : List Code) (c : Companions) : Prop where
  units : ∀ e ∈ c.units, ∀ k ∈ e.2, Computed us e.1.Beside k
  spaces : ∀ e ∈ c.spaces, ∀ k ∈ e.2, Computed us (·.Feeds e.1) k

lemma feeds_of_ownQuotient? {q : Space} (h : ownQuotient? u = some q) : u.Feeds q := by
  unfold ownQuotient? at h
  split at h
  · split at h <;> cases h
    next hb => exact .aggregate hb BEq.rfl
  · cases h

section Share

variable (hc : c.Shares units) (hb : Batch units batch)
include hc hb

lemma Shares.together : (c.together batch).Shares units where
  units := forall_mem_append.2 ⟨hc.units, forall_mem_map.2 fun u hu => hb.computed (hb.beside u hu)⟩
  spaces := hc.spaces

lemma Shares.shareSingles : (c.shareSingles batch).Shares units := by
  unfold Companions.shareSingles
  split
  · exact hc
  · exact hc.together hb

omit hc hb in
lemma computed_addToSpace {q : Space} {codes : List Code} {es : List (Space × List Code)}
    (hcodes : ∀ k ∈ codes, Computed units (·.Feeds q) k)
    (hes : ∀ e ∈ es, ∀ k ∈ e.2, Computed units (·.Feeds e.1) k) :
    ∀ e ∈ addToSpace q codes es, ∀ k ∈ e.2, Computed units (·.Feeds e.1) k := by
  induction es with
  | nil => exact forall_mem_singleton.2 hcodes
  | cons e es ih =>
    rw [forall_mem_cons] at hes
    rw [addToSpace]
    split
    next heq =>
      refine forall_mem_cons.2 ⟨Code.forall_distinct (forall_mem_append.2 ⟨hes.1, fun k hk => ?_⟩), hes.2⟩
      obtain ⟨v, hv, hvk, hfeeds⟩ := hcodes k hk
      exact ⟨v, hv, hvk, hfeeds.of_beq (BEq.symm heq)⟩
    next => exact forall_mem_cons.2 ⟨hes.1, ih hes.2⟩

lemma Shares.shareAggregates : (c.shareAggregates batch).Shares units := by
  unfold Companions.shareAggregates
  split
  next q hq =>
    obtain ⟨first, hfirst, hown⟩ := Option.bind_eq_some_iff.1 hq
    refine ⟨(hc.together hb).units, computed_addToSpace (hb.computed fun v hv => ?_) hc.spaces⟩
    exact (hb.beside first (mem_of_mem_head? hfirst) v hv).feeds (feeds_of_ownQuotient? hown)
  next => exact hc.shareSingles hb

end Share

theorem ofUnits_shares (units : List Code) : (ofUnits units).Shares units := by
  have hsingles : ∀ u v, isSingle u → isSingle v → u = v ∨ sameSpace u v → u.Beside v := by
    intro u v hu hv huv
    cases u <;> cases hu
    cases v <;> cases hv
    obtain heq | hsame := huv
    · cases heq
      exact .single BEq.rfl
    · exact .single hsame
  have haggregates : ∀ u v, isAggregate u → isAggregate v → u = v ∨ sameSpaces u v → u.Beside v := by
    intro u v hu hv huv
    cases u <;> cases hu
    cases v <;> cases hv
    obtain heq | hsame := huv
    · cases heq
      exact .aggregate BEq.rfl BEq.rfl
    · obtain ⟨hs, hp⟩ := Bool.and_eq_true_iff.1 hsame
      exact .aggregate hp hs
  refine foldlRecOn _ _ (foldlRecOn _ _ ⟨nofun, nofun⟩ fun c hc b hb => ?_) fun c hc b hb => ?_
  · exact hc.shareSingles (batch_of_mem_batches hsingles hb)
  · exact hc.shareAggregates (batch_of_mem_batches haggregates hb)

lemma Shares.ofUnit? {ks : List Code} (h : c.Shares units) (hks : c.ofUnit? u = some ks) :
    ∀ k ∈ ks, Computed units u.Beside k := by
  obtain ⟨e, he, rfl⟩ := Option.map_eq_some_iff.1 hks
  intro k hk
  obtain ⟨v, hv, hvk, hbeside⟩ := h.units e (mem_of_find?_eq_some he) k hk
  have heu : (e.1 == u) := by simpa using find?_some he
  exact ⟨v, hv, hvk, hbeside.of_beq (BEq.symm heu)⟩

lemma Shares.ofSpace? {q : Space} {ks : List Code} (h : c.Shares units) (hks : c.ofSpace? q = some ks) :
    ∀ k ∈ ks, Computed units (·.Feeds q) k := by
  obtain ⟨e, he, rfl⟩ := Option.map_eq_some_iff.1 hks
  intro k hk
  obtain ⟨v, hv, hvk, hfeeds⟩ := h.spaces e (mem_of_find?_eq_some he) k hk
  have heq : (e.1 == q) := by simpa using find?_some he
  exact ⟨v, hv, hvk, hfeeds.of_beq heq⟩

end Companions

section Accompany

variable {R : Renewal} {units : List Code}

/-- What units of a list compute, renewed. -/
def Renewal.Computed (R : Renewal) (units : List Code) (P : Code → Prop) (k' : Code) : Prop :=
  ∃ k, Companions.Computed units P k ∧ R.code k k'

/-- A renewal that holds of what is put together from renewed parts, and also with renewed companions. -/
structure Renewal.Accompanies (R : Renewal) (units : List Code) : Prop extends R.Joins where
  quotient : ∀ {m : Mark} {b s y : Space} {ks cs codes : List Code}, let x := Space.quotient m b s ks cs
    R.given (.space x) → x.Rejoined R y → (∀ k ∈ codes, R.Computed units (·.Feeds x) k) →
      R.space x (y.withCompanions codes)
  unit : ∀ {x y : Code} {ks : List Code}, Companions.isSingle x ∨ Companions.isAggregate x →
    R.given (.code x) → x.Rejoined R y → (∀ k ∈ ks, R.Computed units x.Beside k) →
      R.code x (y.withCompanions ks)

variable [Discipline.Lenient] (hR : R.Accompanies units) (hunits : ∀ u ∈ units, R.given (.code u))
  {expand : Code → Result Code}
include hunits

lemma Renewal.ensures_computed (hx : ∀ k, R.given (.code k) → Ensures (R.code k) (expand k))
    {P : Code → Prop} {ks : List Code} (h : ∀ k ∈ ks, Companions.Computed units P k) :
    Ensures (fun ks => ∀ k ∈ ks, R.Computed units P k) (ks.mapM expand) := by
  refine Ensures.mapM fun k hk => ?_
  obtain ⟨v, hv, hvk, hP⟩ := h k hk
  have hmade := R.core (hunits v hv)
  have hgiven : R.given (.code k) := by
    cases v <;> cases hvk <;> exact hmade.1
  exact (hx k hgiven).imp fun _ hk' => ⟨k, ⟨v, hv, hvk, hP⟩, hk'⟩

include hR

lemma Finish.accompany_renews (hx : ∀ k, R.given (.code k) → Ensures (R.code k) (expand k)) :
    (Finish.accompany (.ofUnits units) expand).Renews R where
  space {x y} h hj := by
    cases x with
    | quotient =>
      change Ensures _ (Space.attended _ expand _ _)
      unfold Space.attended
      split
      · exact hR.space h hj
      next codes hcodes =>
        exact (Renewal.ensures_computed hunits hx ((Companions.ofUnits_shares _).ofSpace? hcodes)).bind
          fun ks hks => hR.quotient h hj hks
    | _ => exact hR.space h hj
  code {x y} h hj := by
    have hattended (hkind : Companions.isSingle x ∨ Companions.isAggregate x) :
        Ensures (R.code x) (Code.attended (.ofUnits units) expand x y) := by
      unfold Code.attended
      split
      · exact hR.code h hj
      next codes hcodes =>
        exact (Renewal.ensures_computed hunits hx ((Companions.ofUnits_shares _).ofUnit? hcodes)).bind
          fun ks hks => hR.unit hkind h hj hks
    cases x with
    | single => exact hattended (.inl rfl)
    | aggregate => exact hattended (.inr rfl)
    | _ => exact hR.code h hj

/-- Companions in companions are renewed. -/
theorem Companions.ensures_expand (n : Nat) (k : Code) (hk : R.given (.code k)) :
    Ensures (R.code k) ((ofUnits units).expand n k) := by
  induction n generalizing k with
  | zero => exact Discipline.Lenient.endless
  | succ n ih =>
    rw [expand_succ]
    exact (Finish.accompany_renews hR hunits ih).rebuilt hk

end Accompany

namespace Segment

variable {R : Renewal} {s : Segment}

/-- A segment whose parts are renewed. -/
structure Renewed (R : Renewal) (s t : Segment) : Prop where
  root : R.space s.root t.root
  space : R.space s.space t.space
  codes : Forall₂ R.code s.codes t.codes

lemma forall_parts {P : Part → Prop} : (∀ a ∈ s.parts, P a) ↔
    P (.space s.root) ∧ P (.space s.space) ∧ ∀ c ∈ s.codes, P (.code c) := by
  simp [parts]

lemma ensures_rebuild [Discipline.Tolerant] {f : Finish} (hf : f.Renews R) (h : ∀ a ∈ s.parts, R.given a) :
    Ensures (Renewed R s) (s.rebuild f) := by
  obtain ⟨hroot, hspace, hcodes⟩ := forall_parts.1 fun a ha => hf.rebuilt (h a ha)
  rw [rebuild_eq, Code.rebuildAll_eq]
  exact hroot.bind fun _ hroot => hspace.bind fun _ hspace => (mapM_forall₂ hcodes).bind fun _ hcodes =>
    .pure ⟨hroot, hspace, hcodes⟩

lemma ensures_unmask [Discipline.Tolerant] (hR : R.Unmasks) (root : Space) (h : ∀ a ∈ s.parts, R.given a) :
    Ensures (Renewed R s) (s.unmask root) := by
  have hparts : ∀ a ∈ s.parts, R.Unmasked root a := fun a ha => hR.unmasked (h a ha)
  obtain ⟨hroot, hspace, hcodes⟩ := forall_parts.1 hparts
  rw [unmask_eq, Code.unmaskAll_eq]
  exact (mapM_forall₂ fun c hc => hcodes c hc _).bind fun _ hcodes => (hspace _).bind fun _ hspace =>
    (hroot _).bind fun _ hroot => .pure ⟨hroot, hspace, hcodes⟩

lemma ensures_accompany [Discipline.Lenient] (hR : R.Accompanies s.units) (h : ∀ a ∈ s.parts, R.given a) :
    Ensures (Renewed R s) s.accompany :=
  have hunits := forall_units R.core h
  ensures_rebuild (Finish.accompany_renews hR hunits (Companions.ensures_expand hR hunits _)) h

end Segment

end NavQuery
