import NavQuery.Proofs.Writers

/-!
Everything that frames offer has a name before the statement is written. So writing ends in a text, or in
an error that has to do with a literal, with a formula or with a query that is embedded in itself.
-/

namespace NavQuery

open List Phrase Statement Discipline

variable {select : List Phrase} {as : List (Anchor Frame)} {fs : List Frame}

/-- Literals are written or fail in a way that may occur, and so are formulas without the operands that
their operators need. -/
class Discipline.Spelling extends Lenient where
  spells (dialect : Dialect) {d : Domain} {v : Value} (h : literal d v) :
    Passes (writeLiteral dialect d v)
  operands {d : Domain} {f : Operator} {ds : List Domain} (h : formula d f ds) :
    f.least ≤ ds.length ∨ error .missingEntry

inductive Phrase.Writable [Discipline] (O : List Offer) : Phrase → Prop
  | literal {d : Domain} {n : Bool} {v : Value} (h : Discipline.literal d v) : Writable O (.literal d n v)
  | parameter {d : Domain} {n : Text} : Writable O (.parameter d n)
  | cast {d : Domain} {n : Bool} {p : Phrase} (hp : p.Writable O) : Writable O (.cast d n p)
  | formula {d : Domain} {n : Bool} {f : Operator} {as : List Phrase}
    (hf : Discipline.formula d f (as.map domain)) (has : ∀ a ∈ as, a.Writable O) :
    Writable O (.formula d n f as)
  | column {n : Bool} {t : Tag} {c : Column} (h : .columns t ∈ O) : Writable O (.column n t c)
  | reference {d : Domain} {n : Bool} {t : Tag} {i : Nat} {ds : List Domain} (h : .items t ds ∈ O)
    (hi : i < ds.length) : Writable O (.reference d n t i)
  | embedding {d : Domain} {t : Tag} (h : .answer t ∈ O) : Writable O (.embedding d t)

structure Clauses.Writable [Discipline] (R : List Offer) (c : Clauses) : Prop where
  phrases : ∀ p ∈ c.phrases, p.Writable R
  lengths : ∀ ds, .items c.tag ds ∈ R → ds.length ≤ c.select.length

inductive Frame.Writable [Discipline] (R : List Offer) : Frame → Prop
  | scalar {t : Tag} (h : ∀ ds, .items t ds ∉ R) : Writable R (.scalar t)
  | table {n : Tag} {t : Table} : Writable R (.table n t)
  | query {c : Clauses} {anchors : List (Anchor Frame)} {embedded : List Frame} (hc : c.Writable R)
    (hj : ∀ a ∈ anchors, a.frame.isSegment = false) (ha : ∀ a ∈ anchors, a.frame.Writable R)
    (hp : ∀ a ∈ anchors, ∀ p ∈ a.condition, p.Writable R)
    (he : ∀ f ∈ embedded, f.Writable R) : Writable R (.query c anchors embedded)

namespace Names

variable {R : List Offer} {n m : Names}

/-- There are names for all select items that are offered, and embedded queries are over what is offered. -/
structure Fits [Discipline] (R : List Offer) (n : Names) : Prop where
  selects : ∀ x ∈ n.selects, ∀ ds, .items x.1 ds ∈ R → ds.length ≤ x.2.length
  embedded : ∀ x ∈ n.embedded, x.2.Writable R ∧ x.2.offers true ⊆ R

def Has (n : Names) : Offer → Prop
  | .columns t => t ∈ n.frames.map (·.1)
  | .items t _ => t ∈ n.frames.map (·.1) ∧ t ∈ n.selects.map (·.1)
  | .answer t => t ∈ n.embedded.map (·.1)

structure Extends (n m : Names) : Prop where
  frames : n.frames.map (·.1) ⊆ m.frames.map (·.1)
  selects : n.selects.map (·.1) ⊆ m.selects.map (·.1)
  embedded : n.embedded.map (·.1) ⊆ m.embedded.map (·.1)

lemma Extends.refl (n : Names) : n.Extends n :=
  ⟨List.Subset.refl _, List.Subset.refl _, List.Subset.refl _⟩

lemma Extends.trans {k : Names} (h : n.Extends m) (hk : m.Extends k) : n.Extends k :=
  ⟨List.Subset.trans h.frames hk.frames, List.Subset.trans h.selects hk.selects,
    List.Subset.trans h.embedded hk.embedded⟩

lemma Has.mono {x : Offer} (h : n.Has x) (hm : n.Extends m) : m.Has x := by
  cases x with
  | columns t => exact hm.frames h
  | items t k => exact ⟨hm.frames h.1, hm.selects h.2⟩
  | answer t => exact hm.embedded h

variable {t : Tag} {α : Type}

lemma mem_of_lookup {l : List (Tag × α)} {a : α} (h : l.lookup t = some a) : (t, a) ∈ l := by
  obtain ⟨before, after, rfl, _⟩ := lookup_eq_some_iff.1 h
  simp

lemma exists_lookup {l : List (Tag × α)} (h : t ∈ l.map (·.1)) :
    ∃ a, l.lookup t = some a ∧ (t, a) ∈ l := by
  cases hl : l.lookup t with
  | none =>
    obtain ⟨x, hx, rfl⟩ := mem_map.1 h
    simpa using lookup_eq_none_iff.1 hl x hx
  | some a => exact ⟨a, rfl, mem_of_lookup hl⟩

variable [Spelling]

lemma ensures_frame (h : t ∈ n.frames.map (·.1)) : Passes (n.frame t) := by
  obtain ⟨a, ha, _⟩ := exists_lookup h
  rw [frame, ha]
  exact trivial

lemma Fits.item {i : Nat} {ds : List Domain} (hf : n.Fits R) (ht : t ∈ n.selects.map (·.1))
    (hds : .items t ds ∈ R) (hi : i < ds.length) : Passes (n.item t i) := by
  obtain ⟨items, hitems, hmem⟩ := exists_lookup ht
  have hlt : i < items.length := Nat.lt_of_lt_of_le hi (hf.selects _ hmem ds hds)
  rw [Names.item, hitems]
  show Ensures _ (entry items[i]?)
  rw [getElem?_eq_getElem hlt]
  exact trivial

lemma Fits.ofPhrase {p : Phrase} (hf : n.Fits R) (hp : p.Writable R) : Passes (n.ofPhrase p) := by
  induction hp with
  | literal | parameter | column | embedding => exact trivial
  | cast _ ih => exact ih
  | @formula d b f as _ _ ih =>
    cases as with
    | nil => exact trivial
    | cons a as =>
      rw [Names.ofPhrase]
      split
      · exact trivial
      split
      all_goals first | exact ih a mem_cons_self | exact trivial
  | @reference d b t i ds hitems hi =>
    rw [Names.ofPhrase]
    split
    next => exact trivial
    next items hl =>
      have hlt : i < items.length := Nat.lt_of_lt_of_le hi (hf.selects _ (mem_of_lookup hl) ds hitems)
      rw [getElem?_eq_getElem hlt]
      exact trivial

lemma Fits.ofSelect {counts : NameCounts} (hf : n.Fits R)
    (h : ∀ p ∈ select, p.Writable R) :
    Ensures (fun names => names.length = select.length) (n.ofSelect select counts) := by
  induction select generalizing counts with
  | nil => exact rfl
  | cons p ps ih =>
    rw [forall_mem_cons] at h
    exact (hf.ofPhrase h.1).bind fun name => (ih h.2).bind fun names hnames =>
      .pure (congrArg Nat.succ hnames)

end Names

namespace Frame

variable [Spelling] {R : List Offer} {e : Bool} {f : Frame} {n : Names}

structure Named (R xs : List Offer) (n m : Names) : Prop where
  fits : m.Fits R
  keeps : n.Extends m
  has : ∀ x ∈ xs, m.Has x

lemma Named.trans {xs ys : List Offer} {m k : Names} (h : Named R xs n m) (hk : Named R ys m k) :
    Named R (xs ++ ys) n k :=
  ⟨hk.fits, h.keeps.trans hk.keeps, forall_mem_append.2 ⟨fun x hx => (h.has x hx).mono hk.keeps, hk.has⟩⟩

variable {tag : Tag}

lemma ensures_giveNames {wanted : Text} (hn : n.Fits R)
    (hs : ∀ p ∈ select, p.Writable R) (hlengths : ∀ ds, .items tag ds ∈ R → ds.length ≤ select.length) :
    Ensures (fun r => Named R [.items tag (select.map domain)] n r.2) (giveNames tag wanted select n) := by
  let m : Names := { n with
    counts := (n.counts.choose wanted).2
    frames := (tag, (n.counts.choose wanted).1) :: n.frames }
  have hm : m.Fits R := ⟨hn.selects, hn.embedded⟩
  show Ensures _ ((do
    let items ← m.ofSelect select []
    set { m with selects := (tag, items) :: m.selects } : Naming Unit) n)
  refine (hm.ofSelect hs).lift_bind fun items hitems => ?_
  refine .run_pure ⟨⟨forall_mem_cons.2 ⟨fun ds hds => ?_, hn.selects⟩, hn.embedded⟩,
    ⟨subset_cons_self _ _, subset_cons_self _ _, List.Subset.refl _⟩,
    forall_mem_singleton.2 ⟨mem_cons_self, mem_cons_self⟩⟩
  exact hitems ▸ hlengths ds hds

lemma ensures_nameTable {t : Table} (hn : n.Fits R) :
    Ensures (fun r => Named R [.columns tag] n r.2) (nameTable tag t n) :=
  .run_pure ⟨⟨hn.selects, hn.embedded⟩, ⟨subset_cons_self _ _, List.Subset.refl _, List.Subset.refl _⟩,
    forall_mem_singleton.2 mem_cons_self⟩

lemma ensures_nameAnchors (hn : n.Fits R)
    (h : ∀ a ∈ as, ∀ {n : Names}, n.Fits R →
      Ensures (fun r => Named R (a.frame.offers false) n r.2) (nameFrames a.frame false n)) :
    Ensures (fun r => Named R (anchorOffers as) n r.2) (nameAnchors as n) := by
  induction as generalizing n with
  | nil => exact ⟨hn, .refl n, nofun⟩
  | cons a as ih =>
    rw [forall_mem_cons] at h
    obtain ⟨f, condition, left, right⟩ := a
    refine (h.1 hn).run_bind fun _ m hm => ?_
    exact (ih hm.fits h.2).imp fun r hr => hm.trans hr

lemma ensures_nameEmbedded (hn : n.Fits R) (hf : ∀ f ∈ fs, f.Writable R)
    (hR : ∀ f ∈ fs, f.offers true ⊆ R)
    (h : ∀ f ∈ fs, ∀ {n : Names}, n.Fits R → n.Has (.answer f.tag) →
      Ensures (fun r => Named R (f.offers true) n r.2) (nameFrames f true n)) :
    Ensures (fun r => Named R (allOffers fs) n r.2) (nameEmbedded fs n) := by
  induction fs generalizing n with
  | nil => exact ⟨hn, .refl n, nofun⟩
  | cons f fs ih =>
    rw [forall_mem_cons] at h hf hR
    have hfits : Names.Fits R { n with embedded := (f.tag, f) :: n.embedded } :=
      ⟨hn.selects, forall_mem_cons.2 ⟨⟨hf.1, hR.1⟩, hn.embedded⟩⟩
    have hkeeps : n.Extends { n with embedded := (f.tag, f) :: n.embedded } :=
      ⟨List.Subset.refl _, List.Subset.refl _, subset_cons_self _ _⟩
    show Ensures _ ((do
      Frame.nameFrames f true
      nameEmbedded fs : Naming Unit) { n with embedded := (f.tag, f) :: n.embedded })
    refine (h.1 hfits mem_cons_self).run_bind fun _ m hm => ?_
    refine (ih hm.fits hf.2 hR.2 h.2).imp fun r hr => ?_
    have hall := hm.trans hr
    exact ⟨hall.fits, hkeeps.trans hall.keeps, hall.has⟩

lemma Writable.nameFrames (hf : f.Writable R) (hR : f.offers e ⊆ R) (hn : n.Fits R)
    (he : e → n.Has (.answer f.tag)) :
    Ensures (fun r => Named R (f.offers e) n r.2) (f.nameFrames e n) := by
  induction hf generalizing e n with
  | scalar h =>
    rw [Frame.nameFrames]
    split
    · exact ⟨hn, .refl n, forall_mem_nil _⟩
    · refine (ensures_giveNames hn (forall_mem_nil _) fun ds hds => absurd hds (h ds)).imp
        fun r hr => ⟨hr.fits, hr.keeps, forall_mem_nil _⟩
  | table => exact ensures_nameTable hn
  | @query c as fs hc hj ha hp hfs iha ihe =>
    have hanchor (a : Anchor Frame) (ha : a ∈ as) : a.frame.offers false ⊆ R :=
      fun x hx => hR (mem_offers_query.2 (.inr (.inl ⟨a, ha, hx⟩)))
    have hembedded (f : Frame) (hf : f ∈ fs) : f.offers true ⊆ R :=
      fun x hx => hR (mem_offers_query.2 (.inr (.inr ⟨f, hf, hx⟩)))
    refine (ensures_nameAnchors hn fun a ha n hn =>
      iha a ha (hanchor a ha) hn fun h => absurd h Bool.false_ne_true).run_bind fun _ m hm => ?_
    refine (ensures_nameEmbedded hm.fits hfs hembedded fun f hf n hn hself =>
      ihe f hf (hembedded f hf) hn fun _ => hself).run_bind fun _ k hk => ?_
    have hkids := hm.trans hk
    rw [offers]
    split
    next hplain =>
      refine ⟨hkids.fits, hkids.keeps, forall_mem_append.2 ⟨fun x hx => ?_, hkids.has⟩⟩
      cases e with
      | true => exact mem_singleton.1 hx ▸ (he rfl).mono hkids.keeps
      | false =>
        rw [Bool.or_false, decide_eq_true_eq] at hplain
        rw [Clauses.offer, if_pos hplain] at hx
        exact absurd hx not_mem_nil
    next hplain =>
      rw [Bool.or_eq_true, decide_eq_true_eq, not_or, Bool.not_eq_true] at hplain
      obtain ⟨hrole, rfl⟩ := hplain
      rw [Clauses.offer, if_neg hrole]
      have hselect := (Clauses.forall_mem_phrases.1 hc.phrases).1
      refine (ensures_giveNames hkids.fits hselect hc.lengths).imp fun r hr => ?_
      have hall := hkids.trans hr
      exact ⟨hall.fits, hall.keeps, fun x hx => hall.has x (mem_append.2 (mem_append.1 hx).symm)⟩

end Frame

variable [Spelling]

/-- A writer ends in a text, or in one of the errors that planning may end in. -/
abbrev Statement.Writing.Works {α : Type} (w : Writing α) : Prop := w.Keeps fun _ _ => True

instance : IsPreorder Draft fun _ _ => True where
  refl _ := trivial
  trans _ _ _ _ _ := trivial

namespace Frame

variable {R : List Offer} {s : Style} {depth : Nat} {f : Frame} {e : Bool}

/-- A frame that may be joined, with all that it offers. -/
structure Joinable (R : List Offer) (f : Frame) : Prop where
  writable : f.Writable R
  offers : f.offers false ⊆ R
  source : f.isSegment = false

lemma Writable.anchors {c : Clauses}     (hf : (Frame.query c as fs).Writable R) (hR : (Frame.query c as fs).offers e ⊆ R) :
    ∀ a ∈ as, a.frame.Joinable R ∧ ∀ p ∈ a.condition, p.Writable R := by
  cases hf with
  | query _ hj ha hp _ =>
    exact fun a hmem => ⟨⟨ha a hmem, fun x hx => hR (mem_offers_query.2 (.inr (.inl ⟨a, hmem, hx⟩))),
      hj a hmem⟩, hp a hmem⟩

/-- A style that knows the names of all that is offered, and how to write the queries that offer values. -/
theorem suits_of_fits (hfits : s.names.Fits R) (hhas : ∀ x ∈ R, s.names.Has x)
    (hembed : ∀ t, .answer t ∈ R → ∀ depth, (s.embed t depth).Works) :
    s.Suits (fun _ _ => True) (Phrase.Writable R) (Joinable R) where
  placeholder _ _ := trivial
  unit _ := trivial
  literal h := by cases h with | literal h => exact Spelling.spells _ h
  cast h := by cases h with | cast hp => exact hp
  formula h := by
    cases h with
    | formula hf has => exact ⟨by simpa using Spelling.operands hf, has⟩
  column h := by cases h with | column h => exact Names.ensures_frame (hhas _ h)
  reference h := by
    cases h with
    | reference h hi => exact ⟨Names.ensures_frame (hhas _ h).1, hfits.item (hhas _ h).2 h hi⟩
  embedding h := by cases h with | embedding h => exact hembed _ h
  table h := Names.ensures_frame (hhas _ (h.offers mem_cons_self))
  query {c as fs} h := by
    have hitems : .items c.tag (c.select.map domain) ∈ R := by
      refine h.offers (mem_offers_query.2 (.inl ?_))
      rw [Clauses.offer, if_neg Bool.false_ne_true, if_neg (of_decide_eq_false h.source)]
      exact mem_cons_self
    exact ⟨Names.ensures_frame (hhas _ hitems).1, fun i hi =>
      hfits.item (hhas _ hitems).2 hitems (by rwa [length_map])⟩
  phrases h := by cases h.writable with | query hc => exact hc.phrases
  anchors h := h.writable.anchors h.offers

lemma Writable.writeSelect (hs : s.Suits (fun _ _ => True) (Phrase.Writable R) (Joinable R))
    (hf : f.Writable R) (hR : f.offers e ⊆ R) : (writeSelect s depth f).Works := by
  refine hs.writeSelect ?_
  rintro c as fs rfl
  refine ⟨?_, hf.anchors hR⟩
  cases hf with
  | query hc => exact hc.phrases

variable {dialect : Dialect}

lemma works_embedTo {names : Names} (hfits : names.Fits R) (hhas : ∀ x ∈ R, names.Has x)
    (n : Nat) {t : Tag} (ht : .answer t ∈ R) : (embedTo dialect names n t depth).Works := by
  induction n generalizing t depth with
  | zero =>
    obtain ⟨f, hf, _⟩ := Names.exists_lookup (hhas _ ht)
    rw [embedTo, hf]
    exact fun d => Lenient.endless
  | succ n ih =>
    obtain ⟨f, hf, hmem⟩ := Names.exists_lookup (hhas _ ht)
    rw [embedTo, hf]
    obtain ⟨hin, hoffers⟩ := hfits.embedded _ hmem
    have hsuits := suits_of_fits (s := ⟨dialect, names, embedTo dialect names n⟩) hfits hhas fun t ht depth => ih ht
    exact fun d => (hin.writeSelect hsuits hoffers d).bind fun _ _ => trivial

lemma Writable.statement (hf : f.Writable R) (hoffers : f.offers false ⊆ R)
    (hR : ∀ x ∈ R, x ∈ f.offers false ∨ ∃ y ∈ f.subqueries, x = .answer y.1) (hsegment : f.isSegment) :
    Passes (f.statement dialect) := by
  have hempty : Names.empty.Fits R :=
    ⟨forall_mem_nil _, forall_mem_nil _⟩
  have hnames : Ensures (fun n => n.Fits R ∧ ∀ x ∈ f.offers false, n.Has x) f.names :=
    (hf.nameFrames hoffers hempty fun h => absurd h Bool.false_ne_true).bind fun r hr => .pure ⟨hr.fits, hr.has⟩
  unfold Frame.statement
  rw [hsegment]
  refine Ensures.bind (P := fun _ => True) trivial fun _ _ => hnames.and_eq.bind fun n hboth => ?_
  obtain ⟨⟨hfits, hhas⟩, hn⟩ := hboth
  have hall : ∀ x ∈ R, n.Has x := fun x hx => by
    obtain hx | ⟨y, hy, rfl⟩ := hR x hx
    · exact hhas x hx
    · have hembedded : n.embedded = f.subqueries := (names_instantiate (σ := fun _ => .null) hn).1
      rw [Names.Has, hembedded]
      exact mem_map_of_mem hy
  have hsuits := suits_of_fits (s := ⟨dialect, n, embedTo dialect n n.embedded.length⟩) hfits hall
    fun t ht depth => works_embedTo hfits hall _ ht
  exact (hf.writeSelect hsuits hoffers _).bind fun _ _ => trivial

end Frame

end NavQuery
