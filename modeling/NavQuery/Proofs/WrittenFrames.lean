import NavQuery.Proofs.Writers
import NavQuery.Proofs.Writing

/-!
Phrases, clauses, joined frames and embedded queries write markers for their slots. A line of a statement
never begins with a digit, so nothing runs into a numbered marker before it.
-/

namespace NavQuery

open List Frame Text

namespace Statement

variable {dialect : Dialect} {lit : Slot → Text} {σ : Slot → Value}

structure Twins (dialect : Dialect) (lit : Slot → Text) (s s' : Style) (E : Pass → Tag → List Slot) :
    Prop where
  left : s.dialect = dialect
  right : s'.dialect = dialect
  frame_eq : ∀ t, s'.names.frame t = s.names.frame t
  item_eq : ∀ t i, s'.names.item t i = s.names.item t i
  embed : ∀ t depth, Writes dialect lit (s.embed t depth) (s'.embed t depth) (E · t)

variable {α : Type}

lemma agrees_same (x : Result α) :
    Agrees dialect (liftM x : Writing α) (liftM x : Writing α) [] fun _ a b => a = b :=
  agrees_lift fun _ _ _ => rfl

section Phrases

variable {s s' : Style} {E : Pass → Tag → List Slot} (h : Twins dialect lit s s' E)
  (hlit : ∀ x : Slot, writeLiteral dialect x.domain (σ x) = .ok (lit x))

include h hlit

lemma writes_phrase {p : Phrase} (hp : p.isSpelled) (depth : Nat) (nested : Bool) :
    Writes dialect lit (p.write s depth nested) ((p.instantiate σ).write s' depth nested)
      fun pass => p.slots pass (E pass) := by
  induction p generalizing nested with
  | literal d n v =>
    simp only [Phrase.instantiate, Phrase.write, h.left, h.right]
    exact agrees_lift fun t ht _ => fills_quiet (quiet_writeLiteral ht)
  | parameter d n =>
    simp only [Phrase.instantiate, Phrase.ofValue, Phrase.write, h.left, h.right]
    exact writes_placeholder (s := ⟨d, n⟩) (hlit ⟨d, n⟩)
  | cast d n p ih =>
    simp only [Phrase.instantiate, Phrase.write, Phrase.slots, h.left, h.right]
    refine Agrees.bind_nil (ih hp false) fun t t' => Agrees.map (R := fun _ u u' => u = u' ∧ Quiet u)
      (agrees_lift fun u hu _ => ⟨rfl, quiet_writeType hu⟩) fun mark u u' hu ht => ?_
    obtain ⟨rfl, hu⟩ := hu
    have hend : Quiet (ofString " AS " ++ u ++ ofString ")") :=
      ((quiet_of_all (by decide)).append hu).append (quiet_of_all (by decide))
    have hfills := (ht.quiet_append (q := "CAST(") (quiet_of_all (by decide))).append_quiet hend rfl
    simpa only [append_assoc] using hfills
  | formula d n f as ih =>
    rw [Phrase.isSpelled, Phrase.areSpelled_eq, Bool.and_eq_true, all_eq_true] at hp
    have hsymbol : f.kind = .compare → Calm f.symbol := fun hkind =>
      calm_of_all (by simpa [hkind] using hp.1)
    have hformula := writes_formula (w := fun p nested => p.write s depth nested)
      (S := fun p pass => p.slots pass (E pass)) (fun a ha nested => ih a ha (hp.2 a ha) nested) hsymbol
      nested (as.head?.any Phrase.isEmbedding)
    have hhead : (as.map (Phrase.instantiate σ)).head?.any Phrase.isEmbedding =
        as.head?.any Phrase.isEmbedding := by
      cases as with
      | nil => rfl
      | cons a as => cases a <;> rfl
    simp only [Phrase.instantiate, Phrase.write, Phrase.instantiateAll_eq, operands_eq, h.left, h.right,
      hhead, map_map, Phrase.slots, Phrase.slotsEach_eq]
    exact hformula
  | column n t c =>
    simp only [Phrase.instantiate, Phrase.write, h.frame_eq]
    refine Agrees.map (agrees_same _) fun mark u u' hu => ?_
    obtain rfl := hu
    exact fills_quiet (((quiet_quoteName u).append (quiet_of_all (by decide))).append (quiet_quoteName _))
  | reference d n t i =>
    simp only [Phrase.instantiate, Phrase.write, h.frame_eq, h.item_eq]
    refine Agrees.bind_nil (agrees_same _) fun u u' => Agrees.map (agrees_same _) fun mark v v' hv hu => ?_
    obtain rfl := hu
    obtain rfl := hv
    exact fills_quiet (((quiet_quoteName u).append (quiet_of_all (by decide))).append (quiet_quoteName v))
  | embedding d t => exact h.embed t depth

end Phrases

section Lines

def FillsLine (mark : Slot → Option Nat) (lit : Slot → Text) (S : List Slot) (t t' : Text) : Prop :=
  Fills mark lit S t t' ∧ isFree t = true

def WritesLine (dialect : Dialect) (lit : Slot → Text) (w w' : Writing Text) (S : Pass → List Slot) : Prop :=
  Agrees dialect w w' (S .writing) fun mark => FillsLine mark lit (S .reading)

variable {t u : Text}

lemma FillsLine.append {mark : Slot → Option Nat} {S U : List Slot} {t' u' : Text}
    (ht : FillsLine mark lit S t t') (hu : FillsLine mark lit U u u') :
    FillsLine mark lit (S ++ U) (t ++ u) (t' ++ u') :=
  ⟨ht.1.append hu.1 hu.2, isFree_append ht.2 hu.2⟩

lemma quiet_newline (depth : Nat) : Quiet (newline depth) := by
  have hblanks : Calm (blanks (4 * depth)) := fun b hb => by
    rw [eq_of_mem_replicate hb]
    decide
  exact (quiet_of_all (by decide)).append (quiet_of_forall hblanks)

lemma writesLine_nil : WritesLine dialect lit (pure []) (pure []) fun _ => [] :=
  agrees_pure fun _ => ⟨fills_quiet quiet_nil, rfl⟩

variable {w w' : Writing Text} {S : Pass → List Slot}

lemma Writes.line (h : Writes dialect lit w w' S) (depth : Nat) {word : Text} (hword : Quiet word) :
    WritesLine dialect lit (do return newline depth ++ word ++ (← w))
      (do return newline depth ++ word ++ (← w')) S :=
  Agrees.map h fun _ t _ ht =>
    ⟨ht.quiet_append ((quiet_newline depth).append hword), by rw [append_assoc]; rfl⟩

def Lines (t : Text) : Prop := Quiet t ∧ isFree t = true

lemma lines_newline (depth : Nat) (ht : Calm t) : Lines (newline depth ++ t) :=
  ⟨(quiet_newline depth).append (quiet_of_forall ht), rfl⟩

lemma Lines.append (ht : Lines t) (hu : Lines u) : Lines (t ++ u) :=
  ⟨ht.1.append hu.1, isFree_append ht.2 hu.2⟩

lemma lines_writeRange (dialect : Dialect) (depth : Nat) (limit offset : Option Int) :
    Lines (writeRange dialect depth limit offset) := by
  have hnone : Lines [] := ⟨quiet_nil, rfl⟩
  have hcount : ∀ (o : Option Int) (f : Int → Text), (∀ n, Calm (f n)) →
      Lines (o.elim [] fun n => newline depth ++ f n) := by
    intro o f hf
    cases o with
    | none => exact hnone
    | some n => exact lines_newline depth (hf n)
  have hword : ∀ t : Text, t.all isQuiet → ∀ n, Calm (t ++ ofInt n) := fun t ht n =>
    calm_append.2 ⟨calm_of_all ht, calm_ofInt n⟩
  have hskip := hcount offset _ (hword "OFFSET " (by decide))
  unfold writeRange
  split
  · exact (hcount offset _ fun n => calm_append.2 ⟨hword "OFFSET " (by decide) n, calm_of_all (by decide)⟩).append
      (hcount limit _ fun n => calm_append.2 ⟨hword "FETCH FIRST " (by decide) n, calm_of_all (by decide)⟩)
  · exact (lines_newline depth (hword "LIMIT " (by decide) _)).append hskip
  · split
    · exact (lines_newline depth (calm_of_all (by decide))).append hskip
    · exact hnone
  · exact hskip

end Lines

lemma writesEach_mapM {f g : α → Writing Text} {S : α → Pass → List Slot} {as : List α}
    (h : ∀ a ∈ as, Writes dialect lit (f a) (g a) (S a)) :
    WritesEach dialect lit (as.mapM f) (as.mapM g) fun pass => as.map (S · pass) := by
  induction as with
  | nil => exact agrees_pure fun _ => .nil
  | cons a as ih =>
    rw [forall_mem_cons] at h
    rw [mapM_cons, mapM_cons]
    exact Agrees.bind h.1 fun t t' => (ih h.2).map fun mark ts ts' hts ht => .cons ht hts

section Clauses

variable {s s' : Style} {E : Pass → Tag → List Slot} (h : Twins dialect lit s s' E)
  (hlit : ∀ x : Slot, writeLiteral dialect x.domain (σ x) = .ok (lit x)) {word : Text}

include h hlit

variable {ps : List Phrase} {w' w : Writing Text} {a : Anchor Frame} {f : Frame}

lemma writesLine_list (hps : ∀ p ∈ ps, p.isSpelled) (hword : Quiet word) (depth : Nat) :
    WritesLine dialect lit (writeList s depth word ps)
      (writeList s' depth word (ps.map (Phrase.instantiate σ)))
      fun pass => ps.flatMap (Phrase.slots pass (E pass)) := by
  cases ps with
  | nil => exact writesLine_nil
  | cons p ps =>
    have hwrites := writesEach_operands (w := fun p nested => p.write s depth nested)
      (fun p hp nested => writes_phrase h hlit (hps p hp) depth nested) false
    simp only [writeList, operands_eq, map_map]
    refine Agrees.map hwrites fun mark ts ts' hts => ⟨?_, rfl⟩
    exact (fills_join hts (quiet_of_all (by decide)) (by decide)).quiet_append
      ((quiet_newline depth).append hword)

lemma writesLine_clause {o : Option Phrase} (ho : ∀ p ∈ o, p.isSpelled) (hword : Quiet word)
    (depth : Nat) :
    WritesLine dialect lit (writeClause s depth word o)
      (writeClause s' depth word (o.map (Phrase.instantiate σ)))
      fun pass => o.toList.flatMap (Phrase.slots pass (E pass)) := by
  cases o with
  | none => exact writesLine_nil
  | some p =>
    simp only [Option.toList_some, flatMap_singleton]
    exact (writes_phrase h hlit (ho p rfl) depth false).line depth hword

lemma writesLine_order {items : List SortItem} (hitems : ∀ i ∈ items, i.1.isSpelled) (depth : Nat) :
    WritesLine dialect lit (writeOrder s depth items)
      (writeOrder s' depth (items.map fun i => (i.1.instantiate σ, i.2)))
      fun pass => items.flatMap fun i => i.1.slots pass (E pass) := by
  cases items with
  | nil => exact writesLine_nil
  | cons i items =>
    have hwrites := writesEach_mapM (f := writeSortItem s depth)
      (S := fun i pass => i.1.slots pass (E pass)) fun i hi => by
        have hdirection : ∀ b : Bool, Quiet (if b then ofString " DESC" else " ASC") ∧
            isFree (if b then ofString " DESC" else " ASC") := by
          rintro (_ | _) <;> exact ⟨quiet_of_all (by decide), by decide⟩
        exact (writes_phrase h hlit (hitems i hi) depth false).map fun _ _ _ ht =>
          ht.append_quiet (hdirection _).1 (hdirection _).2
    have hmap : ((i :: items).map fun i => (i.1.instantiate σ, i.2)).mapM (writeSortItem s' depth) =
        (i :: items).mapM fun i => writeSortItem s' depth (i.1.instantiate σ, i.2) := mapM_map
    rw [writeOrder, writeOrder, hmap]
    refine Agrees.map hwrites fun mark ts ts' hts => ⟨?_, rfl⟩
    exact (fills_join hts (quiet_of_all (by decide)) (by decide)).quiet_append
      ((quiet_newline depth).append (quiet_of_all (by decide)))

lemma writesEach_items (hps : ∀ p ∈ ps, p.isSpelled) (depth : Nat) (tag : Tag)
    (isNamed : Bool) (index : Nat) :
    WritesEach dialect lit (writeItems s depth tag isNamed ps index)
      (writeItems s' depth tag isNamed (ps.map (Phrase.instantiate σ)) index)
      fun pass => ps.map (Phrase.slots pass (E pass)) := by
  induction ps generalizing index with
  | nil => exact agrees_pure fun _ => .nil
  | cons p ps ih =>
    rw [forall_mem_cons] at hps
    have hrest := ih hps.2 (index + 1)
    refine Agrees.bind (writes_phrase h hlit hps.1 depth false) fun t t' => ?_
    cases isNamed with
    | false =>
      exact hrest.map fun mark ts ts' hts ht => .cons ht hts
    | true =>
      simp only [h.item_eq]
      refine Agrees.nil_bind (agrees_same _) fun n n' => hrest.map fun mark ts ts' hts hn ht => ?_
      obtain rfl := hn
      have hend : Quiet (ofString " AS " ++ quoteName n) :=
        (quiet_of_all (by decide)).append (quiet_quoteName n)
      rw [append_assoc, append_assoc]
      exact .cons (ht.append_quiet hend rfl) hts

variable {c : Clauses} {depth : Nat}

lemma writesLine_clauses (hc : ∀ p ∈ c.phrases, p.isSpelled) (depth : Nat) :
    WritesLine dialect lit (writeClauses s depth c)
      (writeClauses s' depth (c.mapPhrases (Phrase.instantiate σ)))
      fun pass => c.slots (Phrase.slots pass (E pass)) := by
  have hwhere : Quiet (ofString "WHERE ") := quiet_of_all (by decide)
  have hby : Quiet (ofString "GROUP BY ") := quiet_of_all (by decide)
  have hwith : Quiet (ofString "HAVING ") := quiet_of_all (by decide)
  have hfilter := writesLine_clause h hlit (o := c.filter)
    (fun p hp => hc p (by simp_all [Clauses.phrases])) hwhere depth
  have hgroup := writesLine_list h hlit
    (fun p (hp : p ∈ c.group) => hc p (by simp_all [Clauses.phrases])) hby depth
  have hhaving := writesLine_clause h hlit (o := c.having)
    (fun p hp => hc p (by simp_all [Clauses.phrases])) hwith depth
  have horder := writesLine_order h hlit (fun i (hi : i ∈ c.order) =>
    hc i.1 (by simp only [Clauses.phrases, mem_append]; exact .inr (mem_map_of_mem hi))) depth
  have hrange := lines_writeRange dialect depth c.limit c.offset
  unfold WritesLine
  beta_reduce
  rw [Clauses.slots, append_assoc, append_assoc]
  refine hfilter.bind fun f f' => hgroup.bind fun g g' => hhaving.bind fun k k' =>
    horder.map fun mark o o' ho hk hg hf => ?_
  have hlines := ((hf.append hg).append hk).append ho
  rw [h.left, h.right]
  exact ⟨hlines.1.append_quiet hrange.1 hrange.2, isFree_append hlines.2 hrange.2⟩

lemma writes_query (hc : ∀ p ∈ c.phrases, p.isSpelled) (depth : Nat) (isNamed : Bool) {A : Pass → List Slot} (hw : WritesLine dialect lit w w' A) :
    Writes dialect lit (writeQuery s depth c isNamed w)
      (writeQuery s' depth (c.mapPhrases (Phrase.instantiate σ)) isNamed w')
      fun pass => c.select.flatMap (Phrase.slots pass (E pass)) ++ A pass ++
        c.slots (Phrase.slots pass (E pass)) := by
  have hitems := writesEach_items h hlit
    (fun p (hp : p ∈ c.select) => hc p (by simp_all [Clauses.phrases])) depth c.tag isNamed 0
  unfold Writes
  beta_reduce
  rw [append_assoc]
  refine hitems.bind fun ts ts' => hw.bind fun j j' => (writesLine_clauses h hlit hc depth).map
    fun mark l l' hl hj hts => ?_
  have hselect := (fills_join hts (q := ", ") (quiet_of_all (by decide)) (by decide)).quiet_append
    (q := "SELECT ") (quiet_of_all (by decide))
  exact (hselect.append hj.1 hj.2).append hl.1 hl.2

lemma agrees_join (ha : ∀ p ∈ a.condition, p.isSpelled) (depth : Nat) (T : List Slot) (t t' : Text) :
    Agrees dialect (writeJoin s depth a t) (writeJoin s' depth (mapAnchor (Phrase.instantiate σ) a) t')
      (a.condition.toList.flatMap (Phrase.slots .writing (E .writing)))
      fun mark u u' => Fills mark lit T t t' →
        FillsLine mark lit (T ++ a.condition.toList.flatMap (Phrase.slots .reading (E .reading))) u u' := by
  obtain ⟨f, condition, left, right⟩ := a
  have hwords : Quiet (joinWords ⟨f, condition, left, right⟩) := by
    unfold joinWords
    split <;> exact quiet_of_all (by decide)
  have hstart : ∀ {mark : Slot → Option Nat} {word : Text}, Quiet word → Fills mark lit T t t' →
      FillsLine mark lit T (newline depth ++ word ++ t) (newline depth ++ word ++ t') :=
    fun hword ht => ⟨ht.quiet_append ((quiet_newline depth).append hword), rfl⟩
  have hon : ∀ {mark : Slot → Option Nat} {S : List Slot} {u u' : Text}, Fills mark lit S u u' →
      FillsLine mark lit S (ofString " ON " ++ u) (ofString " ON " ++ u') := fun hu =>
    ⟨hu.quiet_append (quiet_of_all (by decide)), rfl⟩
  have hjoin : ∀ {mark : Slot → Option Nat} {S : List Slot} {u u' : Text}, Fills mark lit S u u' →
      Fills mark lit T t t' → FillsLine mark lit (T ++ S)
        (newline depth ++ joinWords ⟨f, condition, left, right⟩ ++ t ++ ofString " ON " ++ u)
        (newline depth ++ joinWords ⟨f, condition, left, right⟩ ++ t' ++ ofString " ON " ++ u') := by
    intro mark S u u' hu ht
    simpa only [append_assoc] using (hstart hwords ht).append (hon hu)
  simp only [mapAnchor, writeJoin, Anchor.isCross]
  cases condition with
  | none =>
    simp only [Option.map_none, Option.isNone_none, Option.toList_none, flatMap_nil, pure_bind, h.left,
      h.right]
    split
    · exact agrees_pure fun _ ht => (append_nil T).symm ▸ hstart (quiet_of_all (by decide)) ht
    · exact agrees_pure fun _ ht => hjoin (fills_quiet (quiet_writeBool dialect true)) ht
  | some p =>
    simp only [Option.map_some, Option.isNone_some, Bool.false_and, Bool.false_eq_true, if_false,
      Option.toList_some, flatMap_singleton]
    exact Agrees.map (writes_phrase h hlit (ha p rfl) depth false) fun _ _ _ hu ht => hjoin hu ht

omit hlit in
lemma writes_unit : Writes dialect lit (writeUnit s) (writeUnit s') fun _ => [] := by
  intro d a d' hrun
  have hquiet : ∀ name, Quiet (ofString "(SELECT " ++ writeBool dialect true ++ ofString ") AS " ++
      quoteName name) := fun name =>
    (((quiet_of_all (by decide)).append (quiet_writeBool dialect true)).append (quiet_of_all (by decide))).append
      (quiet_quoteName name)
  rw [writeUnit, h.left] at hrun
  rw [writeUnit, h.right]
  cases hrun
  exact ⟨rfl, _, rfl, fun _ _ => fills_quiet (hquiet _)⟩

omit h hlit in
lemma WritesLine.append {v v' : Writing Text} {S U : Pass → List Slot}
    (h : WritesLine dialect lit w w' S) (h' : WritesLine dialect lit v v' U) :
    WritesLine dialect lit (do return (← w) ++ (← v)) (do return (← w') ++ (← v')) fun pass =>
      S pass ++ U pass :=
  Agrees.bind h fun _ _ => Agrees.map h' fun _ _ _ hu ht => ht.append hu

lemma writesLine_anchor (ha : ∀ p ∈ a.condition, p.isSpelled)
    (hsource : Writes dialect lit (writeSource s a.frame depth)
      (writeSource s' (a.frame.instantiate σ) depth)
      fun pass => a.frame.slotsBy (Phrase.slots pass (E pass))) (isFirst : Bool) :
    WritesLine dialect lit (writeAnchor s a depth isFirst)
      (writeAnchor s' (mapAnchor (Phrase.instantiate σ) a) depth isFirst)
      fun pass => slotsOfAnchor (Phrase.slots pass (E pass)) a isFirst := by
  obtain ⟨f, condition, left, right⟩ := a
  cases isFirst with
  | false => exact Agrees.bind hsource fun t t' => agrees_join h hlit ha depth _ t t'
  | true =>
    simp only [slotsOfAnchor, if_true, append_nil]
    exact hsource.line depth (quiet_of_all (by decide))

lemma writesLine_anchors {as : List (Anchor Frame)}
    (hcondition : ∀ a ∈ as, ∀ p ∈ a.condition, p.isSpelled)
    (hsource : ∀ a ∈ as, Writes dialect lit (writeSource s a.frame depth)
      (writeSource s' (a.frame.instantiate σ) depth)
      fun pass => a.frame.slotsBy (Phrase.slots pass (E pass))) (isFirst : Bool) :
    WritesLine dialect lit (writeAnchors s as depth isFirst)
      (writeAnchors s' (mapAnchors (Phrase.instantiate σ) as) depth isFirst)
      fun pass => anchorSlots (Phrase.slots pass (E pass)) as isFirst := by
  induction as generalizing isFirst with
  | nil => exact writesLine_nil
  | cons a as ih =>
    rw [forall_mem_cons] at hcondition hsource
    exact (writesLine_anchor h hlit hcondition.1 hsource.1 isFirst).append
      (ih hcondition.2 hsource.2 false)

lemma writes_queryFrame {anchors : List (Anchor Frame)} {embedded : List Frame}
    (hf : ∀ p ∈ (Frame.query c anchors embedded).phrases, p.isSpelled)
    (hsource : ∀ a ∈ anchors, (∀ p ∈ a.frame.phrases, p.isSpelled) →
      Writes dialect lit (writeSource s a.frame depth) (writeSource s' (a.frame.instantiate σ) depth)
        fun pass => a.frame.slotsBy (Phrase.slots pass (E pass))) (isNamed : Bool) :
    Writes dialect lit (writeQuery s depth c isNamed (writeAnchors s anchors depth true))
      (writeQuery s' depth (c.mapPhrases (Phrase.instantiate σ)) isNamed
        (writeAnchors s' (mapAnchors (Phrase.instantiate σ) anchors) depth true))
      fun pass => (Frame.query c anchors embedded).slotsBy (Phrase.slots pass (E pass)) := by
  simp only [mem_phrases_query] at hf
  have hanchors := writesLine_anchors h hlit (fun a ha p hp => hf p (.inr (.inl ⟨a, ha, .inr hp⟩)))
    (fun a ha => hsource a ha fun p hp => hf p (.inr (.inl ⟨a, ha, .inl hp⟩))) true
  exact writes_query h hlit (fun p hp => hf p (.inl hp)) depth isNamed hanchors

lemma writes_source (hf : ∀ p ∈ f.phrases, p.isSpelled) (depth : Nat) :
    Writes dialect lit (writeSource s f depth) (writeSource s' (f.instantiate σ) depth)
      fun pass => f.slotsBy (Phrase.slots pass (E pass)) := by
  induction f generalizing depth with
  | scalar t => exact writes_unit h
  | table n t =>
    simp only [instantiate, mapPhrases, writeSource, h.frame_eq]
    refine Agrees.map (agrees_same _) fun mark u u' hu => ?_
    obtain rfl := hu
    exact fills_quiet (((((quiet_quoteName _).append (quiet_of_all (by decide))).append
      (quiet_quoteName _)).append (quiet_of_all (by decide))).append (quiet_quoteName u))
  | query c anchors embedded iha _ =>
    have hquery := writes_queryFrame h hlit hf (fun a ha hp => iha a ha hp (depth + 1)) true
    refine Agrees.bind_nil hquery fun t t' => ?_
    rw [h.frame_eq]
    refine Agrees.map (agrees_same _) fun mark u u' hu ht => ?_
    obtain rfl := hu
    have hend : Quiet (ofString ") AS " ++ quoteName u) :=
      (quiet_of_all (by decide)).append (quiet_quoteName u)
    have hfills := (ht.quiet_append (q := "(") (quiet_of_all (by decide))).append_quiet hend rfl
    simpa only [append_assoc] using hfills

lemma writes_select (hf : ∀ p ∈ f.phrases, p.isSpelled) (depth : Nat) :
    Writes dialect lit (writeSelect s depth f) (writeSelect s' depth (f.instantiate σ))
      fun pass => f.slotsBy (Phrase.slots pass (E pass)) := by
  cases f with
  | scalar | table => exact writes_quiet (quiet_of_all (by decide))
  | query c anchors embedded =>
    exact writes_queryFrame h hlit hf (fun a _ hp => writes_source h hlit hp depth) false

end Clauses

lemma lookup_mapEmbedded (g : Frame → Frame) (n : Names) (t : Tag) :
    List.lookup t (n.mapEmbedded g).embedded = (List.lookup t n.embedded).map g := by
  rw [Names.mapEmbedded]
  induction n.embedded with
  | nil => rfl
  | cons x l ih =>
    obtain ⟨u, f⟩ := x
    cases hu : t == u <;> simp [lookup_cons, hu, ih]

lemma writes_embedTo (hlit : ∀ x : Slot, writeLiteral dialect x.domain (σ x) = .ok (lit x)) {names : Names}
    (hnames : ∀ x ∈ names.embedded, ∀ p ∈ x.2.phrases, p.isSpelled) (n : Nat) (tag : Tag)
    (depth : Nat) :
    Writes dialect lit (embedTo dialect names n tag depth)
      (embedTo dialect (names.mapEmbedded (instantiate σ)) n tag depth)
      fun pass => embeddedSlots pass names.embedded n tag := by
  induction n generalizing tag depth with
  | zero =>
    intro d a d' hrun
    obtain ⟨f, e, -, hrun⟩ := exists_of_run_bind_eq_ok hrun
    cases hrun
  | succ n ih =>
    rw [embedTo, embedTo, lookup_mapEmbedded]
    cases hlookup : List.lookup tag names.embedded with
    | none => exact nofun
    | some f =>
      have htwins : Twins dialect lit ⟨dialect, names, embedTo dialect names n⟩
          ⟨dialect, names.mapEmbedded (instantiate σ),
            embedTo dialect (names.mapEmbedded (instantiate σ)) n⟩
          fun pass => embeddedSlots pass names.embedded n :=
        ⟨rfl, rfl, fun _ => rfl, fun _ _ => rfl, ih⟩
      have hmem : ∃ u, (u, f) ∈ names.embedded := by
        obtain ⟨l, r, heq, -⟩ := lookup_eq_some_iff.1 hlookup
        exact ⟨tag, by simp [heq]⟩
      obtain ⟨u, hu⟩ := hmem
      have hselect := writes_select htwins hlit (hnames _ hu) (depth + 1)
      simp only [embeddedSlots, hlookup]
      exact hselect.enclose (quiet_of_all (by decide)) (quiet_of_all (by decide)) (by decide)

end Statement

end NavQuery
