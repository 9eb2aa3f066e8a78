import NavQuery.Proofs.Placeholders

/-!
Two aliases are alike only if one is the name of a frame or item and the other was made by a number:
tables `a`, `a` and `a_2` get the aliases `a`, `a_2` and `a_2`.
-/

namespace NavQuery

open List Statement

variable {names : List Text} {n : Names} {s : Style}

namespace NameCounts

/-- How often each of the names had been given, the latest first. -/
def numbered : List Text → NameCounts
  | [] => []
  | name :: names => (name, names.count name + 1) :: numbered names

/-- The alias of a name with its number. -/
def spell (use : Text × Nat) : Text :=
  if use.2 = 1 then use.1 else use.1 ++ "_" ++ Text.ofNat use.2

/-- No alias that ends in a number is another name. -/
def Apart (uses : List (Text × Nat)) : Prop := ∀ u ∈ uses, 2 ≤ u.2 → (spell u, 1) ∉ uses

lemma choose_numbered (names : List Text) (name : Text) :
    (numbered names).choose name = (spell (name, names.count name + 1), numbered (name :: names)) := by
  have hlookup : (lookup name (numbered names)).getD 0 = names.count name := by
    induction names with
    | nil => rfl
    | cons other names ih =>
      rw [numbered, lookup_cons, count_cons]
      by_cases h : other = name
      · simp [h]
      · simp [beq_false_of_ne h, beq_false_of_ne (Ne.symm h), ih]
  simp only [choose, hlookup]
  rfl

lemma le_count_of_mem_numbered {u : Text × Nat} (h : u ∈ numbered names) :
    1 ≤ u.2 ∧ u.2 ≤ names.count u.1 := by
  induction names with
  | nil => cases h
  | cons name names ih =>
    obtain rfl | h := mem_cons.1 h
    · simp
    · exact ⟨(ih h).1, (ih h).2.trans (by simp [count_cons])⟩

lemma nodup_numbered (names : List Text) : (numbered names).Nodup := by
  induction names with
  | nil => exact nodup_nil
  | cons name names ih =>
    refine nodup_cons.2 ⟨fun h => ?_, ih⟩
    have := (le_count_of_mem_numbered h).2
    simp at this

lemma eq_of_append_ofNat {x y : Text} {k l : Nat}
    (h : x ++ "_" ++ Text.ofNat k = y ++ "_" ++ Text.ofNat l) : x = y ∧ k = l := by
  have hsplit (z : Text) (n : Nat) :
      ((z ++ "_" ++ Text.ofNat n).reverse.takeWhile Byte.isDigit = (Text.ofNat n).reverse) ∧
        (z ++ "_" ++ Text.ofNat n).reverse.dropWhile Byte.isDigit = (z ++ Text.ofString "_").reverse := by
    rw [reverse_append]
    refine takeWhile_append_of_all (fun b hb => isDigit_of_mem_ofNat (mem_reverse.1 hb)) fun b hb => ?_
    rw [head?_reverse, getLast?_append_of_ne_nil z (by decide)] at hb
    exact Option.mem_some.1 hb ▸ by decide
  have hnumber := (hsplit x k).1
  have hname := (hsplit x k).2
  rw [h, (hsplit y l).1, reverse_inj] at hnumber
  rw [h, (hsplit y l).2, reverse_inj] at hname
  exact ⟨(append_cancel_right hname).symm, by rw [← foldl_ofNat k, ← hnumber, foldl_ofNat]⟩

lemma nodup_spell_iff {uses : List (Text × Nat)} (h : uses <+ numbered names) :
    (uses.map spell).Nodup ↔ Apart uses := by
  have hone : ∀ u ∈ uses, 1 ≤ u.2 := fun u hu => (le_count_of_mem_numbered (h.subset hu)).1
  constructor
  · intro hnodup u hu hnumber hmem
    have heq := inj_on_of_nodup_map hnodup hu hmem (by simp [spell])
    rw [heq] at hnumber
    exact absurd hnumber (by simp)
  · intro hapart
    refine Nodup.map_on (fun u hu v hv heq => ?_) ((nodup_numbered names).sublist h)
    have hclash {u v : Text × Nat} (hu : u ∈ uses) (hv : v ∈ uses) (heq : spell u = spell v)
        (hone' : u.2 = 1) (hnumber : v.2 ≠ 1) : u = v := by
      refine absurd ?_ (hapart v hv (by have := hone v hv; omega))
      rw [← heq, spell, if_pos hone', ← hone']
      exact hu
    by_cases hk : u.2 = 1 <;> by_cases hl : v.2 = 1
    · rw [spell, spell, if_pos hk, if_pos hl] at heq
      exact Prod.ext heq (hk.trans hl.symm)
    · exact hclash hu hv heq hk hl
    · exact (hclash hv hu heq.symm hl hk).symm
    · rw [spell, spell, if_neg hk, if_neg hl] at heq
      exact Prod.ext_iff.2 (eq_of_append_ofNat heq)

end NameCounts

def Frame.selected : Frame → List Phrase
  | .query c _ _ => c.select
  | _ => []

namespace Names

open NameCounts

lemma ofSelect_numbered {select : List Phrase} (given : List Text) {items : List Text}
    (h : n.ofSelect select (numbered given) = .ok items) :
    ∃ names, Forall₂ (fun p name => n.ofPhrase p = .ok name) select names ∧
      items.reverse ++ (numbered given).map spell = (numbered (names.reverse ++ given)).map spell := by
  induction select generalizing given items with
  | nil =>
    cases h
    exact ⟨[], .nil, rfl⟩
  | cons p ps ih =>
    obtain ⟨name, hname, h⟩ := exists_of_bind_eq_ok h
    rw [choose_numbered] at h
    obtain ⟨items, hitems, h⟩ := exists_of_bind_eq_ok h
    cases h
    obtain ⟨names, hnames, heq⟩ := ih _ hitems
    refine ⟨name :: names, .cons hname hnames, ?_⟩
    rw [reverse_cons, append_assoc, reverse_cons, append_assoc]
    exact heq

/-- The names that the joined frames have, the latest first. -/
structure Gives (joined : List Frame) (n : Names) : Prop where
  counts : n.counts = numbered (joined.map base)
  frames : n.frames = zipWith (fun f u => (f.tag, spell u)) joined n.counts
  selects : ∀ x ∈ n.selects, ∃ f ∈ joined, f.tag = x.1 ∧ ∃ m names,
    Forall₂ (fun p name => ofPhrase m p = .ok name) f.selected names ∧
      x.2.reverse = (numbered names.reverse).map spell

lemma Gives.withAlias {joined : List Frame} (h : n.Gives joined) (f : Frame) :
    (n.withAlias f.tag (base f)).Gives (f :: joined) := by
  have hcounts : (n.counts.choose (base f)).2 = numbered ((f :: joined).map base) := by
    rw [h.counts, choose_numbered, map_cons]
  refine ⟨hcounts, ?_, fun x hx => ?_⟩
  · rw [Names.withAlias, hcounts, h.frames, h.counts, choose_numbered, map_cons, numbered, zipWith_cons_cons]
  · obtain ⟨g, hg, hselect⟩ := h.selects x hx
    exact ⟨g, mem_cons_of_mem f hg, hselect⟩

end Names

namespace Frame

open NameCounts

mutual

/-- The frames that get an alias, in the order of naming from the last one on. -/
def joined : Frame → Bool → List Frame
  | scalar t, isEmbedded => if isEmbedded then [] else [scalar t]
  | table n t, _ => [table n t]
  | query c anchors embedded, isEmbedded =>
    (if c.role = .segment || isEmbedded then [] else [query c anchors embedded]) ++
      (joinedEmbedded embedded ++ joinedAnchors anchors)

def joinedAnchors : List (Anchor Frame) → List Frame
  | [] => []
  | a :: as => joinedAnchors as ++ joinedAnchor a

def joinedAnchor : Anchor Frame → List Frame
  | ⟨f, _, _, _⟩ => joined f false

def joinedEmbedded : List Frame → List Frame
  | [] => []
  | f :: fs => joinedEmbedded fs ++ joined f true

end

/-- A naming that gives names to some frames more. -/
def NamesOf (x : Naming Unit) (fs : List Frame) : Prop :=
  ∀ js n n', Names.Gives js n → x n = .ok ((), n') → n'.Gives (fs ++ js)

lemma namesOf_pure : NamesOf (pure ()) [] := by
  rintro js n n' h ⟨⟩
  exact h

lemma NamesOf.seq {x y : Naming Unit} {fs gs : List Frame} (hx : NamesOf x fs) (hy : NamesOf y gs) :
    NamesOf (do x; y) (gs ++ fs) := by
  intro js n n' h hrun
  obtain ⟨⟨⟩, m, hm, hrun⟩ := exists_of_run_bind_eq_ok hrun
  exact append_assoc .. ▸ hy _ m n' (hx js n m h hm) hrun

lemma namesOf_giveNames (f : Frame) : NamesOf (giveNames f.tag (Names.base f) f.selected) [f] := by
  intro js n n' h hrun
  rw [run_giveNames] at hrun
  obtain ⟨items, hitems, hrun⟩ := exists_of_map_eq_ok hrun
  cases hrun
  obtain ⟨names, hnames, heq⟩ := Names.ofSelect_numbered [] hitems
  have hgives := h.withAlias f
  refine ⟨hgives.counts, hgives.frames, forall_mem_cons.2 ⟨⟨f, mem_cons_self, rfl, _, names, hnames, ?_⟩,
    hgives.selects⟩⟩
  simpa [numbered] using heq

lemma namesOf_nameTable (tag : Tag) (t : Table) : NamesOf (nameTable tag t) [table tag t] := by
  rintro js n n' h ⟨⟩
  exact h.withAlias (table tag t)

lemma namesOf_anchors {as : List (Anchor Frame)}
    (h : ∀ a ∈ as, ∀ e, NamesOf (a.frame.nameFrames e) (a.frame.joined e)) :
    NamesOf (nameAnchors as) (joinedAnchors as) := by
  induction as with
  | nil => exact namesOf_pure
  | cons a as ih =>
    rw [forall_mem_cons] at h
    obtain ⟨f, condition, left, right⟩ := a
    exact (h.1 false).seq (ih h.2)

lemma namesOf_embedded {fs : List Frame} (h : ∀ f ∈ fs, ∀ e, NamesOf (f.nameFrames e) (f.joined e)) :
    NamesOf (nameEmbedded fs) (joinedEmbedded fs) := by
  induction fs with
  | nil => exact namesOf_pure
  | cons f fs ih =>
    rw [forall_mem_cons] at h
    have hpush : NamesOf (modify fun n => { n with embedded := (f.tag, f) :: n.embedded }) [] := by
      rintro js n n' hn ⟨⟩
      exact ⟨hn.counts, hn.frames, hn.selects⟩
    exact append_nil (joinedEmbedded (f :: fs)) ▸ hpush.seq ((h.1 true).seq (ih h.2))

lemma namesOf_nameFrames (f : Frame) (e : Bool) : NamesOf (f.nameFrames e) (f.joined e) := by
  induction f generalizing e with
  | scalar t =>
    cases e with
    | false => exact namesOf_giveNames (.scalar t)
    | true => exact namesOf_pure
  | table n t => exact namesOf_nameTable n t
  | query c anchors embedded iha ihe =>
    have hself : NamesOf (if c.role = .segment || e then pure ()
          else giveNames c.tag (Names.base (.query c anchors embedded)) c.select)
        (if c.role = .segment || e then [] else [query c anchors embedded]) := by
      split
      · exact namesOf_pure
      · exact namesOf_giveNames (.query c anchors embedded)
    rw [joined, ← append_assoc]
    exact (namesOf_anchors iha).seq ((namesOf_embedded ihe).seq hself)

lemma gives_names {f : Frame} (h : f.names = .ok n) : n.Gives (f.joined false) := by
  obtain ⟨⟨⟨⟩, m⟩, hm, h⟩ := exists_of_bind_eq_ok h
  cases h
  have hempty : Names.empty.Gives [] := ⟨rfl, rfl, nofun⟩
  exact append_nil (f.joined false) ▸ namesOf_nameFrames f false [] .empty m hempty hm

end Frame

namespace Statement

open NameCounts

-- writers may fail in any way, the statements are about the drafts that they give
attribute [local instance] Discipline.anything

/-- No aliases are given but those of unit rows. -/
def Steady (d d' : Draft) : Prop :=
  ∀ names, d.counts = numbered names →
    ∃ units, d'.counts = numbered (replicate units (Text.ofString "_") ++ names)

instance : IsPreorder Draft Steady where
  refl _ _ hd := ⟨0, hd⟩
  trans d e d' h h' names hd := by
    obtain ⟨units, he⟩ := h names hd
    obtain ⟨more, hd'⟩ := h' _ he
    exact ⟨more + units, by rw [hd', replicate_add, append_assoc]⟩

lemma suits_steady (h : ∀ t depth, (s.embed t depth).Keeps Steady) :
    s.Suits Steady (fun _ => True) (fun _ => True) where
  placeholder _ _ _ hd := ⟨0, hd⟩
  unit d names hd := ⟨1, by rw [hd, choose_numbered]; rfl⟩
  literal _ := .any _
  cast _ := trivial
  formula _ := ⟨.inr trivial, fun _ _ => trivial⟩
  column _ := .any _
  reference _ := ⟨.any _, .any _⟩
  embedding _ := h _
  table _ := .any _
  query _ := ⟨.any _, fun _ _ => .any _⟩
  phrases _ _ _ := trivial
  anchors _ _ _ := ⟨trivial, fun _ _ => trivial⟩

lemma steady_select (h : ∀ t depth, (s.embed t depth).Keeps Steady) (f : Frame) (depth : Nat) :
    (f.writeSelect s depth).Keeps Steady :=
  (suits_steady h).writeSelect fun _ _ _ _ => ⟨fun _ _ => trivial, fun _ _ => ⟨trivial, fun _ _ => trivial⟩⟩

lemma steady_embed (dialect : Dialect) (names : Names) (n : Nat) (tag : Tag) (depth : Nat) :
    (Frame.embedTo dialect names n tag depth).Keeps Steady := by
  induction n generalizing tag depth with
  | zero =>
    exact .bind (.lift (.any _)) fun _ _ => trivial
  | succ n ih =>
    exact .bind (.lift (.any _)) fun f => (steady_select ih f (depth + 1)).map

/-- The aliases of a statement, whichever of them are looked at, are distinct exactly if no numbered one
is the name of another frame; and so are the names of the select items of each nested query. -/
theorem aliases_nodup_iff {f : Frame} {dialect : Dialect} {st : Statement}
    (h : f.statement dialect = .ok st) :
    ∃ names draft units, f.names = .ok names ∧
      Frame.writeSelect (styleOf dialect names) 0 f ⟨names.counts, []⟩ = .ok (st.sql, draft) ∧
      names.counts = numbered ((f.joined false).map Names.base) ∧
      names.frames = zipWith (fun g u => (g.tag, spell u)) (f.joined false) names.counts ∧
      draft.counts = numbered (replicate units (Text.ofString "_") ++ (f.joined false).map Names.base) ∧
      (∀ uses, uses <+ draft.counts → ((uses.map spell).Nodup ↔ Apart uses)) ∧
      ∀ x ∈ names.selects, ∃ g ∈ f.joined false, g.tag = x.1 ∧ ∃ m items,
        Forall₂ (fun p name => Names.ofPhrase m p = .ok name) g.selected items ∧
          x.2.reverse = (numbered items.reverse).map spell ∧
            (x.2.Nodup ↔ Apart (numbered items.reverse)) := by
  obtain ⟨-, names, draft, hnames, hrun, -⟩ := statement_eq_ok_iff.1 h
  have hgives := Frame.gives_names hnames
  obtain ⟨units, hcounts⟩ := (steady_select (steady_embed dialect names _) f 0 _).of_ok hrun _ hgives.counts
  refine ⟨names, draft, units, hnames, hrun, hgives.counts, hgives.frames, hcounts, fun uses huses => ?_,
    fun x hx => ?_⟩
  · exact nodup_spell_iff (hcounts ▸ huses)
  · obtain ⟨g, hg, htag, m, items, hitems, heq⟩ := hgives.selects x hx
    refine ⟨g, hg, htag, m, items, hitems, heq, ?_⟩
    rw [← nodup_reverse, heq, nodup_spell_iff (Sublist.refl _)]

/-- The second of two tables `a` and a table `a_2` have one alias. -/
theorem aliases_nodup_iff_same_alias :
    let source (tag : Tag) (name : Text) : Anchor Frame := .plain (.table tag ⟨⟨"ad", name⟩, [], [], [], []⟩)
    let f : Frame := .query ⟨.segment, 0, [], none, [], none, [], none, none, []⟩
      [source 1 "a", source 2 "a", source 3 "a_2"] []
    ∃ st names, f.statement .ansi = .ok st ∧ f.names = .ok names ∧ ¬(names.frames.map (·.2)).Nodup := by
  intro source f
  obtain ⟨st, hst⟩ : ∃ st, f.statement .ansi = .ok st := ⟨_, rfl⟩
  obtain ⟨names, draft, units, hnames, hrun, -, -, -, hnodup, -⟩ := aliases_nodup_iff hst
  refine ⟨st, names, hst, hnames, fun h => ?_⟩
  cases hnames
  obtain ⟨-, rfl⟩ := Prod.mk.inj (Except.ok.inj hrun)
  exact absurd ((hnodup _ (Sublist.refl _)).1 h) (by unfold Apart; decide)

end Statement

end NavQuery
