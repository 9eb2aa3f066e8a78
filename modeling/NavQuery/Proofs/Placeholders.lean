import NavQuery.Proofs.WrittenFrames

/-!
`matches_statement`: each marker of a statement is bound from a placeholder with the name and the domain
of the parameter it stands for, just if the parameters are written in the order of the text.
-/

namespace NavQuery

open List Statement

namespace Operator

variable {α β : Type} (f : Operator)

lemma written_map (pass : Pass) (g : α → β) (xs : List α) :
    f.written pass (xs.map g) = (f.written pass xs).map g := by
  unfold written
  split <;> simp [map_take]

lemma written_perm (xs : List α) : (f.written .reading xs).Perm (f.written .writing xs) := by
  cases hkind : f.kind <;> simp only [written, hkind, List.Perm.refl]
  calc xs = xs.take 1 ++ xs.drop 1 := (take_append_drop 1 xs).symm
    List.Perm _ (xs.drop 1 ++ xs.take 1) := perm_append_comm

lemma mem_of_mem_written {pass : Pass} {xs : List α} {x : α} (h : x ∈ f.written pass xs) : x ∈ xs := by
  unfold written at h
  split at h
  case h_16 => exact (mem_append.1 h).elim mem_of_mem_drop mem_of_mem_take
  case h_17 => exact h
  all_goals exact mem_of_mem_take h

end Operator

namespace Phrase

lemma slots_formula (pass : Pass) (E : Tag → List Slot) (d : Domain) (n : Bool) (f : Operator)
    (as : List Phrase) :
    slots pass E (formula d n f as) = (f.written pass as).flatMap (slots pass E) := by
  rw [slots, slotsEach_eq, f.written_map]
  rfl

lemma slots_perm {E E' : Tag → List Slot} (h : ∀ t, (E t).Perm (E' t)) (p : Phrase) :
    (p.slots .reading E).Perm (p.slots .writing E') := by
  induction p with
  | literal | parameter | column | reference => exact .refl _
  | cast d n p ih => exact ih
  | formula d n f as ih =>
    rw [slots_formula, slots_formula]
    exact ((f.written_perm as).flatMap_right _).trans
      (List.Perm.flatMap_left _ fun a ha => ih a (f.mem_of_mem_written ha))
  | embedding d t => exact h t

end Phrase

namespace Frame

lemma slotsBy_perm {P P' : Phrase → List Slot} (h : ∀ p, (P p).Perm (P' p)) (f : Frame) :
    (f.slotsBy P).Perm (f.slotsBy P') := by
  have hlist : ∀ ps : List Phrase, (ps.flatMap P).Perm (ps.flatMap P') := fun ps =>
    List.Perm.flatMap_left ps fun p _ => h p
  induction f with
  | scalar | table => exact .refl _
  | query c anchors embedded ih _ =>
    have hanchors : ∀ isFirst, (anchorSlots P anchors isFirst).Perm (anchorSlots P' anchors isFirst) := by
      induction anchors with
      | nil => exact fun _ => .refl _
      | cons a as iha =>
        intro isFirst
        rw [forall_mem_cons] at ih
        obtain ⟨f, condition, left, right⟩ := a
        refine .append (.append ih.1 ?_) (iha ih.2 false)
        split
        · exact .refl _
        · exact hlist _
    have horder : (c.order.flatMap fun i => P i.1).Perm (c.order.flatMap fun i => P' i.1) :=
      List.Perm.flatMap_left c.order fun i _ => h i.1
    exact ((hlist _).append (hanchors true)).append
      ((((hlist _).append (hlist _)).append (hlist _)).append horder)

lemma embeddedSlots_perm (subqueries : List (Tag × Frame)) (n : Nat) (t : Tag) :
    (embeddedSlots .reading subqueries n t).Perm (embeddedSlots .writing subqueries n t) := by
  induction n generalizing t with
  | zero => rw [embeddedSlots, embeddedSlots]
  | succ n ih =>
    rw [embeddedSlots, embeddedSlots]
    cases subqueries.lookup t with
    | none => rw [Option.elim_none, Option.elim_none]
    | some f =>
      exact slotsBy_perm (Phrase.slots_perm ih) f

lemma slots_perm (f : Frame) : (f.slots .reading).Perm (f.slots .writing) :=
  slotsBy_perm (Phrase.slots_perm (embeddedSlots_perm _ _)) f

end Frame

def Placeholder.slot (p : Placeholder) : Slot := ⟨p.domain, p.name⟩

namespace Statement

def bound? (st : Statement) (place : Nat) : Option Nat → Option Placeholder
  | none => st.placeholders[place]?
  | some n => st.placeholders[n - 1]?

/-- Each marker is bound from a placeholder with the name and the domain of its slot. -/
def Matches (st : Statement) (slots : List Slot) : Prop :=
  ∀ (k : Nat) (m : Option Nat) (s : Slot), (markers st.sql)[k]? = some m → slots[k]? = some s →
    ∃ p, st.bound? k m = some p ∧ p.slot = s

def styleOf (dialect : Dialect) (names : Names) : Style :=
  ⟨dialect, names, Frame.embedTo dialect names names.embedded.length⟩

variable {st : Statement} {f : Frame} {dialect : Dialect}

lemma statement_eq_ok_iff :
    f.statement dialect = .ok st ↔ f.isSegment ∧ ∃ names draft, f.names = .ok names ∧
      Frame.writeSelect (styleOf dialect names) 0 f ⟨names.counts, []⟩ = .ok (st.sql, draft) ∧
      st.placeholders = draft.placeholders := by
  constructor
  · intro h
    obtain ⟨⟨⟩, hsegment, h⟩ := exists_of_bind_eq_ok h
    obtain ⟨names, hnames, h⟩ := exists_of_bind_eq_ok h
    obtain ⟨⟨sql, draft⟩, hrun, h⟩ := exists_of_bind_eq_ok h
    cases h
    refine ⟨?_, names, draft, hnames, hrun, rfl⟩
    by_contra hne
    rw [ensure, if_neg hne] at hsegment
    cases hsegment
  · rintro ⟨hsegment, names, draft, hnames, hrun, hplaceholders⟩
    obtain ⟨sql, placeholders⟩ := st
    obtain rfl := hplaceholders
    rw [Frame.statement, ensure, if_pos hsegment, hnames]
    change (Frame.writeSelect (styleOf dialect names) 0 f ⟨names.counts, []⟩ >>= _) = _
    rw [hrun]
    rfl

lemma statement_instantiate {σ : Slot → Value}
    {lit : Slot → Text} (hf : ∀ p ∈ f.phrases, p.isSpelled) (h : f.statement dialect = .ok st)
    (hlit : ∀ x : Slot, writeLiteral dialect x.domain (σ x) = .ok (lit x)) :
    st.placeholders = registerAll dialect [] (f.slots .writing) ∧
      markers st.sql = (f.slots .reading).map (number dialect st.placeholders) ∧
      (f.instantiate σ).statement dialect = .ok ⟨fill st.sql ((f.slots .reading).map lit), []⟩ := by
  obtain ⟨hsegment, names, draft, hnames, hrun, hplaceholders⟩ := statement_eq_ok_iff.1 h
  obtain ⟨hembedded, hnames'⟩ := Frame.names_instantiate (σ := σ) hnames
  have hspelled : ∀ x ∈ names.embedded, ∀ p ∈ x.2.phrases, p.isSpelled := fun x hx p hp =>
    hf p (Frame.phrases_subset_of_mem_subqueries (hembedded ▸ hx) hp)
  have hlength : (names.mapEmbedded (Frame.instantiate σ)).embedded.length = f.subqueries.length :=
    hembedded ▸ length_map ..
  have htwins : Twins dialect lit (styleOf dialect names)
      (styleOf dialect (names.mapEmbedded (Frame.instantiate σ)))
      fun pass => Frame.embeddedSlots pass f.subqueries f.subqueries.length := by
    refine ⟨rfl, rfl, fun _ => rfl, fun _ _ => rfl, fun t depth => ?_⟩
    rw [styleOf, styleOf, hlength, ← hembedded]
    exact writes_embedTo hlit hspelled _ t depth
  obtain ⟨hregistered, t', hrun', hfills⟩ := writes_select htwins hlit hf 0 _ _ _ hrun
  have hfills : Fills (number dialect draft.placeholders) lit (f.slots .reading) st.sql t' :=
    hfills _ prefix_rfl
  rw [hplaceholders]
  refine ⟨hregistered, hfills.markers_eq, statement_eq_ok_iff.2 ⟨?_, _, draft.bare, hnames', ?_, rfl⟩⟩
  · rw [Frame.instantiate, Frame.isSegment_mapPhrases, hsegment]
  · rw [hfills.fill_eq]
    exact hrun'

section Registered

variable {dialect : Dialect}

lemma map_slot_registerAll (h : dialect ≠ .pgsql) (l : List Placeholder) (slots : List Slot) :
    (registerAll dialect l slots).map Placeholder.slot = l.map Placeholder.slot ++ slots := by
  induction slots generalizing l with
  | nil => simp [registerAll]
  | cons s slots ih =>
    have hregister : register dialect l s = l ++ [⟨l.length, s.name, s.domain⟩] := by simp [register, h]
    rw [registerAll, foldl_cons, hregister]
    exact (ih _).trans (by simp [Placeholder.slot])

def Indexed (l : List Placeholder) : Prop := ∀ (i : Nat) (p : Placeholder), l[i]? = some p → p.index = i

variable {l : List Placeholder} {slots : List Slot}

lemma indexed_registerAll (hl : Indexed l) (slots : List Slot) :
    Indexed (registerAll dialect l slots) := by
  induction slots generalizing l with
  | nil => exact hl
  | cons s slots ih =>
    refine ih (l := register dialect l s) fun i p hp => ?_
    unfold register at hp
    split at hp
    · exact hl i p hp
    · rcases lt_trichotomy i l.length with h | h | h
      · rw [getElem?_append_left h] at hp
        exact hl i p hp
      · rw [h, getElem?_concat_length, Option.some_inj] at hp
        rw [← hp, h]
      · rw [getElem?_eq_none (by rw [length_append]; exact h)] at hp
        cases hp

lemma slot_mem_of_mem_registerAll {p : Placeholder}
    (h : p ∈ registerAll dialect l slots) : p ∈ l ∨ p.slot ∈ slots := by
  induction slots generalizing l with
  | nil => exact .inl h
  | cons s slots ih =>
    have hregister : p ∈ register dialect l s → p ∈ l ∨ p.slot = s := by
      unfold register
      split
      · exact .inl
      · rw [mem_append, mem_singleton]
        exact Or.imp_right fun h => h ▸ rfl
    rcases ih h with h | h
    · exact (hregister h).imp_right fun heq => mem_cons.2 (.inl heq)
    · exact .inr (mem_cons_of_mem s h)

lemma exists_bound_of_mem {st : Statement}
    (hst : st.placeholders = registerAll .pgsql [] slots) {s : Slot} (hs : s ∈ slots) :
    ∃ p, st.placeholders.find? (·.name == s.name) = some p ∧ p.slot ∈ slots ∧ p.name = s.name ∧
      ∀ k, st.bound? k (number .pgsql st.placeholders s) = some p := by
  obtain ⟨before, after, rfl⟩ := append_of_mem hs
  have hprefix : register .pgsql (registerAll .pgsql [] before) s <+: st.placeholders := by
    have hsplit : registerAll .pgsql [] (before ++ s :: after) =
        registerAll .pgsql (register .pgsql (registerAll .pgsql [] before) s) after := by
      simp [registerAll]
    rw [hst, hsplit]
    exact prefix_registerAll .pgsql _ after
  obtain ⟨p, hp⟩ := find?_register .pgsql (registerAll .pgsql [] before) s
  have hfind : st.placeholders.find? (·.name == s.name) = some p := by
    exact IsPrefix.find?_eq_some hprefix hp
  have hmem := mem_of_find?_eq_some hfind
  refine ⟨p, hfind, ?_, by simpa using find?_some hfind, fun k => ?_⟩
  · exact (slot_mem_of_mem_registerAll (hst ▸ hmem)).resolve_left not_mem_nil
  · obtain ⟨i, hi⟩ := mem_iff_getElem?.1 hmem
    have hindexed : Indexed st.placeholders := by
      rw [hst]
      exact indexed_registerAll (fun _ _ h => by simp at h) _
    rw [number, hfind, Option.map_some, bound?, Nat.add_sub_cancel, hindexed i p hi, hi]

end Registered

section Matches

variable {st : Statement} {S U : List Slot} {dialect : Dialect}

lemma matches_iff (hmarkers : markers st.sql = S.map (number dialect st.placeholders)) :
    st.Matches S ↔ ∀ (k : Nat) (s : Slot), S[k]? = some s →
      ∃ p, st.bound? k (number dialect st.placeholders s) = some p ∧ p.slot = s := by
  have hmarker : ∀ (k : Nat) (s : Slot), S[k]? = some s →
      (markers st.sql)[k]? = some (number dialect st.placeholders s) := fun k s hs => by
    rw [hmarkers, getElem?_map, hs, Option.map_some]
  constructor
  · intro h k s hs
    exact h k _ s (hmarker k s hs) hs
  · intro h k m s hm hs
    obtain rfl : number dialect st.placeholders s = m := Option.some_inj.1 ((hmarker k s hs).symm.trans hm)
    exact h k s hs

lemma matches_of_places (hdialect : dialect ≠ .pgsql) (hperm : S.Perm U)
    (hst : st.placeholders = registerAll dialect [] U)
    (hmarkers : markers st.sql = S.map (number dialect st.placeholders)) : st.Matches S ↔ S = U := by
  have hnumber : ∀ s, number dialect st.placeholders s = none := by
    intro s
    cases dialect <;> first | rfl | exact absurd rfl hdialect
  have hslots : st.placeholders.map Placeholder.slot = U := by
    rw [hst, map_slot_registerAll hdialect]
    rfl
  have hplace : st.Matches S ↔ ∀ (k : Nat) (s : Slot), S[k]? = some s → U[k]? = some s := by
    rw [matches_iff hmarkers, ← hslots]
    simp only [hnumber, bound?, getElem?_map, Option.map_eq_some_iff]
  rw [hplace]
  constructor
  · intro h
    refine ext_getElem? fun k => ?_
    cases hk : S[k]? with
    | some s => exact (h k s hk).symm
    | none =>
      rw [getElem?_eq_none_iff, hperm.length_eq] at hk
      exact (getElem?_eq_none hk).symm
  · rintro rfl k s hs
    exact hs

lemma matches_of_numbers (hperm : S.Perm U) (hst : st.placeholders = registerAll .pgsql [] U)
    (hmarkers : markers st.sql = S.map (number .pgsql st.placeholders)) :
    st.Matches S ↔ ∀ s ∈ S, ∀ u ∈ S, s.name = u.name → s = u := by
  rw [matches_iff hmarkers]
  constructor
  · -- parameters of one name are bound from one placeholder
    intro h s hs u hu hname
    have hbound : ∀ x ∈ S, ∃ p, st.placeholders.find? (·.name == x.name) = some p ∧ p.slot = x := by
      intro x hx
      obtain ⟨k, hk⟩ := mem_iff_getElem?.1 hx
      obtain ⟨p, hfind, -, -, hp⟩ := exists_bound_of_mem hst (hperm.mem_iff.1 hx)
      obtain ⟨r, hr, hslot⟩ := h k x hk
      obtain rfl : p = r := Option.some_inj.1 ((hp k).symm.trans hr)
      exact ⟨p, hfind, hslot⟩
    obtain ⟨p, hp, rfl⟩ := hbound s hs
    obtain ⟨r, hr, rfl⟩ := hbound u hu
    rw [hname, hr, Option.some_inj] at hp
    rw [hp]
  · intro h k s hs
    have hmem : s ∈ S := mem_of_getElem? hs
    obtain ⟨p, -, hslot, hname, hp⟩ := exists_bound_of_mem hst (hperm.mem_iff.1 hmem)
    exact ⟨p, hp k, h _ (hperm.mem_iff.2 hslot) s hmem hname⟩

end Matches

/-- The markers of a statement stand for the slots of its frame in the order of the text, since literals
in place of the parameters stand where the markers do. Each marker is bound from a placeholder of its
parameter just if the parameters are written in that order, or, where markers are numbered, if
parameters of one name have one domain. -/
theorem matches_statement {f : Frame} {dialect : Dialect} {st : Statement}
    (hspelled : ∀ p ∈ f.phrases, p.isSpelled = true) (h : f.statement dialect = .ok st) :
    (markers st.sql).length = (f.slots .reading).length ∧ (∀ (σ : Slot → Value) (lit : Slot → Text),
        (∀ s : Slot, writeLiteral dialect s.domain (σ s) = .ok (lit s)) →
          (f.instantiate σ).statement dialect = .ok ⟨fill st.sql ((f.slots .reading).map lit), []⟩) ∧
      (st.Matches (f.slots .reading) ↔
        if dialect = .pgsql then
          ∀ s ∈ f.slots .reading, ∀ u ∈ f.slots .reading, s.name = u.name → s = u
        else f.slots .reading = f.slots .writing) := by
  have hnull : ∀ s : Slot, writeLiteral dialect s.domain .null = .ok (Text.ofString "NULL") := fun _ => rfl
  obtain ⟨hst, hmarkers, -⟩ := statement_instantiate hspelled h hnull
  refine ⟨by rw [hmarkers, length_map], fun σ lit hlit => ?_, ?_⟩
  · exact (statement_instantiate hspelled h hlit).2.2
  · split
    · rename_i hdialect
      subst hdialect
      exact matches_of_numbers f.slots_perm hst hmarkers
    · rename_i hdialect
      exact matches_of_places hdialect f.slots_perm hst hmarkers

/-- The items of a membership test are registered before its left operand. Their numbers are right, and
their places are not. -/
theorem matches_statement_membership :
    let test : Phrase := .formula .boolean true (.plain .isIn) [.parameter .text "a", .parameter .text "b"]
    let f : Frame := .query ⟨.segment, 0, [test], none, [], none, [], none, none, [0]⟩ [] []
    let placeholders : List Placeholder := [⟨0, "b", .text⟩, ⟨1, "a", .text⟩]
    f.statement .ansi = .ok ⟨"SELECT ? IN (?)", placeholders⟩ ∧
      ¬Matches ⟨"SELECT ? IN (?)", placeholders⟩ (f.slots .reading) ∧
      f.statement .pgsql = .ok ⟨"SELECT $2 IN ($1)", placeholders⟩ ∧
      Matches ⟨"SELECT $2 IN ($1)", placeholders⟩ (f.slots .reading) := by
  intro test f placeholders
  have hspelled : ∀ p ∈ f.phrases, p.isSpelled = true := by decide
  have hplaces : f.statement .ansi = .ok ⟨"SELECT ? IN (?)", placeholders⟩ := rfl
  have hnumbers : f.statement .pgsql = .ok ⟨"SELECT $2 IN ($1)", placeholders⟩ := rfl
  have hreading : f.slots .reading = [⟨.text, "a"⟩, ⟨.text, "b"⟩] := rfl
  have hwriting : f.slots .writing = [⟨.text, "b"⟩, ⟨.text, "a"⟩] := rfl
  refine ⟨hplaces, fun h => ?_, hnumbers, ?_⟩
  · have heq := (matches_statement hspelled hplaces).2.2.1 h
    rw [hreading, hwriting, List.cons.injEq, Slot.mk.injEq] at heq
    exact absurd heq.1.2 (by decide)
  · refine (matches_statement hspelled hnumbers).2.2.2 ?_
    rw [hreading]
    simp only [forall_mem_cons]
    exact ⟨⟨fun _ => trivial, fun h => absurd h (by decide), nofun⟩,
      ⟨fun h => absurd h (by decide), fun _ => trivial, nofun⟩, nofun⟩

end Statement

end NavQuery
