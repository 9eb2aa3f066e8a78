import NavQuery.Proofs.FormedCompilation
import NavQuery.Proofs.Injection

/-!
A term that is compiled over the root leaves out no axis: it has one row for each tuple of its space. The
tree of any segment has distinct tags, routes that lead nowhere but down, and inflated baselines.
-/

namespace NavQuery

open List

namespace Store

variable {R V : Type} [DecidableEq R] [DecidableEq V] {D : Store R V} {J : Join → Prop}

omit [DecidableEq R] in
/-- Tuples that differ in their last entries only are told apart by these. -/
theorem nodup_flatMap_append {xs : List (Tuple R)} (hxs : xs.Nodup) {f : Tuple R → List R}
    (hf : ∀ x, (f x).Nodup) : (xs.flatMap fun x => (f x).map fun r => x ++ [some r]).Nodup := by
  refine nodup_flatMap.2 ⟨fun x _ => (hf x).map fun r r' h => ?_, hxs.imp fun {x y} hne => ?_⟩
  · exact Option.some.inj (singleton_inj.1 (append_cancel_left h))
  · intro z hx hy
    obtain ⟨r, -, rfl⟩ := mem_map.1 hx
    obtain ⟨r', -, h⟩ := mem_map.1 hy
    exact hne (append_inj' h rfl).1.symm

lemma nodup_tuples {s : Space} (hs : s.IsPlain J) : (D.tuples s).Nodup := by
  have hchain := hs.isChain
  induction hchain with
  | root m => exact nodup_singleton _
  | scalar m _ ih => exact (ih hs).map fun x y h => append_cancel_right h
  | table m t _ _ ih => exact nodup_flatMap_append (ih hs.2) fun _ => D.nodup_rows t
  | fiber m _ _ _ ih =>
    exact nodup_flatMap_append (ih hs.2.2) fun _ => (D.nodup_rows _).sublist filter_sublist
  | filtered m f _ ih => exact (ih hs.1).sublist filter_sublist
  | ordered m os l o _ ih =>
    obtain ⟨rfl, rfl, hb⟩ := hs
    exact ih hb

section Root

variable {s b : Space} {r : Routes} {tags : List Nat} {real : List (Tuple R × Showing R)}
  {junk : List (Showing R)}

variable (h : D.Shows J s b r tags real junk)
include h

lemma Shows.junk_eq_nil (hb : b.axes = [.root]) : junk = [] := by
  refine eq_nil_iff_forall_not_mem.2 fun e he => ?_
  obtain ⟨ε, hε, hnone⟩ := h.unreached e he
  have hpossible : D.Possible (.root .nowhere) ε :=
    possible_congr h.isBackbone.isChain (.root .nowhere) hb hε.possible
  refine hnone [none] ?_ (Eq.symm hpossible)
  rw [hb]
  exact ⟨rfl, rfl⟩

lemma Shows.map_fst_perm (hb : b.axes = [.root]) (hs : s.IsPlain J) :
    (real.map Prod.fst).Perm (D.tuples s) := by
  have hdrop : ∀ z : Tuple R, z.drop b.hidden = z := by
    intro z
    rw [Space.hidden, hb]
    rfl
  refine (perm_ext_iff_of_nodup h.nodup (nodup_tuples hs)).2 fun z => ⟨fun hz => ?_, fun hz => ?_⟩
  · obtain ⟨p, hp, rfl⟩ := mem_map.1 hz
    obtain ⟨z, hz, hzp⟩ := h.exists_tuple p hp
    rwa [← hzp, hdrop]
  · have hmem := (h.mem_iff z (fits_of_mem h.isChain hz)).1 hz
    rwa [hdrop] at hmem

lemma Shows.exists_row (hb : b.axes = [.root]) (hs : s.IsPlain J) : ∃ row : Tuple R → Showing R,
      (real.map Prod.snd).Perm ((D.tuples s).map row) ∧ ∀ x ∈ D.tuples s, (x, row x) ∈ real := by
  have hperm := h.map_fst_perm hb hs
  let row (x : Tuple R) : Showing R := ((real.find? (·.1 = x)).map Prod.snd).getD fun _ => none
  have hrow : ∀ p ∈ real, row p.1 = p.2 := by
    intro p hp
    obtain ⟨q, hq⟩ : ∃ q, real.find? (·.1 = p.1) = some q :=
      Option.isSome_iff_exists.1 (find?_isSome.2 ⟨p, hp, decide_eq_true rfl⟩)
    have hqp : q.1 = p.1 := by simpa using find?_some hq
    have hsame := inj_on_of_nodup_map h.nodup (mem_of_find?_eq_some hq) hp hqp
    change ((real.find? (·.1 = p.1)).map Prod.snd).getD _ = p.2
    rw [hq, hsame]
    rfl
  refine ⟨row, ?_, fun x hx => ?_⟩
  · have hmap : real.map Prod.snd = (real.map Prod.fst).map row := by
      rw [map_map]
      exact map_congr_left fun p hp => (hrow p hp).symm
    rw [hmap]
    exact hperm.map row
  · obtain ⟨p, hp, rfl⟩ := mem_map.1 (hperm.mem_iff.2 hx)
    rw [hrow p hp]
    exact hp

/-- A routed column holds the column of the converging tuple, or null. -/
theorem Shows.read_converging (hC : D.Contracts J) {p : Tuple R × Showing R} (hp : p ∈ real) {z : Tuple R}
    (hz : z ∈ D.tuples s) (hzp : z.drop b.hidden = p.1) {n : Mark} {d : Domain} {c : Column} {u : Space}
    (hr : r.contains (.column n d c u)) :
    (∀ y ∈ D.tuples u, s.Converge u z y →
      D.read r p.2 (.column n d c u) = y.last.elim D.engine.null (D.cell · c)) ∧
    ((∀ y ∈ D.tuples u, ¬ s.Converge u z y) → D.read r p.2 (.column n d c u) = D.engine.null) := by
  rw [h.read_column hr hp hz hzp, D.value_column]
  refine ⟨fun y hy hzy => ?_, fun hnone => by rw [rowOf_eq_none hnone]; rfl⟩
  obtain ⟨v, k, hk, hv, -⟩ := Routes.exists_of_contains hr
  obtain ⟨m, w, rfl, huw⟩ := column_of_beq (BEq.symm hv)
  rw [tuples_of_beq D huw] at hy
  rw [Space.Converge, Space.axes_of_beq huw] at hzy
  rw [D.rowOf_of_beq huw, rowOf_eq_last hC h.isChain ((h.reads _ hk).isChain m d c w rfl)
    ((h.reads _ hk).spans m d c w rfl) hy hzy]

end Root

end Store

namespace Term

variable {R V : Type} [DecidableEq R] [DecidableEq V] {D : Store R V} {J : Join → Prop}

lemma exists_of_run {α : Type} {x : Tagged α} {a : α} (h : run x = .ok a) : ∃ i, x 1 = .ok (a, i) := by
  have hmap : Prod.fst <$> x 1 = .ok a := h
  cases hx : x 1 with
  | error e =>
    rw [hx] at hmap
    cases hmap
  | ok p =>
    rw [hx] at hmap
    cases hmap
    exact ⟨p.2, rfl⟩

lemma exists_of_isSome {α : Type} {x : Result α} (h : x.toOption.isSome) : ∃ a, x = .ok a := by
  cases x with
  | error e => cases h
  | ok a => exact ⟨a, rfl⟩

/-- A plain space that is compiled over the root, with plain codes injected, becomes a term with one row for
each tuple of the space. The row shows the values of the codes for the tuple; a routed column is that of
the tuple of its own space that converges with the given one, and null if there is none. -/
theorem showings_perm_tuples (hC : D.Contracts J) (hE : D.Expands J) (hK : D.Keyed)
    (hJ : ∀ j, J j → j.IsFormed) {root s : Space} (hs : s.IsPlain J) {codes : List Code}
    (hcodes : ∀ f ∈ codes, f.IsPlain J) {m : Mark} {t : Term}
    (h : run (do
      let trunk ← (compiler root).compile s (.root m)
      (compiler root).inject trunk codes) = .ok t) :
    (∀ f ∈ codes, ∀ u ∈ f.units, t.routes.contains u = true) ∧
    ∃ row : Tuple R → Showing R, (D.showings t).Perm ((D.tuples s).map row) ∧
      ∀ x ∈ D.tuples s, (∀ f ∈ codes, D.read t.routes (row x) f = D.value f s x) ∧
        ∀ n d c u, t.routes.contains (.column n d c u) = true → (∀ y ∈ D.tuples u, s.Converge u x y →
            D.read t.routes (row x) (.column n d c u) = y.last.elim D.engine.null (D.cell · c)) ∧
          ((∀ y ∈ D.tuples u, ¬ s.Converge u x y) →
            D.read t.routes (row x) (.column n d c u) = D.engine.null) := by
  have hcorrect := compilerTo_correct hC hE hK hJ root greatestDepth
  obtain ⟨i, h⟩ := exists_of_run h
  obtain ⟨trunk, k, htrunk, h⟩ := exists_of_run_bind_eq_ok h
  have hcompiled := (hcorrect.compile hs (.root m) htrunk).2
  obtain ⟨hgrown, hrouted⟩ := hcorrect.inject hcompiled.sound (hcompiled.space_eq ▸ hs)
    (fun l hl => (hcompiled.tags l hl).2) hcodes h
  obtain ⟨real, junk, hshows, hperm⟩ := hgrown.sound
  rw [hgrown.space_eq, hcompiled.space_eq] at hshows
  have hbaseline : t.baseline.axes = [.root] := by
    have hstart : t.baseline.axes <+: [.root] := hgrown.start.trans hcompiled.start
    exact hstart.eq_of_length (le_antisymm hstart.length_le hshows.isBackbone.axes_length_pos)
  have hdrop : ∀ z : Tuple R, z.drop t.baseline.hidden = z := by
    intro z
    rw [Space.hidden, hbaseline]
    rfl
  obtain ⟨row, hrows, hmem⟩ := hshows.exists_row hbaseline hs
  rw [hshows.junk_eq_nil hbaseline, append_nil] at hperm
  refine ⟨hrouted, row, hperm.trans hrows, fun x hx => ⟨fun f hf => ?_, fun n d c u hu => ?_⟩⟩
  · exact hshows.read_plain (hmem x hx) hx (hdrop x) f (hcodes f hf) (hrouted f hf)
  · exact hshows.read_converging hC (hmem x hx) hx (hdrop x) hu

end Term

namespace Sample

lemma keyed : store.Keyed := by
  intro t k hk _
  by_cases hschool : t = school
  · subst hschool
    obtain rfl := mem_singleton.1 hk
    exact ⟨by decide, by decide⟩
  · by_cases hdepartment : t = department
    · subst hdepartment
      obtain rfl := mem_singleton.1 hk
      exact ⟨by decide, by decide⟩
    · have hrows : store.rows t = [] := (if_neg hschool).trans (if_neg hdepartment)
      rw [hrows]
      exact ⟨(fun r hr => nomatch hr), fun r hr => nomatch hr⟩

lemma home_isFormed : home.IsFormed := ⟨by decide, by decide, by decide⟩

lemma openDepartments_isPlain : openDepartments.IsPlain (· = home) :=
  ⟨⟨rfl, trivial⟩, ⟨rfl, trivial⟩, rfl, by decide⟩

lemma schoolCode_isPlain : (Code.ofColumn schoolCode schools .nowhere).IsPlain (· = home) :=
  ⟨⟨rfl, rfl, rfl, trivial⟩, rfl, by decide⟩

end Sample

/-- The open department has one row, which shows the code of its school. -/
theorem Term.showings_perm_tuples_open :
    ∃ (t : Term) (row : Tuple Sample.Row → Showing Sample.Row), run (do
      let trunk ← (compiler (.root .nowhere)).compile Sample.openDepartments (.root .nowhere)
      (compiler (.root .nowhere)).inject trunk
        [.ofColumn Sample.schoolCode Sample.schools .nowhere]) = .ok t ∧
    (Sample.store.showings t).Perm [row [none, some (false, true)]] ∧
    Sample.store.read t.routes (row [none, some (false, true)])
      (.ofColumn Sample.schoolCode Sample.schools .nowhere) = some (some true) := by
  have hsome : (run (do
      let trunk ← (compiler (.root .nowhere)).compile Sample.openDepartments (.root .nowhere)
      (compiler (.root .nowhere)).inject trunk
        [.ofColumn Sample.schoolCode Sample.schools .nowhere])).toOption.isSome = true := by
    decide +kernel
  obtain ⟨t, hrun⟩ := exists_of_isSome hsome
  obtain ⟨-, row, hperm, hrows⟩ := showings_perm_tuples Sample.contracts Sample.expands Sample.keyed
    (fun j hj => hj ▸ Sample.home_isFormed) Sample.openDepartments_isPlain
    (by simpa using Sample.schoolCode_isPlain) hrun
  refine ⟨t, row, hrun, hperm, ?_⟩
  rw [(hrows [none, some (false, true)] (by decide)).1 _ mem_cons_self]
  decide

open Discipline

section Anything

local instance : Lenient := anything

mutual

lemma Space.formed_anything (s : Space) : s.Formed := by
  cases s <;> constructor
  all_goals first
    | exact Space.formed_anything _
    | exact Code.formed_anything _
    | exact fun c hc => Code.formed_anything c
    | rintro ⟨c, _⟩ hc
      have hlt := sizeOf_pair_lt hc
      exact Code.formed_anything _
termination_by sizeOf s

lemma Code.formed_anything (c : Code) : c.Formed := by
  cases c <;> constructor
  all_goals first
    | exact trivial
    | exact Space.formed_anything _
    | exact Code.formed_anything _
    | exact fun c hc => Code.formed_anything c
termination_by sizeOf c

end

lemma Segment.formed_anything (s : Segment) : s.Formed :=
  ⟨s.root.formed_anything, s.space.formed_anything, fun c _ => c.formed_anything⟩

end Anything

namespace Term

/-- A tree in which each term is known by its tag, reads from terms below it and finds its way to
them. -/
structure WellFormed (t : Term) : Prop where
  nodup : (t.subterms.map tag).Nodup
  routes : ∀ u ∈ t.subterms, ∀ e ∈ u.routes.entries, ∃ v ∈ u.subterms, v.tag = e.2
  offspring : ∀ u ∈ t.subterms, ∀ n m, u.offspring? n = some m ↔
    ∃ k ∈ u.kids, k.tag = m ∧ ∃ v ∈ k.subterms, v.tag = n
  baseline : ∀ u ∈ t.subterms, u.baseline.isInflated = true

lemma Formed.wellFormed [Lenient] {t : Term} (h : t.Formed) (hn : t.tags.Nodup) : t.WellFormed where
  nodup := tags_eq_map t ▸ hn
  routes u hu e he := by
    have hshown := ((h.subterm hu).fits.routes e he).1
    exact mem_tags_iff.1 (shown_subset_tags u hshown)
  offspring u hu n m := by
    rw [offspring?_eq_some_iff (nodup_subterm hn hu)]
    simp only [mem_tags_iff]
  baseline u hu := (h.subterm hu).fits.baseline.inflated

/-- If a segment is compiled in a session, the tree is well-formed and the session has the baselines that
it had before. -/
theorem compileSegment_wellFormed {s : Segment} {σ σ' : Session} {t : Term}
    (h : compileSegment s σ = .ok (t, σ')) :
    t.WellFormed ∧ σ'.baseline = σ.baseline ∧ σ'.stack = σ.stack := by
  let : Lenient := anything
  have hs := ensures_compileSegment σ.root.formed_anything s.formed_anything
  obtain ⟨n, hσ, ht⟩ := hs.of_ok h
  obtain rfl : σ' = { σ with next := n } := hσ
  exact ⟨ht.formed.wellFormed ht.nodup, rfl, rfl⟩

/-- The codes of the schools of open departments, in the midst of a session. -/
theorem compileSegment_openDepartments : ∃ (t : Term) (σ : Session),
      compileSegment ⟨.root .nowhere, Sample.openDepartments,
          [.ofColumn Sample.schoolCode Sample.schools .nowhere], .nowhere⟩
        ⟨.root .nowhere, 7, Sample.departments, [.root .nowhere]⟩ = .ok (t, σ) ∧
      t.WellFormed ∧ σ.baseline = Sample.departments ∧ σ.stack = [.root .nowhere] := by
  have hsome : (compileSegment ⟨.root .nowhere, Sample.openDepartments,
      [.ofColumn Sample.schoolCode Sample.schools .nowhere], .nowhere⟩
      ⟨.root .nowhere, 7, Sample.departments, [.root .nowhere]⟩).toOption.isSome = true := by
    decide +kernel
  obtain ⟨⟨t, σ⟩, h⟩ := exists_of_isSome hsome
  exact ⟨t, σ, h, compileSegment_wellFormed h⟩

end Term

end NavQuery
