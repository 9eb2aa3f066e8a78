import NavQuery.Proofs.CatalogRuns
import NavQuery.Proofs.Seams

/-!
In a store that keeps the constraints of its catalog an expanding join meets a row for each row. A join
is called contracting if it covers a key, but only a complete key promises at most one row.
-/

namespace NavQuery

open List

variable {R V : Type}

/-- Columns that are not nullable have no nulls, and complete keys tell apart rows without nulls. -/
structure Store.HoldsKeys (D : Store R V) (c : Catalog) : Prop where
  notNull : ∀ name, ∀ t ∈ c.table? name, ∀ x ∈ t.columns, x.nullable = false →
    ∀ r ∈ D.rows t, D.cell r x ≠ D.engine.null
  unique : ∀ name, ∀ t ∈ c.table? name, ∀ k ∈ t.keys, k.incomplete = false →
    ∀ r ∈ D.rows t, ∀ s ∈ D.rows t,
      (∀ x ∈ t.columnsAt k.columns, D.cell r x ≠ D.engine.null ∧ D.cell r x = D.cell s x) → r = s

/-- A row without nulls in a complete foreign key refers to some row. -/
def Store.HoldsReferences (D : Store R V) (c : Catalog) : Prop :=
  ∀ k ∈ c.foreignKeys, k.incomplete = false →
    ∀ o ∈ c.table? k.origin, ∀ t ∈ c.table? k.target, ∀ r ∈ D.rows o,
      (∀ x ∈ o.columnsAt k.originColumns, D.cell r x ≠ D.engine.null) →
      ∃ s ∈ D.rows t, ∀ p ∈ (o.columnsAt k.originColumns).zip (t.columnsAt k.targetColumns),
        D.cell r p.1 = D.cell s p.2

namespace Table

variable {t : Table} {keys : List ForeignKey} {positions : List Nat}

lemma length_columnsAt (h : ∀ i ∈ positions, i < t.columns.length) :
    (t.columnsAt positions).length = positions.length :=
  filterMap_length_eq_length.2 fun i hi => by simpa using h i hi

/-- Columns of a table are told apart by their positions. -/
theorem WellFormed.columnsAt_subset_iff (h : t.WellFormed keys) {k : UniqueKey} (hk : k ∈ t.keys) :
    t.columnsAt k.columns ⊆ t.columnsAt positions ↔ k.columns.all positions.contains := by
  rw [all_eq_true]
  constructor
  · intro hsub i hi
    obtain ⟨x, hx, -⟩ := (h.keys k hk).2 i hi
    obtain ⟨i', hi', hx'⟩ := mem_filterMap.1 (hsub (mem_filterMap.2 ⟨i, hi, hx⟩))
    rw [← h.index_eq hx, h.index_eq hx']
    exact contains_iff_mem.2 hi'
  · intro hall x hx
    obtain ⟨i, hi, hx⟩ := mem_filterMap.1 hx
    exact mem_filterMap.2 ⟨i, contains_iff_mem.1 (hall i hi), hx⟩

end Table

namespace Catalog

variable {c : Catalog} {reverse : Bool} {n : Nat} {j : Join}

lemma exists_of_join? (hj : c.join? reverse n = some j) :
    ∃ k ∈ c.foreignKeys, ∃ o t, c.table? k.origin = some o ∧ c.table? k.target = some t ∧
      Join.ofKey? c reverse k = some j := by
  obtain ⟨k, hk, hj⟩ := Option.bind_eq_some_iff.1 hj
  obtain ⟨o, ho, hrest⟩ := Option.bind_eq_some_iff.1 hj
  obtain ⟨t, ht, -⟩ := Option.bind_eq_some_iff.1 hrest
  exact ⟨k, mem_of_getElem? hk, o, t, ho, ht, hj⟩

/-- A join has as many columns of its target as of its origin, and is contracting if those of its target
cover a key, complete or not. -/
theorem WellFormed.join_sides (h : c.WellFormed) (hj : c.join? reverse n = some j) :
    (∃ name, c.table? name = some j.target) ∧ j.originColumns.length = j.targetColumns.length ∧
      (j.contracting ↔ ∃ k ∈ j.target.keys, j.target.columnsAt k.columns ⊆ j.targetColumns) := by
  obtain ⟨k, hk, o, t, ho, ht, hj⟩ := exists_of_join? hj
  obtain ⟨-, hlen, ⟨o', ho', hos⟩, t', ht', hts⟩ := h.joined k hk
  cases ho.symm.trans ho'
  cases ht.symm.trans ht'
  have hlength : (o.columnsAt k.originColumns).length = (t.columnsAt k.targetColumns).length := by
    rw [Table.length_columnsAt hos, Table.length_columnsAt hts, hlen]
  have hcovers : ∀ {name u} (positions : List Nat), c.table? name = some u → (Join.coversKey u positions ↔
        ∃ k ∈ u.keys, u.columnsAt k.columns ⊆ u.columnsAt positions) := by
    intro name u positions hu
    rw [Join.coversKey, any_eq_true]
    refine exists_congr fun k => and_congr_right fun hk => ?_
    exact ((h.of_table? hu).1.columnsAt_subset_iff hk).symm
  rw [Join.ofKey?, ho, ht] at hj
  cases reverse <;> cases hj
  · exact ⟨⟨_, ht⟩, hlength, hcovers _ ht⟩
  · exact ⟨⟨_, ho⟩, hlength.symm, hcovers _ ho⟩

end Catalog

namespace Store

variable {D : Store R V} {c : Catalog} {reverse : Bool} {n : Nat} {j : Join} [DecidableEq V]

lemma exists_meets (hkeys : D.HoldsKeys c) (hrefs : D.HoldsReferences c)
    (hj : c.join? reverse n = some j) (hexpands : j.expanding) {r : R} (hr : r ∈ D.rows j.origin) :
    ∃ s ∈ D.rows j.target, D.meets j r s := by
  obtain ⟨k, hk, o, t, ho, ht, hj⟩ := Catalog.exists_of_join? hj
  rw [Join.ofKey?, ho, ht] at hj
  cases reverse <;> cases hj
  · obtain ⟨hcomplete, hnull⟩ : k.incomplete = false ∧
        ∀ x ∈ o.columnsAt k.originColumns, x.nullable = false := by simpa using hexpands
    have hcells : ∀ x ∈ o.columnsAt k.originColumns, D.cell r x ≠ D.engine.null := fun x hx =>
      hkeys.notNull _ o ho x (o.columnsAt_subset _ hx) (hnull x hx) r hr
    obtain ⟨s, hs, hrs⟩ := hrefs k hk hcomplete o ho t ht r hr hcells
    exact ⟨s, hs, meets_iff.2 fun p hp => ⟨hcells p.1 (of_mem_zip hp).1, hrs p hp⟩⟩
  · cases hexpands

/-- The rows that a row meets agree on the target columns, without nulls. -/
theorem meets_agree (hlen : j.originColumns.length = j.targetColumns.length) {r s t : R}
    (hs : D.meets j r s) (ht : D.meets j r t) :
    ∀ x ∈ j.targetColumns, D.cell s x ≠ D.engine.null ∧ D.cell s x = D.cell t x := by
  intro x hx
  rw [← map_snd_zip hlen.ge] at hx
  obtain ⟨p, hp, rfl⟩ := mem_map.1 hx
  obtain ⟨hnull, heq⟩ := meets_iff.1 hs p hp
  rw [← heq]
  exact ⟨hnull, (meets_iff.1 ht p hp).2⟩

/-- Two rows of one table that differ outside the given columns only, and one row of each other table. -/
def doubled (t : Table) (columns : List Column) : Store Bool (Option (Option Bool)) :=
  .coarse (fun u => if u = t then [false, true] else [false]) (fun u => by split <;> decide)
    fun r x => some (some (!r || columns.contains x))

section Doubled

variable {t u : Table} {columns : List Column} {r s : Bool}

lemma false_mem_doubled : false ∈ (doubled t columns).rows u := by
  simp only [doubled, coarse]
  split <;> simp

lemma true_mem_doubled_iff : true ∈ (doubled t columns).rows u ↔ u = t := by
  simp only [doubled, coarse]
  split <;> simp_all

lemma doubled_cell_ne_null (r : Bool) (x : Column) :
    (doubled t columns).cell r x ≠ (doubled t columns).engine.null := nofun

lemma doubled_cell_eq_iff (x : Column) :
    (doubled t columns).cell true x = (doubled t columns).cell false x ↔ x ∈ columns := by
  simp [doubled, coarse]

lemma doubled_cell_eq (x y : Column) (h : r → y ∈ columns) :
    (doubled t columns).cell false x = (doubled t columns).cell r y := by
  cases r with
  | false => rfl
  | true => exact ((doubled_cell_eq_iff y).2 (h rfl)).symm

lemma doubled_meets (r : Bool) : (doubled j.target j.targetColumns).meets j false r :=
  meets_iff.2 fun _ hp =>
    ⟨doubled_cell_ne_null _ _, doubled_cell_eq _ _ fun _ => (of_mem_zip hp).2⟩

lemma doubled_holdsKeys (h : ∀ k ∈ t.keys, k.incomplete = false → ¬ t.columnsAt k.columns ⊆ columns) :
    (doubled t columns).HoldsKeys c where
  notNull _ _ _ x _ _ r _ := doubled_cell_ne_null r x
  unique name u hu k hk hcomplete r hr s hs hsame := by
    by_contra hrs
    have htrue : true ∈ (doubled t columns).rows u := by
      cases r <;> cases s <;> first | assumption | exact absurd rfl hrs
    obtain rfl := true_mem_doubled_iff.1 htrue
    refine h k hk hcomplete fun x hx => (doubled_cell_eq_iff (t := u) x).1 ?_
    have := (hsame x hx).2
    cases r <;> cases s <;> first | exact this | exact this.symm | exact absurd rfl hrs

lemma doubled_holdsReferences (h : ∀ k ∈ c.foreignKeys, c.table? k.origin = some t →
    t.columnsAt k.originColumns ⊆ columns) : (doubled t columns).HoldsReferences c := by
  intro k hk _ o ho u _ r hr _
  refine ⟨false, false_mem_doubled, fun p hp => ?_⟩
  refine (doubled_cell_eq p.2 p.1 fun htrue => ?_).symm
  subst htrue
  obtain rfl := true_mem_doubled_iff.1 hr
  exact h k hk ho (of_mem_zip hp).1

end Doubled

end Store

/-- An expanding join meets a row for each row. One is contracting if its target columns cover a key, but
it meets at most one row only where a complete key is covered: without one, some store has two, unless
foreign keys from other columns of the target prevent that. -/
theorem Catalog.join_flags {c : Catalog} (h : c.WellFormed) {reverse : Bool} {n : Nat} {j : Join}
    (hj : c.join? reverse n = some j) :
    (j.expanding → ∀ (R V : Type) [DecidableEq V] (D : Store R V), D.HoldsKeys c → D.HoldsReferences c →
      ∀ r ∈ D.rows j.origin, ∃ s ∈ D.rows j.target, D.meets j r s) ∧
    (j.contracting ↔ ∃ k ∈ j.target.keys, j.target.columnsAt k.columns ⊆ j.targetColumns) ∧
    ((∃ k ∈ j.target.keys, k.incomplete = false ∧ j.target.columnsAt k.columns ⊆ j.targetColumns) →
      ∀ (R V : Type) [DecidableEq V] (D : Store R V), D.HoldsKeys c → ∀ r ∈ D.rows j.origin,
        ∀ s ∈ D.rows j.target, ∀ t ∈ D.rows j.target, D.meets j r s → D.meets j r t → s = t) ∧
    ((∀ k ∈ c.foreignKeys, c.table? k.origin = some j.target →
        j.target.columnsAt k.originColumns ⊆ j.targetColumns) →
      (∀ k ∈ j.target.keys, k.incomplete = false → ¬ j.target.columnsAt k.columns ⊆ j.targetColumns) →
      ∃ (R V : Type) (_ : DecidableEq V) (D : Store R V), D.HoldsKeys c ∧ D.HoldsReferences c ∧
        ∃ r ∈ D.rows j.origin, ∃ s ∈ D.rows j.target, ∃ t ∈ D.rows j.target,
          D.meets j r s ∧ D.meets j r t ∧ s ≠ t) := by
  obtain ⟨⟨name, ht⟩, hlen, hcontracts⟩ := h.join_sides hj
  refine ⟨fun hexpands R V _ D hkeys hrefs r hr => Store.exists_meets hkeys hrefs hj hexpands hr,
    hcontracts, ?_, fun hforeign hnone => ?_⟩
  · rintro ⟨k, hk, hcomplete, hsub⟩ R V _ D hkeys r - s hs t ht' hrs hrt
    exact hkeys.unique name j.target ht k hk hcomplete s hs t ht' fun x hx =>
      Store.meets_agree hlen hrs hrt x (hsub hx)
  · exact ⟨Bool, _, inferInstance, .doubled j.target j.targetColumns, Store.doubled_holdsKeys hnone,
      Store.doubled_holdsReferences hforeign, false, Store.false_mem_doubled, false,
      Store.false_mem_doubled, true, Store.true_mem_doubled_iff.2 rfl, Store.doubled_meets _,
      Store.doubled_meets _, Bool.false_ne_true⟩

namespace Sample

/-- Departments refer to schools by a code that is unique in some schools only. -/
def looseSteps : List Catalog.Step :=
  [.schema "ad", .table ⟨"ad", "school"⟩, .column ⟨"ad", "school"⟩ "code" .text false false,
    .key ⟨"ad", "school"⟩ ["code"] false true, .table ⟨"ad", "department"⟩,
    .column ⟨"ad", "department"⟩ "school_code" .text false false,
    .foreignKey ⟨"ad", "department"⟩ ["school_code"] ⟨"ad", "school"⟩ ["code"] false]

end Sample

/-- The join is called contracting, but a department may meet two schools. -/
theorem Catalog.join_flags_loose : ∃ j, (run Sample.looseSteps).join? false 0 = some j ∧ j.contracting ∧
      ∃ (R V : Type) (_ : DecidableEq V) (D : Store R V), D.HoldsKeys (run Sample.looseSteps) ∧
        D.HoldsReferences (run Sample.looseSteps) ∧
        ∃ r ∈ D.rows j.origin, ∃ s ∈ D.rows j.target, ∃ t ∈ D.rows j.target,
          D.meets j r s ∧ D.meets j r t ∧ s ≠ t := by
  obtain ⟨j, hj⟩ : ∃ j, (run Sample.looseSteps).join? false 0 = some j := ⟨_, rfl⟩
  refine ⟨j, hj, ?_, (join_flags (.run _) hj).2.2.2 ?_ ?_⟩
  all_goals
    cases hj
    decide

end NavQuery
