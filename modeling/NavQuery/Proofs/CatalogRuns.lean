import Mathlib.Data.List.Nodup
import NavQuery.Catalog
import NavQuery.Proofs.Outcomes

/-!
What holds of a catalog whatever steps it was built by. A refused primary key has already made columns
not nullable, so such a step does not leave the catalog as it was.
-/

namespace NavQuery

open List

variable {t' : Table} {origin target : TableName} {originColumns targetColumns : List Text}
  {incomplete : Bool}

namespace Table

/-- A table of a catalog with the given foreign keys. -/
structure WellFormed (foreignKeys : List ForeignKey) (t : Table) : Prop where
  names : (t.columns.map (·.name)).Nodup
  placed : t.columns.map (·.index) = range t.columns.length
  owned : ∀ c ∈ t.columns, c.owner = t.name
  primary : t.keys.countP (·.primary) ≤ 1
  keys : ∀ k ∈ t.keys, k.columns ≠ [] ∧ ∀ i ∈ k.columns,
    ∃ c, t.columns[i]? = some c ∧ (k.primary → c.nullable = false)
  outgoing : t.outgoing = (foreignKeys.filter (·.origin = t.name)).map (·.number)
  referring : t.referring = (foreignKeys.filter (·.target = t.name)).map (·.number)

variable {t : Table} {foreignKeys : List ForeignKey} {c : Column} {i : Nat} {name : Text}

lemma WellFormed.index_eq (h : t.WellFormed foreignKeys) (hc : t.columns[i]? = some c) : c.index = i := by
  have hi := (List.getElem?_eq_some_iff.1 hc).1
  have hplaced : (t.columns.map (·.index))[i]? = some i := by rw [h.placed, getElem?_range hi]
  simpa [hc] using hplaced

lemma WellFormed.index_lt (h : t.WellFormed foreignKeys)
    (hc : t.column? name = some c) : c.index < t.columns.length := by
  obtain ⟨i, hi⟩ := mem_iff_getElem?.1 (mem_of_find?_eq_some hc)
  exact h.index_eq hi ▸ (List.getElem?_eq_some_iff.1 hi).1

lemma WellFormed.position_lt (h : t.WellFormed foreignKeys)
    (hi : t.position name = .ok i) : i < t.columns.length := by
  unfold Table.position at hi
  split at hi
  · cases hi
  next c hc =>
    cases hi
    exact h.index_lt hc

lemma WellFormed.addColumn (h : t.WellFormed foreignKeys)
    {domain : Domain} {nullable hasDefault : Bool}
    (ht : t.addColumn name domain nullable hasDefault = .ok t') :
    t'.WellFormed foreignKeys ∧ t'.name = t.name ∧ t.columns.length ≤ t'.columns.length := by
  unfold Table.addColumn at ht
  split at ht
  · cases ht
  next hnew =>
    cases ht
    refine ⟨⟨?_, ?_, ?_, h.primary, ?_, h.outgoing, h.referring⟩, rfl, by simp⟩
    · have hfresh : ∀ c ∈ t.columns, c.name ≠ name := by
        simpa [column?] using hnew
      simpa [nodup_append, h.names] using hfresh
    · simp [h.placed, range_succ]
    · simpa [or_imp, forall_and] using h.owned
    · intro k hk
      refine ⟨(h.keys k hk).1, fun i hi => ?_⟩
      obtain ⟨c, hc, hnull⟩ := (h.keys k hk).2 i hi
      exact ⟨c, by rw [getElem?_append_left (List.getElem?_eq_some_iff.1 hc).1, hc], hnull⟩

/-- The table with the columns at the given positions made not nullable. -/
def require (t : Table) (positions : List Nat) : Table :=
  { t with columns := t.columns.map fun c =>
      if c.index ∈ positions then { c with nullable := false } else c }

lemma require_require (t : Table) (first second : List Nat) :
    (t.require first).require second = t.require (first ++ second) := by
  simp only [require, map_map, Table.mk.injEq, true_and, and_true]
  refine map_congr_left fun c _ => ?_
  by_cases h : c.index ∈ first <;> by_cases h' : c.index ∈ second <;> simp [h]

lemma WellFormed.require (h : t.WellFormed foreignKeys) (positions : List Nat) :
    (t.require positions).WellFormed foreignKeys where
  names := by
    convert h.names using 1
    simp only [Table.require, map_map]
    exact map_congr_left fun c _ => by dsimp; split <;> rfl
  placed := by
    rw [Table.require, length_map, ← h.placed, map_map]
    exact map_congr_left fun c _ => by dsimp; split <;> rfl
  owned := by
    simp only [Table.require, forall_mem_map]
    exact fun c hc => by split <;> exact h.owned c hc
  primary := h.primary
  keys k hk := by
    refine ⟨(h.keys k hk).1, fun i hi => ?_⟩
    obtain ⟨c, hc, hnull⟩ := (h.keys k hk).2 i hi
    refine ⟨_, by rw [Table.require, getElem?_map, hc]; rfl, fun hk => ?_⟩
    dsimp only
    split
    · rfl
    · exact hnull hk
  outgoing := h.outgoing
  referring := h.referring

/-- Resolving a key may change nothing but which columns are nullable, and when it succeeds the columns
of a primary key are not. -/
theorem WellFormed.resolveKey (h : t.WellFormed foreignKeys) (primary : Bool) (names : List Text) :
    ∃ required, (t.resolveKey primary names).1 = t.require required ∧
      ∀ positions, (t.resolveKey primary names).2 = .ok positions → positions.length = names.length ∧
          ∀ i ∈ positions, i < t.columns.length ∧ (primary → i ∈ required) := by
  have hnone : t.require [] = t := by simp [Table.require]
  induction names generalizing t with
  | nil => exact ⟨[], hnone.symm, by simp [Table.resolveKey]⟩
  | cons name names ih =>
    unfold Table.resolveKey
    split
    · exact ⟨[], hnone.symm, by simp⟩
    next c hc =>
      have hstep : (if primary then t.requireColumn c.index else t) =
          t.require (if primary then [c.index] else []) := by
        cases primary <;> simp [requireColumn, Table.require]
      obtain ⟨required, heq, hok⟩ := ih (h.require (if primary then [c.index] else []))
        (by simp [Table.require])
      rw [hstep]
      refine ⟨_, heq.trans (require_require ..), fun positions hp => ?_⟩
      obtain ⟨rest, hrest, rfl⟩ := exists_of_map_eq_ok hp
      obtain ⟨hlength, hall⟩ := hok rest hrest
      refine ⟨by simp [hlength], forall_mem_cons.2 ⟨⟨h.index_lt hc, by simp +contextual⟩, fun i hi => ?_⟩⟩
      exact ⟨by simpa [Table.require] using (hall i hi).1,
        fun hp => mem_append_right _ ((hall i hi).2 hp)⟩

lemma WellFormed.addKey (h : t.WellFormed foreignKeys) (columns : List Text) (primary incomplete : Bool) :
    (t.addKey columns primary incomplete).1.WellFormed foreignKeys ∧
      (t.addKey columns primary incomplete).1.name = t.name ∧
        t.columns.length ≤ (t.addKey columns primary incomplete).1.columns.length := by
  obtain ⟨required, heq, hok⟩ := h.resolveKey primary columns
  have hrequired := h.require required
  have hlength : (t.require required).columns.length = t.columns.length := length_map ..
  unfold Table.addKey
  split
  · exact ⟨h, rfl, Nat.le_refl _⟩
  next hsome =>
  split
  · exact ⟨h, rfl, Nat.le_refl _⟩
  next hfirst =>
  split
  next t' violation hkey =>
    rw [hkey] at heq
    subst heq
    exact ⟨hrequired, rfl, Nat.le_of_eq hlength.symm⟩
  next t' positions hkey =>
    rw [hkey] at heq hok
    subst heq
    obtain ⟨hcount, hall⟩ := hok positions rfl
    refine ⟨{ hrequired with primary := ?_, keys := ?_ }, rfl, Nat.le_of_eq hlength.symm⟩
    · have hnone : primary → ∀ k ∈ t.keys, ¬k.primary := by
        simpa [primaryKey?] using hfirst
      cases primary with
      | false => simpa [Table.require] using h.primary
      | true => simp [countP_eq_zero.2 (hnone rfl), Table.require]
    · refine forall_mem_append.2 ⟨hrequired.keys, forall_mem_singleton.2 ⟨?_, fun i hi => ?_⟩⟩
      · rintro rfl
        exact hsome (isEmpty_iff.2 (length_eq_zero_iff.1 hcount.symm))
      · obtain ⟨hi, hmem⟩ := hall i hi
        obtain ⟨c, hc⟩ : ∃ c, t.columns[i]? = some c := ⟨_, getElem?_eq_getElem hi⟩
        refine ⟨_, by rw [Table.require, getElem?_map, hc]; rfl, fun hp => ?_⟩
        simp [h.index_eq hc, hmem hp]

end Table

namespace Catalog

variable {c : Catalog}

/-- Some table has the name, and the positions are those of columns of it. -/
def Holds (c : Catalog) (name : TableName) (positions : List Nat) : Prop :=
  ∃ t, c.table? name = some t ∧ ∀ i ∈ positions, i < t.columns.length

/-- As many columns of the origin as of the target, and at least one. -/
def Joins (c : Catalog) (k : ForeignKey) : Prop :=
  k.originColumns ≠ [] ∧ k.originColumns.length = k.targetColumns.length ∧
    c.Holds k.origin k.originColumns ∧ c.Holds k.target k.targetColumns

structure WellFormed (c : Catalog) : Prop where
  schemas : (c.schemas.map (·.name)).Nodup
  tables : ∀ s ∈ c.schemas, (s.tables.map (·.name.table)).Nodup ∧
    ∀ t ∈ s.tables, t.name.schema = s.name ∧ t.WellFormed c.foreignKeys
  numbered : c.foreignKeys.map (·.number) = range c.foreignKeys.length
  joined : ∀ k ∈ c.foreignKeys, c.Joins k

variable {t : Table} {name : TableName} {c' : Catalog} {k : ForeignKey} {f : Table → Table}
  {keys : List ForeignKey}

lemma table?_eq_some_iff : c.table? name = some t ↔
    ∃ s, c.schemas.find? (·.name == name.schema) = some s ∧
      s.tables.find? (·.name.table == name.table) = some t := by
  simp [table?, schema?, Schema.table?, Option.bind_eq_some_iff]

lemma WellFormed.of_table? (h : c.WellFormed)
    (ht : c.table? name = some t) : t.WellFormed c.foreignKeys ∧ t.name = name := by
  obtain ⟨s, hs, ht⟩ := table?_eq_some_iff.1 ht
  have hschema : s.name = name.schema := by simpa using find?_some hs
  have htable : t.name.table = name.table := by simpa using find?_some ht
  obtain ⟨howner, hformed⟩ := (h.tables s (mem_of_find?_eq_some hs)).2 t (mem_of_find?_eq_some ht)
  exact ⟨hformed, TableName.mk.injEq .. |>.mpr ⟨howner.trans hschema, htable⟩⟩

/-- The tables of one catalog are found in the other, with all their columns. -/
def Within (c c' : Catalog) : Prop :=
  ∀ name t, c.table? name = some t → ∃ t', c'.table? name = some t' ∧ t.columns.length ≤ t'.columns.length

lemma Joins.mono (h : c.Joins k) (hc : c.Within c') : c'.Joins k := by
  have hholds {name : TableName} {positions : List Nat} (h : c.Holds name positions) :
      c'.Holds name positions := by
    obtain ⟨t, ht, hall⟩ := h
    obtain ⟨t', ht', hle⟩ := hc name t ht
    exact ⟨t', ht', fun i hi => Nat.lt_of_lt_of_le (hall i hi) hle⟩
  exact ⟨h.1, h.2.1, hholds h.2.2.1, hholds h.2.2.2⟩

def mapTables (c : Catalog) (f : Table → Table) : Catalog :=
  { c with schemas := c.schemas.map fun s => { s with tables := s.tables.map f } }

lemma table?_mapTables (hf : ∀ t, (f t).name = t.name) (name : TableName) :
    (c.mapTables f).table? name = (c.table? name).map f := by
  have htable (s : Schema) : ({ s with tables := s.tables.map f } : Schema).table? name.table =
      (s.table? name.table).map f := by
    simp only [Schema.table?, find?_map, Function.comp_def, hf]
  have hschema : (c.mapTables f).schema? name.schema =
      (c.schema? name.schema).map fun s => { s with tables := s.tables.map f } := by
    simp only [schema?, mapTables, find?_map, Function.comp_def]
  simp only [table?, hschema]
  cases c.schema? name.schema with
  | none => rfl
  | some s => exact htable s

/-- Tables may be replaced by well-formed ones that keep their names and have no fewer columns, while
the catalog gets foreign keys over tables that it holds. -/
theorem WellFormed.mapTables (h : c.WellFormed) (keys : List ForeignKey)
    (hname : ∀ t, (f t).name = t.name)
    (hformed : ∀ t, t.WellFormed c.foreignKeys → (f t).WellFormed keys)
    (hlength : ∀ name t, c.table? name = some t → t.columns.length ≤ (f t).columns.length)
    (hnumbered : keys.map (·.number) = range keys.length)
    (hjoined : ∀ k ∈ keys, c.Joins k) :
    ({ c.mapTables f with foreignKeys := keys } : Catalog).WellFormed := by
  have hwithin : c.Within { c.mapTables f with foreignKeys := keys } := fun name t ht =>
    ⟨f t, (table?_mapTables hname name).trans (by rw [ht]; rfl), hlength name t ht⟩
  refine ⟨?_, ?_, hnumbered, fun k hk => (hjoined k hk).mono hwithin⟩
  · simpa [Catalog.mapTables, Function.comp_def] using h.schemas
  · simp only [Catalog.mapTables, forall_mem_map, map_map, Function.comp_def, hname]
    exact fun s hs => ⟨(h.tables s hs).1, fun t ht =>
      ⟨((h.tables s hs).2 t ht).1, hformed t ((h.tables s hs).2 t ht).2⟩⟩

/-- One table is replaced by a well-formed one. -/
theorem WellFormed.mapTable (h : c.WellFormed)
    (ht : c.table? name = some t) (hformed : t'.WellFormed c.foreignKeys) (hname : t'.name = t.name)
    (hlength : t.columns.length ≤ t'.columns.length) :
    (c.mapTable name fun _ => t').WellFormed := by
  have hat := (h.of_table? ht).2
  refine h.mapTables c.foreignKeys (fun u => ?_) (fun u hu => ?_) (fun m u hu => ?_) h.numbered h.joined
  · split
    next heq => rw [hname, hat, heq]
    next => rfl
  · split
    · exact hformed
    · exact hu
  · split
    next heq =>
      obtain rfl : m = name := (h.of_table? hu).2.symm.trans heq
      rwa [Option.some.inj (hu.symm.trans ht)]
    next => exact Nat.le_refl _

lemma addSchema_keeps {name : Text} (hc : c.addSchema name = .ok c') :
    c'.foreignKeys = c.foreignKeys ∧ ∀ m t, c.table? m = some t → c'.table? m = some t := by
  unfold Catalog.addSchema at hc
  split at hc <;> cases hc
  refine ⟨rfl, fun m t ht => ?_⟩
  obtain ⟨s, hs, ht⟩ := table?_eq_some_iff.1 ht
  exact table?_eq_some_iff.2 ⟨s, by simp [hs], ht⟩

lemma WellFormed.addSchema (h : c.WellFormed) {name : Text}
    (hc : c.addSchema name = .ok c') : c'.WellFormed := by
  have hwithin : c.Within c' := fun m t ht => ⟨t, (addSchema_keeps hc).2 m t ht, Nat.le_refl _⟩
  unfold Catalog.addSchema at hc
  split at hc
  · cases hc
  next hnew =>
    cases hc
    refine ⟨?_, ?_, h.numbered, fun k hk => (h.joined k hk).mono hwithin⟩
    · have hfresh : ∀ s ∈ c.schemas, s.name ≠ name := by
        simpa [schema?] using hnew
      simpa [nodup_append, h.schemas] using hfresh
    · exact forall_mem_append.2 ⟨h.tables, forall_mem_singleton.2 ⟨nodup_nil, nofun⟩⟩

lemma addTable_keeps (hc : c.addTable name = .ok c') :
    c'.foreignKeys = c.foreignKeys ∧ ∀ m t, c.table? m = some t → c'.table? m = some t := by
  unfold Catalog.addTable at hc
  split at hc
  · cases hc
  split at hc <;> cases hc
  refine ⟨rfl, fun m t ht => ?_⟩
  obtain ⟨s, hs, ht⟩ := table?_eq_some_iff.1 ht
  rw [table?_eq_some_iff]
  simp only [find?_map, Function.comp_def, apply_ite Schema.name, ite_self, hs, Option.map_some]
  refine ⟨_, rfl, ?_⟩
  split
  · simp [ht]
  · exact ht

lemma WellFormed.addTable (h : c.WellFormed) (hc : c.addTable name = .ok c') : c'.WellFormed := by
  have hwithin : c.Within c' := fun m t ht => ⟨t, (addTable_keeps hc).2 m t ht, Nat.le_refl _⟩
  unfold Catalog.addTable at hc
  split at hc
  · cases hc
  next owner howner =>
  split at hc
  · cases hc
  next hnew =>
  cases hc
  have hnone : c.table? name = none := by simpa [table?, howner] using hnew
  have hunlisted : ∀ k ∈ c.foreignKeys, k.origin ≠ name ∧ k.target ≠ name := by
    intro k hk
    obtain ⟨-, -, ⟨o, ho, -⟩, t, ht, -⟩ := h.joined k hk
    constructor <;> rintro rfl
    · cases hnone.symm.trans ho
    · cases hnone.symm.trans ht
  refine ⟨?_, ?_, h.numbered, fun k hk => (h.joined k hk).mono hwithin⟩
  · simpa [Function.comp_def, apply_ite Schema.name] using h.schemas
  · simp only [forall_mem_map]
    intro s hs
    obtain ⟨hnodup, hall⟩ := h.tables s hs
    split
    next hname =>
      refine ⟨?_, forall_mem_append.2 ⟨hall, forall_mem_singleton.2 ⟨hname.symm, ?_⟩⟩⟩
      · have hfresh : ∀ t ∈ s.tables, t.name.table ≠ name.table := by
          have howner' : owner.name = name.schema := by simpa using find?_some howner
          obtain rfl : s = owner := inj_on_of_nodup_map h.schemas hs (mem_of_find?_eq_some howner)
            (hname.trans howner'.symm)
          simpa [Schema.table?] using hnew
        simpa [nodup_append, hnodup] using hfresh
      · refine ⟨nodup_nil, rfl, nofun, Nat.zero_le _, nofun, ?_, ?_⟩
        · rw [filter_eq_nil_iff.2 fun k hk => by simpa using (hunlisted k hk).1, map_nil]
        · rw [filter_eq_nil_iff.2 fun k hk => by simpa using (hunlisted k hk).2, map_nil]
    next => exact ⟨hnodup, hall⟩

lemma registered_eq (tail : ForeignKey → TableName) (k : ForeignKey) {numbers : List Nat}
    (h : numbers = (keys.filter (tail · = name)).map (·.number)) :
    (if name = tail k then numbers ++ [k.number] else numbers) =
      ((keys ++ [k]).filter (tail · = name)).map (·.number) := by
  by_cases hk : tail k = name
  · simp [hk, h]
  · simp [hk, h, Ne.symm hk]

lemma addForeignKey_eq
    (hc : c.addForeignKey origin originColumns target targetColumns incomplete = .ok c') :
    ∃ o t origins targets, c.table? origin = some o ∧ c.table? target = some t ∧
      originColumns ≠ [] ∧ originColumns.length = targetColumns.length ∧
      originColumns.mapM o.position = .ok origins ∧ targetColumns.mapM t.position = .ok targets ∧
      c' = { c.mapTables fun t => { t with
          outgoing := if t.name = origin then t.outgoing ++ [c.foreignKeys.length] else t.outgoing
          referring := if t.name = target then t.referring ++ [c.foreignKeys.length] else t.referring } with
        foreignKeys := c.foreignKeys ++
          [⟨c.foreignKeys.length, origin, origins, target, targets, incomplete⟩] } := by
  unfold Catalog.addForeignKey at hc
  split at hc
  next o t ho ht =>
    split at hc
    · cases hc
    next hcolumns =>
    obtain ⟨hne, hlength⟩ : originColumns ≠ [] ∧ originColumns.length = targetColumns.length := by
      simpa using hcolumns
    obtain ⟨origins, horigins, hc⟩ := exists_of_bind_eq_ok hc
    obtain ⟨targets, htargets, hc⟩ := exists_of_bind_eq_ok hc
    cases hc
    refine ⟨o, t, origins, targets, ho, ht, hne, hlength, horigins, htargets, ?_⟩
    simp only [Catalog.mapTable, map_map, Catalog.mk.injEq, and_true]
    refine map_congr_left fun s _ => ?_
    simp only [Function.comp_apply, map_map, Schema.mk.injEq, true_and]
    refine map_congr_left fun t _ => ?_
    by_cases ho : t.name = origin <;> by_cases ht : t.name = target <;> simp_all
  · cases hc

lemma WellFormed.addForeignKey (h : c.WellFormed)
        (hc : c.addForeignKey origin originColumns target targetColumns incomplete = .ok c') :
    c'.WellFormed := by
  obtain ⟨o, t, origins, targets, ho, ht, hne, hlength, horigins, htargets, rfl⟩ := addForeignKey_eq hc
  have ho' := (forall₂_of_mapM_eq_ok horigins).length_eq
  have ht' := (forall₂_of_mapM_eq_ok htargets).length_eq
  refine h.mapTables (c.foreignKeys ++ [_]) (fun _ => rfl) (fun u hu => ?_)
    (fun _ _ _ => Nat.le_refl _) ?_ ?_
  · exact { hu with
      outgoing := registered_eq (·.origin) ⟨_, _, _, _, _, _⟩ hu.outgoing
      referring := registered_eq (·.target) ⟨_, _, _, _, _, _⟩ hu.referring }
  · simp [h.numbered, range_succ]
  · refine forall_mem_append.2 ⟨h.joined, forall_mem_singleton.2 ⟨?_, ?_,
      ⟨o, ho, forall_of_mapM_eq_ok horigins fun _ _ => (h.of_table? ho).1.position_lt⟩,
      ⟨t, ht, forall_of_mapM_eq_ok htargets fun _ _ => (h.of_table? ht).1.position_lt⟩⟩⟩
    · rw [← length_pos_iff] at hne ⊢
      exact ho' ▸ hne
    · exact ho'.symm.trans (hlength.trans ht')

/-- A build step keeps a catalog well formed, also one that is refused. -/
theorem WellFormed.apply (h : c.WellFormed) (step : Step) : (c.apply step).1.WellFormed := by
  have hsettle {x : Except Violation Catalog} (hx : ∀ c', x = .ok c' → c'.WellFormed) :
      (c.settle x).1.WellFormed := by
    cases x with
    | error _ => exact h
    | ok c' => exact hx c' rfl
  cases step with
  | schema name => exact hsettle fun _ hc => h.addSchema hc
  | table name => exact hsettle fun _ hc => h.addTable hc
  | column table name domain nullable hasDefault =>
    simp only [Catalog.apply]
    split
    · exact h
    next t ht =>
      refine hsettle fun c' hc => ?_
      obtain ⟨t', ht', rfl⟩ := exists_of_map_eq_ok hc
      obtain ⟨hformed, hname, hlength⟩ := (h.of_table? ht).1.addColumn ht'
      exact h.mapTable ht hformed hname hlength
  | key table columns primary incomplete =>
    simp only [Catalog.apply]
    split
    · exact h
    next t ht =>
      obtain ⟨hformed, hname, hlength⟩ := (h.of_table? ht).1.addKey columns primary incomplete
      exact h.mapTable ht hformed hname hlength
  | foreignKey origin originColumns target targetColumns incomplete =>
    exact hsettle fun _ hc => h.addForeignKey hc

/-- The catalog after a run of build steps, whether they are accepted or not. -/
def run (steps : List Step) : Catalog := steps.foldl (fun c step => (c.apply step).1) .empty

lemma WellFormed.run (steps : List Step) : (run steps).WellFormed :=
  foldlRecOn steps _ ⟨nodup_nil, nofun, rfl, nofun⟩ fun _ h step _ => h.apply step

/-- A foreign key is listed once among those of its end. -/
theorem count_registered (tail : ForeignKey → TableName)
    (h : keys.map (·.number) = range keys.length) (hk : k ∈ keys) :
    ((keys.filter (tail · = tail k)).map (·.number)).count k.number = 1 := by
  have hnodup : (keys.map (·.number)).Nodup := h ▸ nodup_range
  exact count_eq_one_of_mem (hnodup.sublist (filter_sublist.map _))
    (mem_map_of_mem (mem_filter.2 ⟨hk, by simp⟩))

theorem wellFormed_run (steps : List Step) : (run steps).WellFormed ∧
    ∀ k ∈ (run steps).foreignKeys, ∃ o t, (run steps).table? k.origin = some o ∧
      (run steps).table? k.target = some t ∧ o.outgoing.count k.number = 1 ∧
        t.referring.count k.number = 1 := by
  have hrun := WellFormed.run steps
  refine ⟨hrun, fun k hk => ?_⟩
  obtain ⟨-, -, ⟨o, ho, -⟩, t, ht, -⟩ := hrun.joined k hk
  obtain ⟨hformed, hname⟩ := hrun.of_table? ho
  obtain ⟨hformed', hname'⟩ := hrun.of_table? ht
  refine ⟨o, t, ho, ht, ?_, ?_⟩
  · rw [hformed.outgoing, hname]
    exact count_registered (·.origin) hrun.numbered hk
  · rw [hformed'.referring, hname']
    exact count_registered (·.target) hrun.numbered hk

end Catalog

end NavQuery
