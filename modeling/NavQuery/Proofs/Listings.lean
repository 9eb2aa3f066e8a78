import NavQuery.Proofs.KeptOnce
import NavQuery.Proofs.KeySeams

/-!
The order of a listing ends with keys for each axis that is not contracting. So rows that agree on all
codes of the order are the same, and a range is cut from a definite listing.
-/

namespace NavQuery

open List

namespace Space

variable {J : Join → Prop} {s : Space} {α : List Axis} {a : Axis} {t : Table}

/-- Items with the key columns of a table that ends the axes. -/
def ListsKey (J : Join → Prop) (α : List Axis) (t : Table) (items : List OrderItem) : Prop :=
  ∃ p m, p.IsBackbone J ∧ p.axes = α ∧ tableItems t p m ⊆ items

lemma ListsKey.mono {items items' : List OrderItem} (h : ListsKey J α t items) (hsub : items ⊆ items') :
    ListsKey J α t items' := by
  obtain ⟨p, m, hp, haxes, hitems⟩ := h
  exact ⟨p, m, hp, haxes, fun i hi => hsub (hitems hi)⟩

lemma listsKey_rowItems {b : Space} {z : Axis} {u : Table} {weak : Bool} {items : List OrderItem}
    (hs : s.IsChain J) (haxes : s.axes = b.axes ++ [z]) (hu : z.table? = some u)
    (hweak : z.contracting = false → weak) (hα : α ++ [a] <+: s.axes) (ha : a.table? = some t)
    (hc : a.contracting = false) (ih : α ++ [a] <+: b.axes → ListsKey J (α ++ [a]) t items) :
    ListsKey J (α ++ [a]) t (rowItems weak u s items) := by
  rw [haxes] at hα
  obtain heq | hα := prefix_concat_iff.1 hα
  · obtain rfl := singleton_inj.1 (append_inj' heq rfl).2
    cases hu.symm.trans ha
    refine ⟨s.axesOnly, s.mark, hs.axesOnly_isBackbone, ?_, ?_⟩
    · rw [hs.axes_axesOnly, heq, haxes]
    · rw [rowItems, if_pos (hweak hc), inflate_eq]
      exact subset_append_right _ _
  · exact (ih hα).mono (subset_append_left _ _)

/-- The order has the keys of each axis that is not contracting. -/
theorem IsChain.listsKey (h : s.IsChain J) (hα : α ++ [a] <+: s.axes) (ha : a.table? = some t)
    (hc : a.contracting = false) (strong : Bool) :
    ListsKey J (α ++ [a]) t (arrangeItems strong true s) := by
  induction h generalizing strong with
  | root m =>
    obtain rfl : a = .root := mem_singleton.1 (hα.subset (mem_append_right α mem_cons_self))
    cases ha
  | scalar m hb ih =>
    rw [arrangeItems]
    obtain heq | hα := prefix_concat_iff.1 hα
    · cases singleton_inj.1 (append_inj' heq rfl).2
      cases ha
    · exact ih hα strong
  | table m u hb fits ih =>
    rw [arrangeItems]
    exact listsKey_rowItems (.table m u hb fits) rfl rfl (fun _ => rfl) hα ha hc fun hα => ih hα strong
  | fiber m hb hj fits ih =>
    rw [arrangeItems]
    refine listsKey_rowItems (.fiber m hb hj fits) rfl rfl (fun hc => ?_) hα ha hc fun hα => ih hα strong
    simpa [Axis.contracting] using hc
  | filtered m f hb ih =>
    rw [arrangeItems]
    exact ih hα strong
  | ordered m os l o hb ih =>
    -- an explicit sort comes first, but keys of its base still follow
    rw [arrangeItems]
    exact (ih hα false).mono (subset_append_right _ _)

end Space

namespace Store

variable {R V : Type} {D : Store R V} {J : Join → Prop}

/-- The key tells the rows of the table apart. -/
def HoldsKey (D : Store R V) (t : Table) (k : UniqueKey) : Prop :=
  ∀ r ∈ D.rows t, ∀ s ∈ D.rows t, (∀ c ∈ t.columnsAt k.columns, D.cell r c = D.cell s c) → r = s

lemma eq_of_tableItems {t : Table} (hkey : ∃ k, t.Identifies k)
    (hholds : ∀ k, t.Identifies k → D.HoldsKey t k) {r s : R} (hr : r ∈ D.rows t) (hs : s ∈ D.rows t)
    {p : Space} {m : Mark}
    (h : ∀ c, (Code.ofColumn c p m, .ascending) ∈ Space.tableItems t p m → D.cell r c = D.cell s c) :
    r = s := by
  obtain ⟨k, hk, hcolumns⟩ := t.identifyingColumns_cases.resolve_right fun hnone =>
    hkey.elim hnone.2
  refine hholds k hk r hr s hs fun c hc => h c (mem_map_of_mem ?_)
  rw [hcolumns]
  split
  · exact t.columnsAt_subset _ hc
  · exact hc

end Store

namespace Space

variable {R V : Type} [DecidableEq R] [DecidableEq V] {J : Join → Prop}

theorem arrange_separates (D : Store R V) {s : Space} (hs : s.IsChain J) (hC : D.Contracts J)
    (hkeys : ∀ a ∈ s.axes, a.contracting = false → ∀ t ∈ a.table?,
      (∃ k, t.Identifies k) ∧ ∀ k, t.Identifies k → D.HoldsKey t k) :
    (s.arrange true true).Pairwise (fun i j => (i.1 == j.1) = false) ∧
    ∀ x ∈ D.tuples s, ∀ y ∈ D.tuples s, x ≠ y →
      ∃ i ∈ s.arrange true true, D.value i.1 s x ≠ D.value i.1 s y := by
  rw [arrange_eq]
  obtain ⟨-, -, hkept, hpair⟩ :=
    foldl_keep (fun j i : OrderItem => j.1 == i.1) (arrangeItems true true s) []
  refine ⟨hpair .nil, fun x hx y hy hne => ?_⟩
  by_contra! hsame
  have hitems : ∀ i ∈ arrangeItems true true s, D.value i.1 s x = D.value i.1 s y := by
    intro i hi
    obtain ⟨j, hj, rfl | hji⟩ := hkept i hi
    · exact hsame j hj
    · rw [← D.value_of_beq hji, ← D.value_of_beq hji]
      exact hsame j hj
  refine hne (Store.Fits.eq_of_entries hC (k := 0) hs.chained (Store.fits_of_mem hs hx)
    (Store.fits_of_mem hs hy) rfl fun i _ hi hc => ?_)
  have hsplit : s.axes.take (i + 1) = s.axes.take i ++ [s.axes.get ⟨i, hi⟩] :=
    take_succ_eq_append_getElem hi
  have hstart : s.axes.take i ++ [s.axes.get ⟨i, hi⟩] <+: s.axes := hsplit ▸ take_prefix _ _
  have hxlinks := (Store.fits_of_mem hs hx).links_get hi
  have hylinks := (Store.fits_of_mem hs hy).links_get hi
  cases ht : (s.axes.get ⟨i, hi⟩).table? with
  | none =>
    cases ha : s.axes.get ⟨i, hi⟩ with
    | root | scalar =>
      rw [ha] at hxlinks hylinks
      exact Eq.trans hxlinks (Eq.symm hylinks)
    | table t | fiber j =>
      rw [ha] at ht
      cases ht
  | some t =>
    obtain ⟨hkey, hholds⟩ := hkeys _ (get_mem ..) hc t ht
    obtain ⟨r, hr, hrx⟩ := hxlinks.sits t ht
    obtain ⟨r', hr', hry⟩ := hylinks.sits t ht
    obtain ⟨b, m, hb, haxes, hsub⟩ := hs.listsKey hstart ht hc true
    rw [hrx, hry]
    refine congrArg some (Store.eq_of_tableItems hkey hholds hr hr' (p := b) (m := m) fun c hc => ?_)
    have hvalue := hitems _ (hsub hc)
    have hlen : b.axes.length = i + 1 := by rw [haxes, ← hsplit, length_take, min_eq_left hi]
    rwa [Store.value_start hC hs hb (haxes ▸ hstart) hx, Store.value_start hC hs hb (haxes ▸ hstart) hy,
      hlen, hrx, hry] at hvalue

/-- Departments in the order of their schools: both are of the same school, and their codes tell them
apart. -/
theorem arrange_separates_schools :
    let s := ordered .nowhere Sample.schools [(.ofColumn Sample.schoolCode Sample.schools .nowhere, .ascending)]
      none none
    ∃ x ∈ Sample.store.tuples s, ∃ y ∈ Sample.store.tuples s,
      Sample.store.value (.ofColumn Sample.schoolCode Sample.schools .nowhere) s x =
        Sample.store.value (.ofColumn Sample.schoolCode Sample.schools .nowhere) s y ∧
      ∃ i ∈ s.arrange true true, Sample.store.value i.1 s x ≠ Sample.store.value i.1 s y := by
  refine ⟨[none, some (false, false), some (true, true)], by decide,
    [none, some (false, true), some (true, true)], by decide, by decide, ?_⟩
  refine (arrange_separates (J := (· = Sample.home)) Sample.store (.ordered _ _ _ _ Sample.schools_isChain)
    Sample.contracts ?_).2 _ (by decide) _ (by decide) (by decide)
  intro a ha hc t ht
  obtain rfl | rfl | rfl : a = .root ∨ a = .table Sample.department ∨ a = .fiber Sample.home := by
    simpa [Sample.schools, Sample.departments, axes] using ha
  · cases ht
  · obtain rfl := Option.some.inj ht
    refine ⟨⟨_, mem_singleton.2 rfl, .inl rfl⟩, fun k hk => ?_⟩
    obtain rfl := mem_singleton.1 hk.1
    unfold Store.HoldsKey
    decide
  · cases hc

end Space

end NavQuery
