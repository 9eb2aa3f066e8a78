import NavQuery.Proofs.Tuples

/-!
A tuple of a chain without filters and sorts fits its axes entry by entry, so it can be cut at any axis
and put together again. Behind contracting axes there is at most one way to go on, behind expanding axes
at least one.
-/

namespace NavQuery

open List

namespace Axis

def Starts (J : Join → Prop) (t : Option Table) : Axis → Prop
  | fiber j => J j ∧ t = some j.origin
  | _ => True

end Axis

def tableAfter : Option Table → List Axis → Option Table
  | t, [] => t
  | _, a :: as => tableAfter a.table? as

def Chained (J : Join → Prop) : Option Table → List Axis → Prop
  | _, [] => True
  | t, a :: as => a.Starts J t ∧ Chained J a.table? as

lemma tableAfter_append (t : Option Table) (α β : List Axis) :
    tableAfter t (α ++ β) = tableAfter (tableAfter t α) β := by
  induction α generalizing t with
  | nil => rfl
  | cons a as ih => exact ih _

lemma chained_append {J : Join → Prop} {t : Option Table} {α β : List Axis} :
    Chained J t (α ++ β) ↔ Chained J t α ∧ Chained J (tableAfter t α) β := by
  induction α generalizing t with
  | nil => simp [Chained, tableAfter]
  | cons a as ih => simp [Chained, tableAfter, ih, and_assoc]

def Tuple.lastAfter {R : Type} (p : Option R) (x : Tuple R) : Option R := x.getLast?.getD p

namespace Tuple

variable {R : Type}

@[simp] lemma lastAfter_nil (p : Option R) : lastAfter p [] = p := rfl

@[simp] lemma lastAfter_cons (p e : Option R) (x : Tuple R) : lastAfter p (e :: x) = lastAfter e x := by
  simp [lastAfter, getLast?_cons]

@[simp] lemma lastAfter_append_singleton (p e : Option R) (x : Tuple R) : lastAfter p (x ++ [e]) = e := by
  simp [lastAfter]

lemma last_eq_lastAfter (x : Tuple R) : x.last = lastAfter none x := by
  cases h : x.getLast? <;> simp [last, lastAfter, h]

@[simp] lemma last_append_singleton (x : Tuple R) (e : Option R) : last (x ++ [e]) = e := by
  simp [last]

end Tuple

namespace Store

variable {R V : Type} [DecidableEq V] (D : Store R V) {J : Join → Prop}

def Links (p : Option R) : Axis → Option R → Prop
  | .root, e | .scalar, e => e = none
  | .table t, e => ∃ r ∈ D.rows t, e = some r
  | .fiber j, e => ∃ r ∈ D.rows j.target, e = some r ∧ p.any (D.meets j · r) = true

def Fits : Option R → List Axis → Tuple R → Prop
  | _, [], x => x = []
  | _, _ :: _, [] => False
  | p, a :: as, e :: x => D.Links p a e ∧ Fits e as x

def Sits (t : Option Table) (p : Option R) : Prop := ∀ u ∈ t, ∃ r ∈ D.rows u, p = some r

variable {D} {x : Tuple R} {α : List Axis} {p : Option R} {a : Axis} {t : Option Table}

lemma Fits.length_eq (h : D.Fits p α x) : x.length = α.length := by
  induction α generalizing p x with
  | nil => simp [show x = [] from h]
  | cons a as ih =>
    cases x with
    | nil => exact h.elim
    | cons e x => simp [ih h.2]

variable {z y : Tuple R} {e : Option R}

lemma fits_append {β : List Axis} : D.Fits p (α ++ β) z ↔
      ∃ x y, z = x ++ y ∧ D.Fits p α x ∧ D.Fits (Tuple.lastAfter p x) β y := by
  induction α generalizing p z with
  | nil => simp [Fits]
  | cons a as ih =>
    cases z with
    | nil => simp [Fits]
    | cons e z =>
      simp only [cons_append, Fits, ih]
      constructor
      · rintro ⟨he, x, y, rfl, hx, hy⟩
        exact ⟨e :: x, y, rfl, ⟨he, hx⟩, by simpa using hy⟩
      · rintro ⟨x, y, hz, hx, hy⟩
        cases x with
        | nil => exact hx.elim
        | cons e' x =>
          obtain ⟨rfl, rfl⟩ := List.cons.inj hz
          exact ⟨hx.1, x, y, rfl, hx.2, by simpa using hy⟩

lemma fits_append_singleton : D.Fits p (α ++ [a]) z ↔
      ∃ x e, z = x ++ [e] ∧ D.Fits p α x ∧ D.Links (Tuple.lastAfter p x) a e := by
  rw [fits_append]
  constructor
  · rintro ⟨x, y, rfl, hx, hy⟩
    match y, hy with
    | [e], hy => exact ⟨x, e, rfl, hx, hy.1⟩
  · rintro ⟨x, e, rfl, hx, he⟩
    exact ⟨x, [e], rfl, hx, he, rfl⟩

lemma Fits.split (h : D.Fits p α x) (k : Nat) : D.Fits p (α.take k) (x.take k) ∧
      D.Fits (Tuple.lastAfter p (x.take k)) (α.drop k) (x.drop k) := by
  rw [← take_append_drop k α, fits_append] at h
  obtain ⟨y, z, rfl, hy, hz⟩ := h
  have hlen := hy.length_eq
  by_cases hk : k ≤ α.length
  · have hyk : y.length = k := by simpa [hk] using hlen
    subst hyk
    simpa using ⟨hy, hz⟩
  · have hα : α.length ≤ k := by omega
    rw [drop_eq_nil_of_le hα] at hz
    obtain rfl : z = [] := hz
    have hy' : y.length ≤ k := by rw [hlen]; simp [hα]
    simp only [append_nil, take_of_length_le hy', drop_eq_nil_of_le hα, drop_eq_nil_of_le hy']
    exact ⟨hy, rfl⟩

omit [DecidableEq V] in
lemma sits_none (p : Option R) : D.Sits none p := fun _ h => nomatch h

lemma Links.sits (h : D.Links p a e) : D.Sits a.table? e := by
  intro u hu
  cases a with
  | root | scalar => cases hu
  | table t =>
    cases hu
    exact h
  | fiber j =>
    cases hu
    obtain ⟨r, hr, he, -⟩ := h
    exact ⟨r, hr, he⟩

lemma Fits.sits (h : D.Fits p α x) (hp : D.Sits t p) : D.Sits (tableAfter t α) (Tuple.lastAfter p x) := by
  induction α generalizing t p x with
  | nil =>
    obtain rfl : x = [] := h
    exact hp
  | cons a as ih =>
    cases x with
    | nil => exact h.elim
    | cons e x => simpa [tableAfter] using ih h.2 h.1.sits

lemma Links.eq_of_contracting (hD : D.Contracts J) {f : Option R} (hp : D.Sits t p) (ha : a.Starts J t) (hc : a.contracting)
    (he : D.Links p a e) (hf : D.Links p a f) : e = f := by
  cases a with
  | root | table _ => cases hc
  | scalar => exact Eq.trans he (Eq.symm hf)
  | fiber j =>
    obtain ⟨hj, rfl⟩ := ha
    obtain ⟨r, hr, rfl⟩ := hp _ rfl
    obtain ⟨s, hs, rfl, hrs⟩ := he
    obtain ⟨u, hu, rfl, hru⟩ := hf
    exact congrArg some (hD j hj hc r hr s hs u hu hrs hru)

/-- Behind an entry there is at most one way along contracting axes. -/
theorem Fits.eq_of_contracting (hD : D.Contracts J) (hp : D.Sits t p) (hα : Chained J t α)
    (hc : ∀ a ∈ α, a.contracting) (hx : D.Fits p α x) (hy : D.Fits p α y) : x = y := by
  induction α generalizing t p x y with
  | nil => exact Eq.trans hx (Eq.symm hy)
  | cons a as ih =>
    cases x with
    | nil => exact hx.elim
    | cons e x =>
      cases y with
      | nil => exact hy.elim
      | cons f y =>
        obtain rfl := hx.1.eq_of_contracting hD hp hα.1 (hc a mem_cons_self) hy.1
        rw [ih hx.1.sits hα.2 (fun b hb => hc b (mem_cons_of_mem a hb)) hx.2 hy.2]

/-- Behind an entry there is at least one way along expanding axes. -/
theorem Fits.exists_of_expanding (hD : D.Expands J) (hp : D.Sits t p) (hα : Chained J t α) (he : ∀ a ∈ α, a.expanding) :
    ∃ x, D.Fits p α x := by
  induction α generalizing t p with
  | nil => exact ⟨[], rfl⟩
  | cons a as ih =>
    have hlink : ∃ e, D.Links p a e := by
      have ha := he a mem_cons_self
      cases a with
      | root | table _ => cases ha
      | scalar => exact ⟨none, rfl⟩
      | fiber j =>
        obtain ⟨hj, rfl⟩ := hα.1
        obtain ⟨r, hr, rfl⟩ := hp _ rfl
        obtain ⟨s, hs, hrs⟩ := hD j hj ha r hr
        exact ⟨some s, s, hs, rfl, hrs⟩
    obtain ⟨e, hlink⟩ := hlink
    obtain ⟨x, hx⟩ := ih hlink.sits hα.2 fun b hb => he b (mem_cons_of_mem a hb)
    exact ⟨e :: x, hlink, hx⟩

/-- Tuples over the axes of a chain are equal if they agree up to contracting axes. -/
theorem Fits.eq_of_take_eq (hD : D.Contracts J) {k : Nat}
    (hα : Chained J none α) (hc : ∀ a ∈ α.drop k, a.contracting) (hx : D.Fits none α x)
    (hy : D.Fits none α y) (hxy : x.take k = y.take k) : x = y := by
  obtain ⟨hx₁, hx₂⟩ := hx.split k
  obtain ⟨-, hy₂⟩ := hy.split k
  rw [← hxy] at hy₂
  rw [← take_append_drop k α, chained_append] at hα
  have hrest := hx₂.eq_of_contracting hD (hx₁.sits (sits_none none)) hα.2 hc hy₂
  rw [← take_append_drop k x, ← take_append_drop k y, hxy, hrest]

end Store

namespace Space

variable {J : Join → Prop} {b : Space}

lemma table?_of_check {m : Mark} {j : Join}
    (h : (fiber m b j).check = .ok ()) : b.family.table? = some j.origin := by
  by_contra hb
  simp [check, ensure, hb] at h

variable {s : Space}

lemma axes_of_axis? {a : Axis} (hs : s.axis? = some a)
    (hb : s.base? = some b) : s.axes = b.axes ++ [a] := by
  cases s <;> cases hb <;> cases hs <;> rfl

lemma IsChain.table?_eq (h : s.IsChain J) : s.family.table? = tableAfter none s.axes := by
  induction h with
  | root m => simp [family, Family.table?, axes, tableAfter, Axis.table?]
  | scalar _ _ _ | table _ _ _ _ _ | fiber _ _ _ _ _ =>
    simp [family, Family.table?, axes, tableAfter_append, tableAfter, Axis.table?]
  | filtered _ _ _ ih | ordered _ _ _ _ _ ih => simpa [family, axes] using ih

lemma IsChain.chained (h : s.IsChain J) : Chained J none s.axes := by
  induction h with
  | root m => simp [axes, Chained, Axis.Starts]
  | scalar _ _ ih | table _ _ _ _ ih => simp [axes, chained_append, Chained, Axis.Starts, ih]
  | fiber m hb hj fits ih =>
    rw [axes, chained_append]
    exact ⟨ih, ⟨hj, hb.table?_eq ▸ table?_of_check fits⟩, trivial⟩
  | filtered _ _ _ ih | ordered _ _ _ _ _ ih => simpa [axes] using ih

lemma IsChain.axes_axesOnly (h : s.IsChain J) : s.axesOnly.axes = s.axes := by
  induction h with
  | root m => rfl
  | scalar m _ ih | table m t _ _ ih | fiber m _ _ _ ih | filtered m f _ ih
  | ordered m os l o _ ih => simp [Space.axesOnly, axes, ih]

lemma IsChain.family_axesOnly (h : s.IsChain J) : s.axesOnly.family = s.family := by
  induction h with
  | root m | scalar m _ _ | table m t _ _ _ | fiber m _ _ _ _ => simp [axesOnly, family]
  | filtered m f _ ih | ordered m os l o _ ih => simpa [axesOnly, family] using ih

lemma IsChain.axesOnly (h : s.IsChain J) : s.axesOnly.IsChain J := by
  induction h with
  | root m =>
    exact .root m
  | scalar m _ ih =>
    exact .scalar m ih
  | table m t hb fits ih =>
    exact .table m t ih (by rwa [check, hb.family_axesOnly])
  | fiber m hb hj fits ih =>
    exact .fiber m ih hj (by rwa [check, hb.family_axesOnly])
  | filtered _ _ _ ih | ordered _ _ _ _ _ ih =>
    exact ih

end Space

section Inflated

variable {R V : Type} [DecidableEq R] [DecidableEq V] (D : Store R V) {J : Join → Prop}

variable {m : Mark} {b s : Space} {z : Tuple R}

lemma Store.mem_tuples_scalar : z ∈ D.tuples (.scalar m b) ↔ ∃ x ∈ D.tuples b, z = x ++ [none] := by
  simp [Store.tuples, eq_comm]

lemma Store.mem_tuples_table {t : Table} :
    z ∈ D.tuples (.table m b t) ↔ ∃ x ∈ D.tuples b, ∃ r ∈ D.rows t, z = x ++ [some r] := by
  simp [Store.tuples, eq_comm]

lemma Store.mem_tuples_fiber {j : Join} : z ∈ D.tuples (.fiber m b j) ↔
      ∃ x ∈ D.tuples b, ∃ r ∈ D.rows j.target, D.follows j x r ∧ z = x ++ [some r] := by
  simp only [Store.tuples, mem_flatMap, mem_map, mem_filter, and_assoc]
  simp only [eq_comm]

variable {x : Tuple R} {l o : Option Int} {a : Axis}

lemma Store.mem_tuples_filtered {f : Code} : x ∈ D.tuples (.filtered m b f) ↔
      x ∈ D.tuples b ∧ D.engine.isTrue (D.value f b x) := by
  simp [Store.tuples]

lemma mem_of_mem_slice {α : Type} {xs : List α} {x : α} (h : x ∈ slice l o xs) : x ∈ xs := by
  cases l with
  | none => exact mem_of_mem_drop h
  | some n => exact mem_of_mem_drop (mem_of_mem_take h)

lemma Store.mem_of_mem_ordered {os : List OrderItem} (h : x ∈ D.tuples (.ordered m b os l o)) : x ∈ D.tuples b := by
  rw [Store.tuples] at h
  split at h
  · exact h
  · simpa using mem_of_mem_slice h

variable {D}

lemma Store.mem_tuples_axis (hs : s.axis? = some a) (hb : s.base? = some b) :
    z ∈ D.tuples s ↔ ∃ x e, z = x ++ [e] ∧ x ∈ D.tuples b ∧ D.Links (Tuple.lastAfter none x) a e := by
  cases s <;> cases hb <;> cases hs
  · rw [D.mem_tuples_scalar]
    constructor
    · rintro ⟨x, hx, rfl⟩
      exact ⟨x, none, rfl, hx, rfl⟩
    · rintro ⟨x, e, rfl, hx, rfl⟩
      exact ⟨x, hx, rfl⟩
  · rw [D.mem_tuples_table]
    constructor
    · rintro ⟨x, hx, r, hr, rfl⟩
      exact ⟨x, some r, rfl, hx, r, hr, rfl⟩
    · rintro ⟨x, e, rfl, hx, r, hr, rfl⟩
      exact ⟨x, hx, r, hr, rfl⟩
  · rw [D.mem_tuples_fiber]
    constructor
    · rintro ⟨x, hx, r, hr, hxr, rfl⟩
      exact ⟨x, some r, rfl, hx, r, hr, rfl, by rwa [← Tuple.last_eq_lastAfter]⟩
    · rintro ⟨x, e, rfl, hx, r, hr, rfl, hxr⟩
      exact ⟨x, hx, r, hr, by rwa [← Tuple.last_eq_lastAfter] at hxr, rfl⟩

/-- A tuple over the axes belongs to an axis step if its start belongs to the base. -/
theorem Store.mem_tuples_axis_iff_take (hs : s.axis? = some a)
    (hb : s.base? = some b) (hz : D.Fits none s.axes z) :
    z ∈ D.tuples s ↔ z.take b.axes.length ∈ D.tuples b := by
  rw [Space.axes_of_axis? hs hb, fits_append_singleton] at hz
  obtain ⟨x, e, rfl, hx, he⟩ := hz
  rw [← hx.length_eq, take_left, mem_tuples_axis hs hb]
  constructor
  · rintro ⟨y, f, hyf, hy, -⟩
    obtain ⟨rfl, -⟩ := append_inj' hyf rfl
    exact hy
  · intro hx'
    exact ⟨x, e, rfl, hx', he⟩

lemma Store.fits_of_mem (hs : s.IsChain J) (h : z ∈ D.tuples s) : D.Fits none s.axes z := by
  induction hs generalizing z with
  | root m =>
    obtain rfl : z = [none] := by simpa [Store.tuples] using h
    exact ⟨rfl, rfl⟩
  | scalar m _ ih | table m t _ _ ih | fiber m _ _ _ ih =>
    obtain ⟨x, e, rfl, hx, he⟩ := (mem_tuples_axis rfl rfl).1 h
    exact fits_append_singleton.2 ⟨x, e, rfl, ih hx, he⟩
  | filtered m f _ ih => exact ih (D.mem_tuples_filtered.1 h).1
  | ordered m os l o _ ih => exact ih (D.mem_of_mem_ordered h)

lemma Store.mem_tuples_axesOnly (hs : s.IsChain J) : z ∈ D.tuples s.axesOnly ↔ D.Fits none s.axes z := by
  have hstep : ∀ {b t : Space} {a : Axis} {z : Tuple R}, t.axis? = some a → t.base? = some b →
      (∀ x, x ∈ D.tuples b ↔ D.Fits none b.axes x) →
        (z ∈ D.tuples t ↔ D.Fits none (b.axes ++ [a]) z) := by
    intro b t a z ht hb ih
    simp only [mem_tuples_axis ht hb, fits_append_singleton, ih]
  induction hs generalizing z with
  | root m =>
    rw [Space.axesOnly, Store.tuples]
    constructor
    · intro h
      obtain rfl : z = [none] := by simpa using h
      exact ⟨rfl, rfl⟩
    · intro h
      rcases z with _ | ⟨e, _ | _⟩
      case nil => exact h.elim
      case cons.cons => cases h.2
      case cons.nil => exact mem_singleton.2 (congrArg (· :: []) h.1)
  | scalar m hb ih | table m t hb _ ih | fiber m hb _ _ ih =>
    rw [Space.axes, ← hb.axes_axesOnly]
    refine hstep rfl rfl fun x => ?_
    rw [hb.axes_axesOnly]
    exact ih
  | filtered m f _ ih | ordered m os l o _ ih =>
    exact ih

end Inflated

end NavQuery
