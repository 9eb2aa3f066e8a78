import Mathlib.Data.List.Nodup
import NavQuery.Proofs.KeptOnce
import NavQuery.Proofs.Seams
import NavQuery.Term

/-!
Evaluating a term gives the rows that the tables in its tree show together. A term may leave out the axes
before its baseline. Some of its rows then stand for tuples of its space and show, for every routed column,
the row that the tuple reads; the others get lost when the axes before the baseline are attached. A row
shows the value of a plain code if the units of the code are routed.
-/

namespace NavQuery

open List

namespace Routes

variable {r o : Routes} {u v : Code} {k : Nat}

lemma contains_iff : r.contains u ↔ ∃ p ∈ r.entries, (p.1 == u) := by
  simp [contains]

lemma contains_congr (h : (u == v)) : r.contains u = r.contains v := by
  rw [contains]
  congr 1
  funext p
  exact BEq.congr_right h

lemma exists_of_contains (h : r.contains u) :
    ∃ v k, (v, k) ∈ r.entries ∧ (v == u) ∧ r.find? u = some k := by
  obtain ⟨p, hp, hpu⟩ := contains_iff.1 h
  cases hfind : r.entries.find? (·.1 == u) with
  | none => exact absurd hpu (find?_eq_none.1 hfind p hp)
  | some q =>
    have hq : (q.1 == u) := by simpa using find?_some hfind
    exact ⟨q.1, q.2, mem_of_find?_eq_some hfind, hq, by rw [find?, hfind]; rfl⟩

lemma contains_of_find? (h : r.find? u = some k) : ∃ v, (v, k) ∈ r.entries ∧ (v == u) := by
  obtain ⟨q, hq, rfl⟩ := Option.map_eq_some_iff.1 h
  have hqu : (q.1 == u) := by simpa using find?_some hq
  exact ⟨q.1, mem_of_find?_eq_some hq, hqu⟩

lemma contains_set : (r.set u k).contains v ↔ r.contains v ∨ (u == v) := by
  obtain ⟨es⟩ := r
  simp only [set, contains]
  induction es with
  | nil => simp [setEntry]
  | cons e es ih =>
    rw [setEntry]
    split
    · rename_i heu
      have huv : (e.1 == v) = (u == v) := BEq.congr_left heu
      grind
    · simp only [any_cons, Bool.or_eq_true, ih, or_assoc]

lemma contains_foldl_set {α : Type} (f : α → Code) (g : α → Nat) (xs : List α) :
    (xs.foldl (fun r x => r.set (f x) (g x)) r).contains v ↔ r.contains v ∨ ∃ x ∈ xs, (f x == v) := by
  induction xs generalizing r with
  | nil => simp
  | cons x xs ih =>
    rw [foldl_cons, ih, contains_set]
    simp only [mem_cons, exists_eq_or_imp, or_assoc]

lemma contains_update : (r.update o).contains v ↔ r.contains v ∨ o.contains v := by
  rw [update, contains_foldl_set, ← contains_iff]

def Exchanges (Q : Code → Nat → Prop) : Prop :=
  ∀ u v k l, Q u k → Q v l → (v == u) → Q v k

variable {Q : Code → Nat → Prop}

lemma forall_set (hQ : Exchanges Q) (hr : ∀ p ∈ r.entries, Q p.1 p.2) (hu : Q u k) :
    ∀ p ∈ (r.set u k).entries, Q p.1 p.2 := by
  obtain ⟨es⟩ := r
  simp only [set] at hr ⊢
  induction es with
  | nil => simpa [setEntry] using hu
  | cons e es ih =>
    rw [setEntry]
    intro p hp
    split at hp
    · rename_i heu
      obtain rfl | hp := mem_cons.1 hp
      · exact hQ u e.1 k e.2 hu (hr e mem_cons_self) heu
      · exact hr p (mem_cons_of_mem e hp)
    · obtain rfl | hp := mem_cons.1 hp
      · exact hr p mem_cons_self
      · exact ih (fun q hq => hr q (mem_cons_of_mem e hq)) p hp

lemma forall_foldl_set {α : Type} {f : α → Code} {g : α → Nat} {xs : List α} (hQ : Exchanges Q)
    (hr : ∀ p ∈ r.entries, Q p.1 p.2) (hxs : ∀ x ∈ xs, Q (f x) (g x)) :
    ∀ p ∈ (xs.foldl (fun r x => r.set (f x) (g x)) r).entries, Q p.1 p.2 := by
  induction xs generalizing r with
  | nil => exact hr
  | cons x xs ih =>
    exact ih (forall_set hQ hr (hxs x mem_cons_self)) fun y hy =>
      hxs y (mem_cons_of_mem x hy)

lemma forall_update (hQ : Exchanges Q) (hr : ∀ p ∈ r.entries, Q p.1 p.2)
    (ho : ∀ p ∈ o.entries, Q p.1 p.2) : ∀ p ∈ (r.update o).entries, Q p.1 p.2 :=
  forall_foldl_set hQ hr ho

end Routes

abbrev Showing (R : Type) := Nat → Option R

def Showing.merge {R : Type} (e f : Showing R) : Showing R := fun k => (e k).or (f k)

section Read

variable {R V : Type} [DecidableEq V]

mutual

def Store.read (D : Store R V) (r : Routes) (e : Showing R) : Code → V
  | .literal _ _ v => D.engine.literal v
  | .parameter _ d n => D.engine.parameter d n
  | .cast _ d c => D.engine.cast d (D.read r e c)
  | .formula _ _ f as => D.engine.apply f (D.readAll r e as)
  | .column m d c u => ((r.find? (.column m d c u)).bind e).elim D.engine.null (D.cell · c)
  | .missing | .correlation _ _ => D.engine.null
  | .single _ _ _ _ | .aggregate _ _ _ _ _ | .correlated _ _ _ _ | .kernel _ _ _ | .covering _ _ _ =>
    D.engine.null

def Store.readAll (D : Store R V) (r : Routes) (e : Showing R) : List Code → List V
  | [] => []
  | c :: cs => D.read r e c :: D.readAll r e cs

end

namespace Store

variable (D : Store R V)

def joins (left right : Routes) (joints : List Joint) (e f : Showing R) : Bool :=
  joints.all fun j =>
    decide (D.read left e j.left ≠ D.engine.null ∧ D.read left e j.left = D.read right f j.right)

lemma joins_iff {left right : Routes} {joints : List Joint} {e f : Showing R} :
    D.joins left right joints e f ↔ ∀ j ∈ joints, D.read left e j.left ≠ D.engine.null ∧
      D.read left e j.left = D.read right f j.right := by
  simp only [joins, all_eq_true, decide_eq_true_eq]

def matched (left right : Routes) (joints : List Joint) (fs : List (Showing R)) (e : Showing R) :
    List (Showing R) :=
  (fs.filter (D.joins left right joints e)).map e.merge

/-- A row of the left operand of a join; an outer join keeps it where nothing matches. -/
def grown (left right : Routes) (joints : List Joint) (outer : Bool) (fs : List (Showing R))
    (e : Showing R) : List (Showing R) :=
  let found := D.matched left right joints fs e
  if outer && found.isEmpty then [e] else found

def showings (D : Store R V) : Term → List (Showing R)
  | .scalar _ => [fun _ => none]
  | .table h => (h.space.family.table?.elim [] D.rows).map fun r k =>
    if k = h.tag then some r else none
  | .filter _ kid condition => (D.showings kid).filter fun e =>
    D.engine.isTrue (D.read kid.routes e condition)
  | .join _ left right joints outer =>
    (D.showings left).flatMap (D.grown left.routes right.routes joints outer (D.showings right))
  | .wrapper _ kid => D.showings kid
  | _ => []

end Store

end Read

open Space Tuple Routes

variable {d : Domain} {v : Space} {k : Nat}

def Space.hidden (b : Space) : Nat := b.axes.length - 1

namespace Store

variable {R V : Type} [DecidableEq R] [DecidableEq V] (D : Store R V) (J : Join → Prop)

def Possible (s : Space) (ε : Option R) : Prop :=
  s.family.table?.elim (ε = none) fun t => ∃ r ∈ D.rows t, ε = some r

/-- Whether the columns of the last axis of a baseline are routed to an entry. -/
def Points (b : Space) (e : Showing R) (ε : Option R) (u : Code) (k : Nat) : Prop :=
  ∀ m d c v, u = .column m d c v → v.isInflated → v.axes = b.axes → e k = ε

structure Enters (b : Space) (r : Routes) (e : Showing R) (ε : Option R) : Prop where
  possible : D.Possible b ε
  points : ∀ p ∈ r.entries, Points b e ε p.1 p.2

/-- Whether a row starts at a baseline with an entry that no tuple has there. -/
def Unreached (b : Space) (r : Routes) (e : Showing R) : Prop :=
  ∃ ε, D.Enters b r e ε ∧ ∀ y, D.Fits none b.axes y → lastAfter none y ≠ ε

/-- Whether the term of a tag shows what tuples read in the space of a column. -/
structure Reads (s b : Space) (tags : List Nat) (real : List (Tuple R × Showing R)) (u : Code)
    (k : Nat) : Prop where
  isColumn : u.isColumn = true
  mem_tags : k ∈ tags
  isChain : ∀ m d c v, u = .column m d c v → v.IsChain J
  spans : ∀ m d c v, u = .column m d c v → s.spans v = true
  length_le : ∀ m d c v, u = .column m d c v → v.isInflated → v.axes <+: s.axes →
    b.axes.length ≤ v.axes.length
  row_eq : ∀ m d c v, u = .column m d c v → ∀ p ∈ real, ∀ z ∈ D.tuples s,
    z.drop b.hidden = p.1 → p.2 k = D.rowOf v s z

/-- Rows show the tuples of a space from a baseline on: each of the first rows stands for the tuples
that go on from the baseline as it says, and the other rows are unreached. -/
structure Shows (s b : Space) (r : Routes) (tags : List Nat) (real : List (Tuple R × Showing R))
    (junk : List (Showing R)) : Prop where
  isChain : s.IsChain J
  isBackbone : b.IsBackbone J
  start : b.axes <+: s.inflatedAncestor.axes
  nodup : (real.map Prod.fst).Nodup
  exists_tuple : ∀ p ∈ real, ∃ z ∈ D.tuples s, z.drop b.hidden = p.1
  mem_iff : ∀ z, D.Fits none s.axes z → (z ∈ D.tuples s ↔ z.drop b.hidden ∈ real.map Prod.fst)
  reads : ∀ p ∈ r.entries, D.Reads J s b tags real p.1 p.2
  covers : ∀ q : Space, q.IsBackbone J → b.axes <+: q.axes → q.axes <+: s.axes →
    ∀ c ∈ q.columns, ∀ m, r.contains (.ofColumn c q m) = true
  unreached : ∀ e ∈ junk, D.Unreached b r e
  supported : ∀ e, e ∈ real.map Prod.snd ∨ e ∈ junk → ∀ k, k ∉ tags → e k = none

variable {D J}

section Entries

variable {z : Tuple R}

omit [DecidableEq R] in
lemma Fits.start {α β : List Axis} (h : D.Fits none β z) (hαβ : α <+: β) :
    D.Fits none α (z.take α.length) := by
  have hsplit := (h.split α.length).1
  rwa [← prefix_iff_eq_take.1 hαβ] at hsplit

lemma mem_tuples_backbone {b : Space} (hb : b.IsBackbone J) : z ∈ D.tuples b ↔ D.Fits none b.axes z := by
  rw [← mem_tuples_axesOnly hb.isChain, hb.axesOnly_eq]

omit [DecidableEq R] in
/-- The last entry of a tuple over the axes of a chain. -/
theorem possible_of_fits {s : Space} (hs : s.IsChain J) {y : Tuple R} (hy : D.Fits none s.axes y) :
    D.Possible s (lastAfter none y) := by
  rw [Possible, hs.table?_eq]
  obtain ⟨α, a, ha⟩ := eq_nil_or_concat s.axes |>.resolve_left hs.axes_ne_nil
  rw [concat_eq_append] at ha
  rw [ha, fits_append_singleton] at hy
  obtain ⟨x, e, rfl, -, he⟩ := hy
  rw [ha, tableAfter_append, lastAfter_append_singleton]
  cases a with
  | root | scalar | table _ => exact he
  | fiber j =>
    obtain ⟨r, hr, rfl, -⟩ := he
    exact ⟨r, hr, rfl⟩

end Entries

lemma rowOf_self (hC : D.Contracts J) {s : Space} (hs : s.IsChain J) {z : Tuple R}
    (hz : z ∈ D.tuples s) : D.rowOf s s z = lastAfter none z := by
  have htake : z.take s.axes.length = z := by rw [← length_of_mem hs hz, take_length]
  rw [rowOf_of_start hC hs hs prefix_rfl (htake.symm ▸ hz), htake, last_eq_lastAfter]

section Exchange

omit [DecidableEq R] [DecidableEq V] in
lemma column_of_beq {u : Code} {m : Mark} {c : Column}
    (h : (Code.column m d c v == u)) :
    ∃ n w, u = .column n d c w ∧ (v == w) := by
  rw [Code.beq_iff_unmarked] at h
  cases u <;> simp only [Code.unmarked, reduceCtorEq] at h
  obtain ⟨-, rfl, rfl, hvw⟩ := Code.column.inj h
  exact ⟨_, _, rfl, beq_iff_unmarked.2 hvw⟩

omit [DecidableEq R] in
lemma exchanges_points (b : Space) (e : Showing R) (ε : Option R) : Exchanges (Points b e ε) := by
  intro u v k l hu _ hvu m d c w hv hw haxes
  subst hv
  obtain ⟨n, x, rfl, hwx⟩ := column_of_beq hvu
  exact hu n d c x rfl ((isInflated_of_beq hwx).symm.trans hw) ((axes_of_beq hwx).symm.trans haxes)

lemma exchanges_reads (s b : Space) (tags : List Nat) (real : List (Tuple R × Showing R)) :
    Exchanges (D.Reads J s b tags real) := by
  intro u v k l hu hv hvu
  refine ⟨hv.isColumn, hu.mem_tags, hv.isChain, hv.spans, hv.length_le, ?_⟩
  intro m d c w hw p hp z hz hzp
  subst hw
  obtain ⟨n, x, rfl, hwx⟩ := column_of_beq hvu
  rw [D.rowOf_of_beq hwx]
  exact hu.row_eq n d c x rfl p hp z hz hzp

end Exchange

omit [DecidableEq R] in
lemma Enters.read_column {b : Space} {r : Routes} {e : Showing R} {ε : Option R}
    (h : D.Enters b r e ε) {m : Mark} {c : Column}
    (hv : v.isInflated) (haxes : v.axes = b.axes)
    (hr : r.contains (.column m d c v)) :
    D.read r e (.column m d c v) = ε.elim D.engine.null (D.cell · c) := by
  obtain ⟨u, k, hk, hu, hfind⟩ := exists_of_contains hr
  obtain ⟨n, w, rfl, hvw⟩ := column_of_beq (BEq.symm hu)
  rw [Store.read, hfind, Option.bind_some, h.points _ hk n d c w rfl
    ((isInflated_of_beq hvw).symm.trans hv) ((axes_of_beq hvw).symm.trans haxes)]

namespace Shows

variable {s b : Space} {r : Routes} {tags : List Nat} {real : List (Tuple R × Showing R)}
  {junk : List (Showing R)}

variable (h : D.Shows J s b r tags real junk)
include h

lemma start_axes : b.axes <+: s.axes :=
  h.start.trans h.isChain.axes_inflatedAncestor

lemma hidden_lt : b.hidden < s.axes.length := by
  have hpos := h.isBackbone.axes_length_pos
  have hle := h.start_axes.length_le
  rw [Space.hidden]
  omega

variable {z : Tuple R}

lemma exists_real (hz : z ∈ D.tuples s) : ∃ p ∈ real, z.drop b.hidden = p.1 := by
  have hmem := (h.mem_iff z (fits_of_mem h.isChain hz)).1 hz
  obtain ⟨p, hp, hpz⟩ := mem_map.1 hmem
  exact ⟨p, hp, hpz.symm⟩

variable {c : Column} {m : Mark} {p : Tuple R × Showing R}

lemma read_column (hr : r.contains (.column m d c v)) (hp : p ∈ real)
    (hz : z ∈ D.tuples s) (hzp : z.drop b.hidden = p.1) :
    D.read r p.2 (.column m d c v) = D.value (.column m d c v) s z := by
  obtain ⟨u, k, hk, hu, hfind⟩ := exists_of_contains hr
  obtain ⟨n, w, rfl, hvw⟩ := column_of_beq (BEq.symm hu)
  rw [Store.read, hfind, Option.bind_some, (h.reads _ hk).row_eq n d c w rfl p hp z hz hzp,
    D.value_column, D.rowOf_of_beq hvw]

/-- Rows that stand for tuples start at the baseline with an entry of these. -/
theorem enters (hC : D.Contracts J) (hp : p ∈ real) (hz : z ∈ D.tuples s) (hzp : z.drop b.hidden = p.1) :
    D.Enters b r p.2 (lastAfter none (z.take b.axes.length)) := by
  have hfits := (fits_of_mem h.isChain hz).start h.start_axes
  refine ⟨possible_of_fits h.isBackbone.isChain hfits, ?_⟩
  intro q hq m d c v hv hi haxes
  have hchain := (h.reads q hq).isChain m d c v hv
  have hmem : z.take v.axes.length ∈ D.tuples v := by
    rw [mem_tuples_backbone (hchain.isBackbone hi), haxes]
    exact hfits
  rw [(h.reads q hq).row_eq m d c v hv p hp z hz hzp,
    rowOf_of_start hC h.isChain hchain (haxes ▸ h.start_axes) hmem, haxes, last_eq_lastAfter]

lemma mono_tags {more : List Nat} (hmore : tags ⊆ more) : D.Shows J s b r more real junk :=
  { h with
    reads := fun p hp => { h.reads p hp with mem_tags := hmore (h.reads p hp).mem_tags }
    supported := fun e he k hk => h.supported e he k fun hmem => hk (hmore hmem) }

/-- A column of the space itself may be routed as that of its backbone. -/
theorem set (hC : D.Contracts J) {n : Mark} (hk : r.find? (.ofColumn c s.inflate n) = some k) :
    D.Shows J s b (r.set (.ofColumn c s m) k) tags real junk := by
  obtain ⟨u, hu, hbeq⟩ := contains_of_find? hk
  obtain ⟨l, w, rfl, hw⟩ := column_of_beq (BEq.symm hbeq)
  rw [inflate_eq] at hw
  have hread := h.reads _ hu
  have hinflated : w.isInflated :=
    (isInflated_of_beq hw).symm.trans h.isChain.axesOnly_isBackbone.isInflated
  have haxes : w.axes = s.axes := (axes_of_beq hw).symm.trans h.isChain.axes_axesOnly
  have hself : ∀ z ∈ D.tuples s, D.rowOf w s z = D.rowOf s s z := by
    intro z hz
    have hlen := length_of_mem h.isChain hz
    have hchain := hread.isChain _ _ _ _ rfl
    have hmem : z.take w.axes.length ∈ D.tuples w := by
      rw [mem_tuples_backbone (hchain.isBackbone hinflated), haxes, ← hlen, take_length]
      exact fits_of_mem h.isChain hz
    rw [rowOf_of_start hC h.isChain hchain (haxes ▸ prefix_rfl) hmem, haxes, ← hlen,
      take_length, rowOf_self hC h.isChain hz, last_eq_lastAfter]
  have hnew : D.Reads J s b tags real (.ofColumn c s m) k := by
    refine ⟨rfl, hread.mem_tags, ?_, ?_, ?_, ?_⟩
    · rintro _ _ _ _ ⟨⟩
      exact h.isChain
    · rintro _ _ _ _ ⟨⟩
      exact spans_of_start_axes h.isChain h.isChain prefix_rfl
    · rintro _ _ _ _ ⟨⟩ - -
      exact h.start_axes.length_le
    · rintro _ _ _ _ ⟨⟩ p hp z hz hzp
      rw [hread.row_eq _ _ _ _ rfl p hp z hz hzp, hself z hz]
  refine { h with reads := ?_, covers := ?_, unreached := ?_ }
  · exact forall_set (exchanges_reads s b tags real) h.reads hnew
  · intro q hq hbq hqs c hc m
    exact contains_set.2 (.inl (h.covers q hq hbq hqs c hc m))
  · intro e he
    obtain ⟨ε, hε, hnone⟩ := h.unreached e he
    refine ⟨ε, ⟨hε.possible, forall_set (exchanges_points b e ε) hε.points ?_⟩, hnone⟩
    rintro _ _ _ _ ⟨⟩ - hb
    exact hε.points _ hu _ _ _ _ rfl hinflated (haxes.trans hb)

end Shows

section Steps

variable {s t b : Space} {r : Routes} {tags : List Nat} {real : List (Tuple R × Showing R)}
  {junk : List (Showing R)}

lemma rowOf_congr (h : t.axes = s.axes) (z : Tuple R) : D.rowOf v t z = D.rowOf v s z := by
  rw [rowOf, rowOf, pick_congr h rfl]

lemma Shows.narrow (h : D.Shows J s b r tags real junk) (ht : t.IsChain J)
    (hbase : t.base? = some s) (haxes : t.axes = s.axes) (hsub : ∀ z ∈ D.tuples t, z ∈ D.tuples s)
    (keep : Showing R → Bool)
    (hkeep : ∀ p ∈ real, ∀ z ∈ D.tuples s, z.drop b.hidden = p.1 → (z ∈ D.tuples t ↔ keep p.2)) :
    D.Shows J t b r tags (real.filter (keep ·.2)) (junk.filter keep) := by
  refine ⟨ht, h.isBackbone, h.start.trans (inflatedAncestor_start ht hbase), ?_, ?_, ?_, ?_, ?_, ?_, ?_⟩
  · exact h.nodup.sublist (filter_sublist.map _)
  · intro p hp
    obtain ⟨hp, hpkeep⟩ := mem_filter.1 hp
    obtain ⟨z, hz, hzp⟩ := h.exists_tuple p hp
    exact ⟨z, (hkeep p hp z hz hzp).2 hpkeep, hzp⟩
  · intro z hfits
    rw [haxes] at hfits
    constructor
    · intro hz
      obtain ⟨p, hp, hzp⟩ := h.exists_real (hsub z hz)
      exact mem_map.2 ⟨p, mem_filter.2 ⟨hp, (hkeep p hp z (hsub z hz) hzp).1 hz⟩, hzp.symm⟩
    · intro hz
      obtain ⟨p, hp, hpz⟩ := mem_map.1 hz
      obtain ⟨hp, hpkeep⟩ := mem_filter.1 hp
      have hzs : z ∈ D.tuples s := (h.mem_iff z hfits).2 (mem_map.2 ⟨p, hp, hpz⟩)
      exact (hkeep p hp z hzs hpz.symm).2 hpkeep
  · intro q hq
    have hread := h.reads q hq
    refine { hread with spans := ?_, length_le := ?_, row_eq := ?_ }
    · intro m d c v hv
      exact spans_of_axes_start ht h.isChain (haxes ▸ prefix_rfl) (hread.spans m d c v hv)
    · rw [haxes]
      exact hread.length_le
    · intro m d c v hv p hp z hz hzp
      rw [rowOf_congr haxes]
      exact hread.row_eq m d c v hv p (mem_filter.1 hp).1 z (hsub z hz) hzp
  · rw [haxes]
    exact h.covers
  · exact fun e he => h.unreached e (mem_filter.1 he).1
  · rintro e (he | he)
    · exact h.supported e (.inl ((filter_sublist.map _).subset he))
    · exact h.supported e (.inr (mem_filter.1 he).1)

lemma Shows.extend (hC : D.Contracts J) (h : D.Shows J s b r tags real junk) (ht : t.IsChain J)
    {a : Axis} (ha : t.axis? = some a) (hbase : t.base? = some s) (next : Tuple R → Option R)
    (hnext : ∀ z ∈ D.tuples s, ∀ ε, D.Links (lastAfter none z) a ε ↔ ε = next (z.drop b.hidden))
    (hcovers : ∀ c ∈ t.columns, ∀ m, r.contains (.ofColumn c t.inflate m)) :
    D.Shows J t b r tags (real.map fun p => (p.1 ++ [next p.1], p.2)) junk := by
  have haxes := axes_of_axis? ha hbase
  have hst : s.axes <+: t.axes := haxes ▸ prefix_append _ _
  have hlt := h.hidden_lt
  have hdrop : ∀ {x : Tuple R} {ε : Option R}, D.Fits none s.axes x →
      (x ++ [ε]).drop b.hidden = x.drop b.hidden ++ [ε] := by
    intro x ε hx
    have hlen := hx.length_eq
    exact drop_append_of_le_length (by omega)
  refine ⟨ht, h.isBackbone, h.start.trans (inflatedAncestor_start ht hbase), ?_, ?_, ?_, ?_, ?_,
    h.unreached, ?_⟩
  · rw [map_map, show (Prod.fst ∘ fun p : Tuple R × Showing R => (p.1 ++ [next p.1], p.2)) =
      (fun x => x ++ [next x]) ∘ Prod.fst from rfl, ← map_map]
    exact h.nodup.map fun x y hxy => (append_inj' hxy rfl).1
  · intro p' hp'
    obtain ⟨p, hp, rfl⟩ := mem_map.1 hp'
    obtain ⟨x, hx, hxp⟩ := h.exists_tuple p hp
    refine ⟨x ++ [next p.1], (mem_tuples_axis ha hbase).2 ⟨x, next p.1, rfl, hx, ?_⟩, ?_⟩
    · rw [hnext x hx, hxp]
    · rw [hdrop (fits_of_mem h.isChain hx), hxp]
  · intro z hz
    rw [mem_tuples_axis_iff_take ha hbase hz]
    rw [haxes, fits_append_singleton] at hz
    obtain ⟨x, ε, rfl, hx, hε⟩ := hz
    rw [← hx.length_eq, take_left, h.mem_iff x hx, hdrop hx, map_map]
    constructor
    · intro hmem
      obtain ⟨p, hp, hpx⟩ := mem_map.1 hmem
      have hxs := (h.mem_iff x hx).2 hmem
      refine mem_map.2 ⟨p, hp, ?_⟩
      rw [Function.comp_apply, (hnext x hxs ε).1 hε, hpx]
    · intro hmem
      obtain ⟨p, hp, hpx⟩ := mem_map.1 hmem
      exact mem_map.2 ⟨p, hp, (append_inj' hpx rfl).1⟩
  · intro q hq
    have hread := h.reads q hq
    refine { hread with spans := ?_, length_le := ?_, row_eq := ?_ }
    · intro m d c v hv
      exact spans_of_axes_start ht h.isChain hst (hread.spans m d c v hv)
    · intro m d c v hv hi hvt
      obtain hle | hlt := le_or_gt v.axes.length s.axes.length
      · exact hread.length_le m d c v hv hi (prefix_of_prefix_length_le hvt hst hle)
      · exact h.start_axes.length_le.trans hlt.le
    · intro m d c v hv p' hp' z hz hzp
      obtain ⟨p, hp, rfl⟩ := mem_map.1 hp'
      have hfits := fits_of_mem ht hz
      obtain ⟨x, ε, rfl, hx, -⟩ := (mem_tuples_axis ha hbase).1 hz
      have hxfits := fits_of_mem h.isChain hx
      rw [rowOf_longer hC h.isChain ht (hread.isChain m d c v hv) hst (hread.spans m d c v hv) hfits,
        ← hxfits.length_eq, take_left]
      rw [hdrop hxfits] at hzp
      exact hread.row_eq m d c v hv p hp x hx (append_inj' hzp rfl).1
  · intro q hq hbq hqt c hc m
    obtain hle | hlt := le_or_gt q.axes.length s.axes.length
    · exact h.covers q hq hbq (prefix_of_prefix_length_le hqt hst hle) c hc m
    · have hqaxes : q.axes = t.axes := by
        refine hqt.eq_of_length ?_
        have hle := hqt.length_le
        rw [haxes, length_append, length_singleton] at hle ⊢
        omega
      have hbeq : (q == t.inflate) := by
        rw [inflate_eq, hq.beq_iff ht.axesOnly_isBackbone, hqaxes, ht.axes_axesOnly]
      rw [Routes.contains_congr (ofColumn_beq hbeq c m m)]
      exact hcovers c (columns_of_axes_eq hq.isChain ht hqaxes ▸ hc) m
  · rintro e (he | he)
    · rw [map_map] at he
      exact h.supported e (.inl he)
    · exact h.supported e (.inr he)

end Steps

section Leaves

variable {s b : Space} {r : Routes} {tags : List Nat}

omit [DecidableEq R] [DecidableEq V] in
lemma possible_congr {t : Space} (hs : s.IsChain J) (ht : t.IsChain J) (h : s.axes = t.axes)
    {ε : Option R} (hε : D.Possible s ε) : D.Possible t ε := by
  rw [Possible, ht.table?_eq, ← h, ← hs.table?_eq]
  exact hε

omit [DecidableEq R] in
lemma drop_hidden (hs : s.IsChain J) {z : Tuple R} (hz : D.Fits none s.axes z) :
    z.drop s.hidden = [lastAfter none z] := by
  obtain ⟨α, a, ha⟩ := eq_nil_or_concat s.axes |>.resolve_left hs.axes_ne_nil
  rw [concat_eq_append] at ha
  rw [ha, fits_append_singleton] at hz
  obtain ⟨x, ε, rfl, hx, -⟩ := hz
  have hhidden : s.hidden = x.length := by
    rw [Space.hidden, ha, length_append, hx.length_eq]
    rfl
  rw [hhidden, drop_left, lastAfter_append_singleton]

variable {entries : List (Option R × Showing R)}

lemma reads_leaf (hC : D.Contracts J) (hs : s.IsBackbone J) (haxes : b.axes = s.axes) {real : List (Tuple R × Showing R)}
    (hreal : ∀ p ∈ real, ∃ x ∈ entries, p = ([x.1], x.2)) {c : Column} {m : Mark}
    (hk : k ∈ tags) (hshow : ∀ x ∈ entries, x.2 k = x.1) :
    D.Reads J s b tags real (.ofColumn c s m) k := by
  have hhidden : b.hidden = s.hidden := by rw [Space.hidden, haxes, ← Space.hidden]
  refine ⟨rfl, hk, ?_, ?_, ?_, ?_⟩
  · rintro _ _ _ _ ⟨⟩
    exact hs.isChain
  · rintro _ _ _ _ ⟨⟩
    exact spans_of_start_axes hs.isChain hs.isChain prefix_rfl
  · rintro _ _ _ _ ⟨⟩ - -
    exact haxes ▸ le_rfl
  · rintro _ _ _ _ ⟨⟩ p hp z hz hzp
    obtain ⟨x, hx, rfl⟩ := hreal p hp
    rw [hhidden, drop_hidden hs.isChain (fits_of_mem hs.isChain hz)] at hzp
    rw [rowOf_self hC hs.isChain hz, singleton_inj.1 hzp]
    exact hshow x hx

/-- The rows of a term that shows the baseline only: one for each possible entry. -/
theorem exists_shows_leaf (hC : D.Contracts J) (hs : s.IsBackbone J) (hb : b.IsBackbone J)
    (haxes : b.axes = s.axes)
    (hnodup : (entries.map Prod.fst).Nodup)
    (hentries : ∀ ε, D.Possible s ε ↔ ε ∈ entries.map Prod.fst)
    (hroutes : ∀ q ∈ r.entries, (∃ c m, q.1 = .ofColumn c s m) ∧ q.2 ∈ tags ∧
      ∀ x ∈ entries, x.2 q.2 = x.1)
    (hcovers : ∀ c ∈ s.columns, ∀ m, r.contains (.ofColumn c s m))
    (hsupported : ∀ x ∈ entries, ∀ k, k ∉ tags → x.2 k = none) :
    ∃ real junk, D.Shows J s b r tags real junk ∧
      (entries.map Prod.snd).Perm (real.map Prod.snd ++ junk) := by
  let reached (x : Option R × Showing R) : Bool :=
    (D.tuples s).any fun y => decide (lastAfter none y = x.1)
  have hhidden : b.hidden = s.hidden := by rw [Space.hidden, haxes, ← Space.hidden]
  have hlast : ∀ {z : Tuple R}, D.Fits none s.axes z → z.drop b.hidden = [lastAfter none z] :=
    fun hz => by rw [hhidden, drop_hidden hs.isChain hz]
  refine ⟨(entries.filter reached).map fun x => ([x.1], x.2),
    (entries.filter (!reached ·)).map Prod.snd, ?_, ?_⟩
  · refine ⟨hs.isChain, hb, ?_, ?_, ?_, ?_, ?_, ?_, ?_, ?_⟩
    · rw [inflatedAncestor_of_isInflated hs.isInflated]
      exact haxes ▸ prefix_rfl
    · rw [map_map, show (Prod.fst ∘ fun x : Option R × Showing R => ([x.1], x.2)) =
        (fun ε => [ε]) ∘ Prod.fst from rfl, ← map_map]
      exact (hnodup.sublist (filter_sublist.map _)).map fun _ _ h => singleton_inj.1 h
    · intro p hp
      obtain ⟨x, hx, rfl⟩ := mem_map.1 hp
      obtain ⟨y, hy, hyx⟩ := any_eq_true.1 (mem_filter.1 hx).2
      exact ⟨y, hy, by rw [hlast (fits_of_mem hs.isChain hy), of_decide_eq_true hyx]⟩
    · intro z hz
      have hzs := (mem_tuples_backbone hs).2 hz
      obtain ⟨x, hx, hxz⟩ := mem_map.1 ((hentries _).1 (possible_of_fits hs.isChain hz))
      refine iff_of_true hzs (mem_map.2 ⟨([x.1], x.2), mem_map.2 ⟨x, ?_, rfl⟩, ?_⟩)
      · exact mem_filter.2 ⟨hx, any_eq_true.2 ⟨z, hzs, decide_eq_true hxz.symm⟩⟩
      · rw [hlast hz, hxz]
    · intro q hq
      obtain ⟨⟨c, m, hcm⟩, htag, hshow⟩ := hroutes q hq
      rw [hcm]
      refine reads_leaf hC hs haxes (fun p hp => ?_) htag hshow
      obtain ⟨x, hx, rfl⟩ := mem_map.1 hp
      exact ⟨x, (mem_filter.1 hx).1, rfl⟩
    · intro q hq hbq hqs c hc m
      have hqaxes : q.axes = s.axes := by
        refine hqs.eq_of_length (le_antisymm hqs.length_le ?_)
        rw [← haxes]
        exact hbq.length_le
      rw [Routes.contains_congr (ofColumn_beq ((hq.beq_iff hs).2 hqaxes) c m m)]
      exact hcovers c (columns_of_axes_eq hq.isChain hs.isChain hqaxes ▸ hc) m
    · intro e he
      obtain ⟨x, hx, rfl⟩ := mem_map.1 he
      obtain ⟨hx, hnone⟩ := mem_filter.1 hx
      refine ⟨x.1, ⟨?_, ?_⟩, ?_⟩
      · exact possible_congr hs.isChain hb.isChain haxes.symm ((hentries _).2 (mem_map_of_mem hx))
      · intro q hq _ _ _ _ _ _ _
        exact (hroutes q hq).2.2 x hx
      · intro y hy hyx
        rw [haxes, ← mem_tuples_backbone hs] at hy
        have : reached x := any_eq_true.2 ⟨y, hy, decide_eq_true hyx⟩
        simp [this] at hnone
    · rintro e (he | he)
      · rw [map_map] at he
        obtain ⟨x, hx, rfl⟩ := mem_map.1 he
        exact hsupported x (mem_filter.1 hx).1
      · obtain ⟨x, hx, rfl⟩ := mem_map.1 he
        exact hsupported x (mem_filter.1 hx).1
  · rw [map_map, show (Prod.snd ∘ fun x : Option R × Showing R => ([x.1], x.2)) = Prod.snd
      from rfl, ← map_append]
    exact (filter_append_perm reached entries).symm.map _

end Leaves

end Store

mutual

def Space.IsPlain (J : Join → Prop) : Space → Prop
  | .root _ => True
  | .scalar _ b => b.IsPlain J
  | .table m b t => (Space.table m b t).check = .ok () ∧ b.IsPlain J
  | .fiber m b j => J j ∧ (Space.fiber m b j).check = .ok () ∧ b.IsPlain J
  | .filtered _ b f => b.IsPlain J ∧ f.IsPlain J
  | .ordered _ b _ l o => l = none ∧ o = none ∧ b.IsPlain J
  | .quotient _ _ _ _ _ | .complement _ _ _ | .moniker _ _ _ _ | .forked _ _ _ _ _ | .linked _ _ _ _ _ =>
    False

/-- Codes of literals, parameters and columns that plain chains export. -/
def Code.IsPlain (J : Join → Prop) : Code → Prop
  | .literal _ _ _ | .parameter _ _ _ => True
  | .cast _ _ c => c.IsPlain J
  | .formula _ _ _ as => Code.ArePlain J as
  | .column _ d c u => u.IsPlain J ∧ d = c.domain ∧ c ∈ u.columns
  | .missing | .correlation _ _ | .single _ _ _ _ | .aggregate _ _ _ _ _ | .correlated _ _ _ _
  | .kernel _ _ _ | .covering _ _ _ => False

def Code.ArePlain (J : Join → Prop) : List Code → Prop
  | [] => True
  | c :: cs => c.IsPlain J ∧ Code.ArePlain J cs

end

variable {J : Join → Prop}

namespace Space

lemma IsPlain.isChain : ∀ {s : Space}, s.IsPlain J → s.IsChain J
  | .root m, _ => .root m
  | .scalar m _, h => .scalar m (isChain h)
  | .table m _ t, h => .table m t (isChain h.2) h.1
  | .fiber m _ _, h => .fiber m (isChain h.2.2) h.1 h.2.1
  | .filtered m _ f, h => .filtered m f (isChain h.1)
  | .ordered m _ os l o, h => .ordered m os l o (isChain h.2.2)

lemma IsBackbone.isPlain {s : Space} (h : s.IsBackbone J) : s.IsPlain J := by
  induction h with
  | root m => trivial
  | step _ hs ha hbase ih =>
    cases hs <;> cases hbase <;> cases ha
    · exact ih
    · exact ⟨‹_›, ih⟩
    · exact ⟨‹_›, ‹_›, ih⟩

lemma IsPlain.base {s b : Space} (h : s.IsPlain J) (hb : s.base? = some b) : b.IsPlain J := by
  cases s <;> cases hb
  · exact h
  · exact h.2
  · exact h.2.2
  all_goals first | exact h.elim | skip
  · exact h.1
  · exact h.2.2

lemma IsPlain.isCommutative {s : Space} (h : s.IsPlain J) : ∀ a ∈ s.ancestors, a.isCommutative := by
  intro a ha
  have hplain : a.IsPlain J := forall_mem_ancestors (fun _ _ hb h => h.base hb) h a ha
  cases a <;> first | rfl | simp [Space.isCommutative, hplain.1, hplain.2.1]

end Space

namespace Code

lemma distinct_spec (cs : List Code) : distinct cs ⊆ cs ∧ ∀ c ∈ cs, ∃ d ∈ distinct cs, (d == c) := by
  obtain ⟨hsub, -, hall, -⟩ := foldl_keep (fun d c : Code => d == c) cs []
  refine ⟨hsub, fun c hc => ?_⟩
  obtain ⟨d, hd, rfl | hdc⟩ := hall c hc
  · exact ⟨d, hd, BEq.rfl⟩
  · exact ⟨d, hd, hdc⟩

mutual

lemma units_plain : ∀ (c : Code), c.IsPlain J → ∀ u ∈ c.units, u.IsPlain J ∧ u.isColumn = true
  | .literal _ _ _, _, _, hu | .parameter _ _ _, _, _, hu => nomatch hu
  | .cast _ _ c, h, u, hu => units_plain c h u hu
  | .formula _ _ _ as, h, u, hu => unitsOfAll_plain as h u ((distinct_spec _).1 hu)
  | .column _ _ _ _, h, u, hu => by
    obtain rfl := mem_singleton.1 hu
    exact ⟨h, rfl⟩

lemma unitsOfAll_plain : ∀ (cs : List Code), ArePlain J cs → ∀ u ∈ unitsOfAll cs,
    u.IsPlain J ∧ u.isColumn = true
  | [], _, _, hu => nomatch hu
  | c :: cs, h, u, hu => by
    obtain hu | hu := mem_append.1 hu
    · exact units_plain c h.1 u hu
    · exact unitsOfAll_plain cs h.2 u hu

end

end Code

namespace Store

variable {R V : Type} [DecidableEq R] [DecidableEq V] {D : Store R V} {s b : Space} {r : Routes}
  {tags : List Nat} {real : List (Tuple R × Showing R)} {junk : List (Showing R)}

variable {p : Tuple R × Showing R} {z : Tuple R}

mutual

/-- A row shows the values of plain codes whose units are routed. -/
theorem Shows.read_plain (h : D.Shows J s b r tags real junk) (hp : p ∈ real)
    (hz : z ∈ D.tuples s) (hzp : z.drop b.hidden = p.1) :
    ∀ (c : Code), c.IsPlain J → (∀ u ∈ c.units, r.contains u) → D.read r p.2 c = D.value c s z
  | .literal _ _ _, _, _ | .parameter _ _ _, _, _ => rfl
  | .cast _ d c, hc, hr => congrArg (D.engine.cast d) (read_plain h hp hz hzp c hc hr)
  | .formula _ _ f as, hc, hr => by
    refine congrArg (D.engine.apply f) (readAll_plain h hp hz hzp as hc fun u hu => ?_)
    obtain ⟨v, hv, hvu⟩ := (Code.distinct_spec (Code.unitsOfAll as)).2 u hu
    rw [← Routes.contains_congr hvu]
    exact hr v hv
  | .column _ _ _ _, _, hr => h.read_column (hr _ (mem_singleton.2 rfl)) hp hz hzp

lemma Shows.readAll_plain (h : D.Shows J s b r tags real junk)
    (hp : p ∈ real) (hz : z ∈ D.tuples s) (hzp : z.drop b.hidden = p.1) :
    ∀ (cs : List Code), Code.ArePlain J cs → (∀ u ∈ Code.unitsOfAll cs, r.contains u) →
      D.readAll r p.2 cs = D.values cs s z
  | [], _, _ => rfl
  | c :: cs, hcs, hr => by
    rw [readAll, values, read_plain h hp hz hzp c hcs.1 fun u hu => hr u (mem_append_left _ hu),
      readAll_plain h hp hz hzp cs hcs.2 fun u hu => hr u (mem_append_right _ hu)]

end

end Store

end NavQuery
