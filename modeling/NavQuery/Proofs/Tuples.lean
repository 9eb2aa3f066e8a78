import NavQuery.Proofs.Interpretation
import NavQuery.Proofs.Outcomes
import NavQuery.Proofs.Unmarked
import NavQuery.Space.Build
import NavQuery.Space.Weight

/-!
A row of a chain is a tuple with one table row for each axis. Two tuples converge if they agree on the
axes that their spaces have in common from the root on.
-/

namespace NavQuery

open Space

variable {s t : Space}

inductive Axis
  | root
  | scalar
  | table (table : Table)
  | fiber (join : Join)
deriving DecidableEq

namespace Axis

def contracting : Axis → Bool
  | root | table _ => false
  | scalar => true
  | fiber j => j.contracting

def expanding : Axis → Bool
  | root | table _ => false
  | scalar => true
  | fiber j => j.expanding

def table? : Axis → Option Table
  | root | scalar => none
  | table t => some t
  | fiber j => some j.target

end Axis

namespace Space

def axis? : Space → Option Axis
  | root _ => some .root
  | scalar _ _ => some .scalar
  | table _ _ t => some (.table t)
  | fiber _ _ j => some (.fiber j)
  | _ => none

def axes : Space → List Axis
  | root _ => [.root]
  | scalar _ b => axes b ++ [.scalar]
  | table _ b t => axes b ++ [.table t]
  | fiber _ b j => axes b ++ [.fiber j]
  | quotient _ b _ _ _ | complement _ b _ | moniker _ b _ _ | forked _ b _ _ _ | linked _ b _ _ _
  | filtered _ b _ | ordered _ b _ _ _ => axes b

lemma mem_ancestors_self (s : Space) : s ∈ s.ancestors := by
  cases s <;> rw [ancestors] <;> exact List.mem_cons_self

/-- Chains of the root, unit rows, tables, joins, filters and sorts whose steps fit their bases; the
joins are among given ones. -/
inductive IsChain (J : Join → Prop) : Space → Prop
  | root (m : Mark) : IsChain J (root m)
  | scalar (m : Mark) {b : Space} (hb : IsChain J b) : IsChain J (scalar m b)
  | table (m : Mark) {b : Space} (t : Table) (hb : IsChain J b)
      (fits : (table m b t).check = .ok ()) : IsChain J (table m b t)
  | fiber (m : Mark) {b : Space} {j : Join} (hb : IsChain J b) (hj : J j)
      (fits : (fiber m b j).check = .ok ()) : IsChain J (fiber m b j)
  | filtered (m : Mark) {b : Space} (f : Code) (hb : IsChain J b) : IsChain J (filtered m b f)
  | ordered (m : Mark) {b : Space} (os : List OrderItem) (l o : Option Int) (hb : IsChain J b) :
    IsChain J (ordered m b os l o)

end Space

def commonRun : List Axis → List Axis → Nat
  | a :: as, b :: bs => if a = b then commonRun as bs + 1 else 0
  | _, _ => 0

/-- An entry for each axis from the root on: a row of a table, or nothing for a unit row. -/
abbrev Tuple (R : Type) := List (Option R)

def Space.Converge {R : Type} (s t : Space) (x y : Tuple R) : Prop :=
  x.take (commonRun s.axes t.axes) = y.take (commonRun s.axes t.axes)

instance {R : Type} [DecidableEq R] (s t : Space) (x y : Tuple R) : Decidable (s.Converge t x y) :=
  inferInstanceAs (Decidable (_ = _))

def Tuple.last {R : Type} (x : Tuple R) : Option R := x.getLast?.join

/-- The last row of the first tuple, among given ones of a space, that converges with a tuple of
another space. -/
def Tuple.pick {R : Type} [DecidableEq R] (s : Space) (x : Tuple R) (u : Space)
    (ys : List (Tuple R)) : Option R :=
  (ys.find? (s.Converge u x ·)).bind Tuple.last

/-- The positions from an offset on, as many as a limit allows. -/
def slice {α : Type} (limit offset : Option Int) (xs : List α) : List α :=
  let rest := xs.drop (offset.getD 0).toNat
  limit.elim rest fun n => rest.take n.toNat

structure Store (R V : Type) where
  engine : Interpretation V
  rows : Table → List R
  nodup_rows : ∀ t, (rows t).Nodup
  cell : R → Column → V
  other : Code → List Axis → Tuple R → V
  precedes : List OrderItem → Tuple R → Tuple R → Bool
  other_same : ∀ c d, (c == d) → other c = other d
  precedes_same : ∀ os ps, Code.sameOrder os ps → precedes os = precedes ps

namespace Store

variable {R V : Type} [DecidableEq R] [DecidableEq V] (D : Store R V)

/-- Whether a join leads from a row to another: the columns are equal and not null. -/
def meets (j : Join) (r s : R) : Bool :=
  (j.originColumns.zip j.targetColumns).all fun (o, t) =>
    decide (D.cell r o ≠ D.engine.null ∧ D.cell r o = D.cell s t)

omit [DecidableEq R] in
variable {D} in
lemma meets_iff {j : Join} {r s : R} : D.meets j r s ↔ ∀ p ∈ j.originColumns.zip j.targetColumns,
    D.cell r p.1 ≠ D.engine.null ∧ D.cell r p.1 = D.cell s p.2 := by
  simp only [meets, List.all_eq_true, decide_eq_true_eq]

/-- Whether a join leads from the last row of a tuple to a row. -/
def follows (j : Join) (x : Tuple R) (s : R) : Bool := x.last.any (D.meets j · s)

def Contracts (J : Join → Prop) : Prop :=
  ∀ j, J j → j.contracting → ∀ r ∈ D.rows j.origin, ∀ s ∈ D.rows j.target,
    ∀ t ∈ D.rows j.target, D.meets j r s → D.meets j r t → s = t

def Expands (J : Join → Prop) : Prop :=
  ∀ j, J j → j.expanding → ∀ r ∈ D.rows j.origin, ∃ s ∈ D.rows j.target, D.meets j r s = true

end Store

mutual

def Store.tuples {R V : Type} [DecidableEq R] [DecidableEq V] (D : Store R V) :
    Space → List (Tuple R)
  | .root _ => [[none]]
  | .scalar _ b => (D.tuples b).map (· ++ [none])
  | .table _ b t => (D.tuples b).flatMap fun x => (D.rows t).map fun r => x ++ [some r]
  | .fiber _ b j => (D.tuples b).flatMap fun x =>
    ((D.rows j.target).filter (D.follows j x)).map fun r => x ++ [some r]
  | .quotient _ _ _ _ _ | .complement _ _ _ | .moniker _ _ _ _ | .forked _ _ _ _ _ | .linked _ _ _ _ _ => []
  | .filtered _ b f => (D.tuples b).filter fun x => D.engine.isTrue (D.value f b x)
  | .ordered _ b os l o =>
    if l.isNone && o.isNone then D.tuples b
    else slice l o ((D.tuples b).mergeSort (D.precedes os))

/-- The value of a code for a tuple of a space. A column is that of the tuple of its own space that
converges with the given one, or null if there is none. -/
def Store.value {R V : Type} [DecidableEq R] [DecidableEq V] (D : Store R V) :
    Code → Space → Tuple R → V
  | .missing, s, x => D.other .missing s.axes x
  | .literal _ _ v, _, _ => D.engine.literal v
  | .parameter _ d n, _, _ => D.engine.parameter d n
  | .cast _ d c, s, x => D.engine.cast d (D.value c s x)
  | .formula _ _ f as, s, x => D.engine.apply f (D.values as s x)
  | .correlation m c, s, x => D.other (.correlation m c) s.axes x
  | .column _ _ c u, s, x =>
    (Tuple.pick s x u (D.tuples u)).elim D.engine.null (D.cell · c)
  | .single m c u cs, s, x => D.other (.single m c u cs) s.axes x
  | .aggregate m c p u cs, s, x => D.other (.aggregate m c p u cs) s.axes x
  | .correlated m c p u, s, x => D.other (.correlated m c p u) s.axes x
  | .kernel m c u, s, x => D.other (.kernel m c u) s.axes x
  | .covering m c u, s, x => D.other (.covering m c u) s.axes x

def Store.values {R V : Type} [DecidableEq R] [DecidableEq V] (D : Store R V) :
    List Code → Space → Tuple R → List V
  | [], _, _ => []
  | c :: cs, s, x => D.value c s x :: D.values cs s x

end

section CommonRun

lemma le_commonRun_iff {α β : List Axis} {k : Nat} :
    k ≤ commonRun α β ↔ k ≤ α.length ∧ k ≤ β.length ∧ α.take k = β.take k := by
  induction α generalizing β k with
  | nil => cases k <;> simp [commonRun]
  | cons a as ih =>
    cases β with
    | nil => cases k <;> simp [commonRun]
    | cons b bs =>
      cases k with
      | zero => simp
      | succ k =>
        by_cases hab : a = b
        · simp [commonRun, hab, ih]
        · simp [commonRun, hab]

lemma commonRun_le_left (α β : List Axis) : commonRun α β ≤ α.length :=
  (le_commonRun_iff.1 le_rfl).1

lemma commonRun_le_right (α β : List Axis) : commonRun α β ≤ β.length :=
  (le_commonRun_iff.1 le_rfl).2.1

lemma take_commonRun (α β : List Axis) : α.take (commonRun α β) = β.take (commonRun α β) :=
  (le_commonRun_iff.1 le_rfl).2.2

lemma commonRun_comm (α β : List Axis) : commonRun α β = commonRun β α :=
  le_antisymm (le_commonRun_iff.2
      ⟨commonRun_le_right α β, commonRun_le_left α β, (take_commonRun α β).symm⟩)
    (le_commonRun_iff.2 ⟨commonRun_le_right β α, commonRun_le_left β α, (take_commonRun β α).symm⟩)

end CommonRun

section Unmarked

@[simp] lemma Space.axes_unmarked : ∀ s : Space, s.unmarked.axes = s.axes
  | .root _ => by simp [unmarked, Space.axes]
  | .scalar _ b | .table _ b _ | .fiber _ b _ | .quotient _ b _ _ _ | .complement _ b _
  | .moniker _ b _ _ | .forked _ b _ _ _ | .linked _ b _ _ _ | .filtered _ b _
  | .ordered _ b _ _ _ => by simp [unmarked, Space.axes, Space.axes_unmarked b]

lemma Store.other_unmarked {R V : Type} (D : Store R V) (c : Code) : D.other c.unmarked = D.other c :=
  D.other_same _ _ c.unmarked_beq

lemma Tuple.pick_congr {R : Type} [DecidableEq R] {u v : Space} (h : s.axes = t.axes)
    (hu : u.axes = v.axes) (x : Tuple R) (ys : List (Tuple R)) :
    pick s x u ys = pick t x v ys := by
  simp only [pick, Converge, h, hu]
  rfl

variable {R V : Type} [DecidableEq R] [DecidableEq V] (D : Store R V)

lemma Store.values_eq_map (cs : List Code) (s : Space) (x : Tuple R) :
    D.values cs s x = cs.map fun c => D.value c s x :=
  eq_map_of_cons (F := (D.values · s x)) cs rfl fun _ _ => rfl

mutual

lemma Store.value_congr (h : s.axes = t.axes) (x : Tuple R) :
    ∀ c : Code, D.value c s x = D.value c t x
  | .literal _ _ _ | .parameter _ _ _ => by simp [Store.value]
  | .cast _ _ c => by simp [Store.value, Store.value_congr h x c]
  | .formula _ _ _ as => by simp [Store.value, Store.values_congr h x as]
  | .column _ _ _ _ => by simp [Store.value, Tuple.pick_congr h rfl]
  | .missing | .correlation _ _ | .single _ _ _ _ | .aggregate _ _ _ _ _ | .correlated _ _ _ _
  | .kernel _ _ _ | .covering _ _ _ => by simp [Store.value, h]

lemma Store.values_congr (h : s.axes = t.axes) (x : Tuple R) :
    ∀ cs : List Code, D.values cs s x = D.values cs t x
  | [] => rfl
  | c :: cs => by simp [Store.values, Store.value_congr h x c, Store.values_congr h x cs]

end

mutual

lemma Store.tuples_unmarked : ∀ s : Space, D.tuples s.unmarked = D.tuples s
  | .root _ | .quotient _ _ _ _ _ | .complement _ _ _ | .moniker _ _ _ _ | .forked _ _ _ _ _
  | .linked _ _ _ _ _ => by simp [unmarked, Store.tuples]
  | .scalar _ b | .table _ b _ | .fiber _ b _ => by
    simp [unmarked, Store.tuples, Store.tuples_unmarked b]
  | .filtered _ b f => by
    simp only [unmarked, Store.tuples, Store.tuples_unmarked b]
    refine List.filter_congr fun x _ => ?_
    rw [D.value_congr b.axes_unmarked x, Store.value_unmarked f]
  | .ordered _ b os _ _ => by
    have horder : D.precedes (Code.unmarkedOrder os) = D.precedes os :=
      D.precedes_same _ _ (Code.sameOrder_iff_unmarked.2 (Code.unmarkedOrder_unmarkedOrder os))
    simp [unmarked, Store.tuples, Store.tuples_unmarked b, horder]

lemma Store.value_unmarked : ∀ (c : Code) (s : Space) (x : Tuple R),
    D.value c.unmarked s x = D.value c s x
  | .literal _ _ v, s, x => by
    simp [Code.unmarked, Store.value, D.engine.literal_alike _ _ v.normal_alike]
  | .parameter _ _ _, s, x => by simp [Code.unmarked, Store.value]
  | .cast _ _ c, s, x => by simp [Code.unmarked, Store.value, Store.value_unmarked c s x]
  | .formula _ _ _ as, s, x => by simp [Code.unmarked, Store.value, Store.values_unmarked as s x]
  | .column _ _ _ u, s, x => by
    simp [Code.unmarked, Store.value, Store.tuples_unmarked u, Tuple.pick_congr rfl u.axes_unmarked]
  | .missing, s, x => by simp [Code.unmarked]
  | .correlation m c, s, x => congrFun (congrFun (D.other_unmarked (.correlation m c)) _) _
  | .single m c u cs, s, x => congrFun (congrFun (D.other_unmarked (.single m c u cs)) _) _
  | .aggregate m c p u cs, s, x =>
    congrFun (congrFun (D.other_unmarked (.aggregate m c p u cs)) _) _
  | .correlated m c p u, s, x => congrFun (congrFun (D.other_unmarked (.correlated m c p u)) _) _
  | .kernel m c u, s, x => congrFun (congrFun (D.other_unmarked (.kernel m c u)) _) _
  | .covering m c u, s, x => congrFun (congrFun (D.other_unmarked (.covering m c u)) _) _

lemma Store.values_unmarked : ∀ (cs : List Code) (s : Space) (x : Tuple R),
    D.values (Code.unmarkedAll cs) s x = D.values cs s x
  | [], _, _ => rfl
  | c :: cs, s, x => by
    simp [Code.unmarkedAll, Store.values, Store.value_unmarked c s x, Store.values_unmarked cs s x]

end

lemma Store.tuples_of_beq (h : (s == t)) : D.tuples s = D.tuples t := by
  rw [← D.tuples_unmarked s, beq_iff_unmarked.1 h, D.tuples_unmarked]

lemma Store.value_of_beq {c d : Code} (h : (c == d)) (s : Space) (x : Tuple R) :
    D.value c s x = D.value d s x := by
  rw [← D.value_unmarked c, Code.beq_iff_unmarked.1 h, D.value_unmarked]

lemma Space.axes_of_beq (h : (s == t)) : s.axes = t.axes := by
  rw [← s.axes_unmarked, beq_iff_unmarked.1 h, t.axes_unmarked]

end Unmarked

/-- A store whose values are known coarsely. Units other than columns are null, and sorts keep the order
in which the rows are listed. -/
def Store.coarse {R : Type} (rows : Table → List R) (h : ∀ t, (rows t).Nodup)
    (cell : R → Column → Option (Option Bool)) : Store R (Option (Option Bool)) where
  engine := .coarse
  rows := rows
  nodup_rows := h
  cell := cell
  other _ _ _ := none
  precedes _ _ _ := true
  other_same _ _ _ := rfl
  precedes_same _ _ _ := rfl

/-! A store of two schools and two departments, of which only the second is open. Both belong to the
second school. -/

namespace Sample

def schoolCode : Column := ⟨0, "code", ⟨"ad", "school"⟩, .text, false, false⟩

def school : Table := ⟨⟨"ad", "school"⟩, [schoolCode], [⟨[0], true, false⟩], [], [0]⟩

def departmentCode : Column := ⟨0, "code", ⟨"ad", "department"⟩, .text, false, false⟩

def isOpen : Column := ⟨1, "open", ⟨"ad", "department"⟩, .boolean, true, false⟩

def homeCode : Column := ⟨2, "school_code", ⟨"ad", "department"⟩, .text, false, false⟩

def department : Table :=
  ⟨⟨"ad", "department"⟩, [departmentCode, isOpen, homeCode], [⟨[0], true, false⟩], [0], []⟩

def home : Join := ⟨0, false, department, school, [homeCode], [schoolCode], true, true⟩

abbrev Row := Bool × Bool

def rows (t : Table) : List Row :=
  if t = school then [(true, false), (true, true)]
  else if t = department then [(false, false), (false, true)]
  else []

lemma nodup_rows (t : Table) : (rows t).Nodup := by
  unfold rows
  split
  · decide
  · split <;> decide

def store : Store Row (Option (Option Bool)) :=
  .coarse rows nodup_rows fun r c => if c = homeCode then some (some true) else some (some r.2)

def departments : Space := .table .nowhere (.root .nowhere) department

def schools : Space := .fiber .nowhere departments home

def openDepartments : Space :=
  .filtered .nowhere departments (.column .nowhere .boolean isOpen departments)

lemma contracts : store.Contracts (· = home) := by
  rintro j rfl - r hr s hs t ht hrs hrt
  revert r s t
  decide

lemma expands : store.Expands (· = home) := by
  rintro j rfl - r hr
  revert r
  decide

lemma departments_isChain : departments.IsChain (· = home) := .table _ _ (.root _) rfl

lemma schools_isChain : schools.IsChain (· = home) := .fiber _ departments_isChain rfl rfl

end Sample

end NavQuery
