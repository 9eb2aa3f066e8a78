import NavQuery.Space

/-!
Marks and companions say nothing about rows or values, and literals count by what they denote. So every
space and code has a form without them.
-/

namespace NavQuery

namespace Binary64

def unsigned (x : Binary64) : Binary64 := if x.isZero then ⟨0⟩ else x

theorem bits_inj {x y : Binary64} : x.bits = y.bits ↔ x = y := by
  cases x
  cases y
  simp

theorem isNaN_of_isZero {x : Binary64} (h : x.isZero) : x.isNaN = false := by
  simp only [isZero, Bool.and_eq_true, beq_iff_eq] at h
  simp [isNaN, h.1]

theorem same_or_beq_iff (x y : Binary64) :
    (x.same y || x == y) ↔ x.unsigned = y.unsigned := by
  have hzero : isZero ⟨0⟩ := by decide
  cases hx : x.isZero <;> cases hy : y.isZero
  · simp only [same, hx, hy, unsigned, bits_inj, Bool.false_and, Bool.or_false, Bool.or_eq_true,
      Bool.and_eq_true, beq_iff_eq, Bool.false_eq_true, if_false]
    exact ⟨fun h => h.elim (·.2) id, .inr⟩
  · have hne : x ≠ y := fun h => by simp_all
    have hne0 : x ≠ ⟨0⟩ := fun h => by simp_all
    simp [same, hx, hy, unsigned, bits_inj, hne, hne0]
  · have hne : x ≠ y := fun h => by simp_all
    have hne0 : ⟨0⟩ ≠ y := fun h => by simp_all
    simp [same, hx, hy, unsigned, bits_inj, hne, hne0]
  · simp [same, hx, hy, unsigned, isNaN_of_isZero hx, isNaN_of_isZero hy]

end Binary64

namespace Value

mutual

/-- The value in one form for all values that literals of the same denotation hold. -/
def normal : Value → Value
  | null => null
  | boolean b => boolean b
  | integer n => integer n
  | float x => float x.unsigned
  | decimal d => decimal d.normalize
  | text t => text t
  | date d => date d
  | time t => time t
  | dateTime t => dateTime t
  | list vs => list (normalAll vs)

def normalAll : List Value → List Value
  | [] => []
  | v :: vs => normal v :: normalAll vs

end

mutual

theorem sameBy_iff_normal : ∀ v w : Value,
    sameBy (fun x y => x.same y || x == y) v w ↔ v.normal = w.normal
  | null, w | boolean _, w | integer _, w | text _, w | date _, w | time _, w | dateTime _, w => by
    cases w <;> simp [sameBy, normal]
  | float x, w => by
    cases w with
    | float y => simpa only [sameBy, normal, float.injEq] using Binary64.same_or_beq_iff x y
    | _ => simp [sameBy, normal]
  | decimal d, w => by cases w <;> simp [sameBy, normal, Decimal.same]
  | list vs, w => by
    cases w with
    | list ws => simpa only [sameBy, normal, list.injEq] using sameAllBy_iff_normal vs ws
    | _ => simp [sameBy, normal]

theorem sameAllBy_iff_normal : ∀ vs ws : List Value,
    sameAllBy (fun x y => x.same y || x == y) vs ws ↔ normalAll vs = normalAll ws
  | [], ws => by cases ws <;> simp [sameAllBy, normalAll]
  | v :: vs, [] => by simp [sameAllBy, normalAll]
  | v :: vs, w :: ws => by
    rw [sameAllBy, Bool.and_eq_true, sameBy_iff_normal v w, sameAllBy_iff_normal vs ws]
    simp [normalAll]

end

theorem alike_iff_normal (v w : Value) : v.alike w ↔ v.normal = w.normal :=
  sameBy_iff_normal v w

end Value

mutual

def Space.unmarked : Space → Space
  | .root _ => .root .nowhere
  | .scalar _ b => .scalar .nowhere b.unmarked
  | .table _ b t => .table .nowhere b.unmarked t
  | .fiber _ b j => .fiber .nowhere b.unmarked j
  | .quotient _ b s ks _ => .quotient .nowhere b.unmarked s.unmarked (Code.unmarkedAll ks) []
  | .complement _ b _ => .complement .nowhere b.unmarked []
  | .moniker _ b s _ => .moniker .nowhere b.unmarked s.unmarked []
  | .forked _ b s ks _ => .forked .nowhere b.unmarked s.unmarked (Code.unmarkedAll ks) []
  | .linked _ b s is _ => .linked .nowhere b.unmarked s.unmarked (Code.unmarkedImages is) []
  | .filtered _ b f => .filtered .nowhere b.unmarked f.unmarked
  | .ordered _ b os l o => .ordered .nowhere b.unmarked (Code.unmarkedOrder os) l o

def Code.unmarked : Code → Code
  | .missing => .missing
  | .literal _ d v => .literal .nowhere d v.normal
  | .parameter _ d n => .parameter .nowhere d n
  | .cast _ d c => .cast .nowhere d c.unmarked
  | .formula _ d f as => .formula .nowhere d f (Code.unmarkedAll as)
  | .correlation _ c => .correlation .nowhere c.unmarked
  | .column _ d c s => .column .nowhere d c s.unmarked
  | .single _ c s _ => .single .nowhere c.unmarked s.unmarked []
  | .aggregate _ c p s _ => .aggregate .nowhere c.unmarked p.unmarked s.unmarked []
  | .correlated _ c p s => .correlated .nowhere c.unmarked p.unmarked s.unmarked
  | .kernel _ c s => .kernel .nowhere c.unmarked s.unmarked
  | .covering _ c s => .covering .nowhere c.unmarked s.unmarked

def Code.unmarkedAll : List Code → List Code
  | [] => []
  | c :: cs => c.unmarked :: Code.unmarkedAll cs

def Code.unmarkedImages : List (Code × Code) → List (Code × Code)
  | [] => []
  | i :: is => Code.unmarkedImage i :: Code.unmarkedImages is

def Code.unmarkedImage : Code × Code → Code × Code
  | (a, b) => (a.unmarked, b.unmarked)

def Code.unmarkedOrder : List (Code × Direction) → List (Code × Direction)
  | [] => []
  | o :: os => Code.unmarkedItem o :: Code.unmarkedOrder os

def Code.unmarkedItem : Code × Direction → Code × Direction
  | (c, d) => (c.unmarked, d)

end

end NavQuery
