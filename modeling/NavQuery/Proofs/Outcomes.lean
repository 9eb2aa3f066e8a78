import Mathlib.Data.List.Forall2
import NavQuery.Error
import NavQuery.Operator
import NavQuery.Value

/-!
`Ensures P` says of a result that its value has the property `P` and its error is one that may occur.
Which errors may occur, and which literals and formulas the stages are given, is told by a `Discipline`:
under that of types, literals and operands suit their domains and the errors are `Error.IsOutcome`.
-/

namespace NavQuery

open List

namespace Invariant

/-- The rules that no stage breaks, whatever the query asks for. -/
def isKept : Invariant → Bool
  | rootBase | scalarBase | fiberParts | quotientParts | linkParts | filterParts | orderingBase
  | castOperand | columnUnit | unitParts | aggregateParts | respacedUnit | segmentTerm | tableTerm
  | scalarExports | segmentClaims | claimedDescendant | forwardedClaim | demandedClaim | singleSupply
  | suppliedUnit | suppliedClaims | segmentFrame | boundPlaceholder | referenceIndex
  | embeddedFrame | kernelIndex => true
  | _ => false

end Invariant

namespace Error

/-- The errors that planning may end in: the query is wrong, the work would never end, a number has no
counterpart among the floating-point numbers, or a rule between the stages is broken. -/
inductive IsOutcome : Error → Prop
  | query (problem : Problem) (mark : Mark) : IsOutcome (.query problem mark)
  | endless : IsOutcome .endless
  | integer (n : Int) : IsOutcome (.literal (.float (Text.ofInt n)))
  | decimal (d : Decimal) : IsOutcome (.literal (.float d.write))
  | rule {rule : Invariant} (h : rule.isKept = false) : IsOutcome (.invariant rule)

end Error

/-- What the stages of planning are given and how they may end. The formulas include the conditions that
the stages make by themselves. -/
class Discipline where
  literal : Domain → Value → Prop
  formula : Domain → Operator → List Domain → Prop
  missing : Prop
  error : Error → Prop
  truth (b : Bool) : literal .boolean (.boolean b)
  conjunction {ds : List Domain} (h : ∀ d ∈ ds, d = .boolean) : formula .boolean (.plain .and) ds
  nullTest (d : Domain) (polarity : Int) : formula .boolean (.polar .isNull polarity) [d]
  equality (d e : Domain) (polarity : Int) : formula .boolean (.polar .isEqual polarity) [d, e]
  toPredicate (d : Domain) : formula d (.plain .toPredicate) [d]
  fromPredicate (d : Domain) : formula d (.plain .fromPredicate) [d]

/-- Planning may end in an error about the query or break a rule between the stages. -/
class Discipline.Tolerant extends Discipline where
  query (problem : Problem) (mark : Mark) : error (.query problem mark)
  rule {rule : Invariant} (h : rule.isKept = false) : error (.invariant rule)
  kind {v : Value} (h : literal .boolean v) : (∃ b, v = .boolean b) ∨ v = .null ∨ error .kindMismatch
  absent (h : missing) : error .missingEntry

class Discipline.Lenient extends Discipline.Tolerant where
  endless : error .endless

/-- Any literals and formulas are given, and some errors may occur. -/
abbrev Discipline.allowing (missing : Prop) (error : Error → Prop) : Discipline where
  literal _ _ := True
  formula _ _ _ := True
  missing := missing
  error := error
  truth _ := trivial
  conjunction _ := trivial
  nullTest _ _ := trivial
  equality _ _ _ := trivial
  toPredicate _ := trivial
  fromPredicate _ := trivial

abbrev Discipline.total : Discipline := .allowing True fun _ => False

abbrev Discipline.anything : Discipline.Lenient where
  __ := Discipline.allowing True fun _ => True
  query _ _ := trivial
  endless := trivial
  rule _ := trivial
  kind _ := .inr (.inr trivial)
  absent _ := trivial

/-- All rules between the stages may be broken that no stage is bound to keep. -/
def Discipline.Tolerates [Discipline] : Prop :=
  ∀ {rule : Invariant}, rule.isKept = false → Discipline.error (.invariant rule)

lemma Discipline.tolerates [Discipline.Tolerant] : Discipline.Tolerates := Discipline.Tolerant.rule

variable {α β ε : Type}

lemma ok_bind (a : α) (f : α → Except ε β) : (Except.ok a >>= f) = f a := rfl

variable {b : β} {x : Except ε α} {f : α → Except ε β} {l : List α} {bs : List β}

lemma exists_of_bind_eq_ok (h : x >>= f = .ok b) : ∃ a, x = .ok a ∧ f a = .ok b := by
  cases x with
  | error e => cases h
  | ok a => exact ⟨a, rfl, h⟩

lemma exists_of_map_eq_ok {f : α → β} (h : x.map f = .ok b) : ∃ a, x = .ok a ∧ f a = b := by
  cases x with
  | error e => cases h
  | ok a => exact ⟨a, rfl, Except.ok.inj h⟩

lemma forall₂_of_mapM_eq_ok (h : l.mapM f = .ok bs) : List.Forall₂ (fun a b => f a = .ok b) l bs := by
  induction l generalizing bs with
  | nil =>
    cases h
    exact .nil
  | cons a l ih =>
    rw [mapM_cons] at h
    obtain ⟨b, hb, h⟩ := exists_of_bind_eq_ok h
    obtain ⟨bs, hbs, h⟩ := exists_of_bind_eq_ok h
    cases h
    exact .cons hb (ih hbs)

lemma exists_of_forall₂ {R : α → β → Prop} (h : List.Forall₂ R l bs) {b : β} (hb : b ∈ bs) :
    ∃ a ∈ l, R a b := by
  induction h with
  | nil => cases hb
  | cons hab _ ih =>
    obtain rfl | hb := mem_cons.1 hb
    · exact ⟨_, mem_cons_self, hab⟩
    · exact exists_mem_cons_of_exists (ih hb)

lemma forall_mem_of_forall₂ {R : α → β → Prop} {P : β → Prop} (h : List.Forall₂ R l bs)
    (hP : ∀ a b, R a b → P b) : ∀ b ∈ bs, P b := fun b hb => by
  obtain ⟨a, _, hab⟩ := exists_of_forall₂ h hb
  exact hP a b hab

section Cons

variable {F : List α → List β} (as : List α)

lemma eq_map_of_cons {f : α → β} (hnil : F [] = []) (hcons : ∀ a as, F (a :: as) = f a :: F as) :
    F as = as.map f := by
  induction as with
  | nil => exact hnil
  | cons a as ih => rw [hcons, ih, map_cons]

lemma eq_flatMap_of_cons {f : α → List β} (hnil : F [] = []) (hcons : ∀ a as, F (a :: as) = f a ++ F as) :
    F as = as.flatMap f := by
  induction as with
  | nil => exact hnil
  | cons a as ih => rw [hcons, ih, flatMap_cons]

lemma eq_mapM_of_cons {F : List α → Except ε (List β)} (hnil : F [] = pure [])
    (hcons : ∀ a as, F (a :: as) = do return (← f a) :: (← F as)) : F as = as.mapM f := by
  induction as with
  | nil => exact hnil
  | cons a as ih => rw [hcons, ih, mapM_cons]

lemma eq_all_of_cons {f : α → Bool} {F : List α → Bool} (hnil : F [] = true)
    (hcons : ∀ a as, F (a :: as) = (f a && F as)) : F as = as.all f := by
  induction as with
  | nil => exact hnil
  | cons a as ih => rw [hcons, ih, all_cons]

end Cons

lemma map_eq_map_of_forall₂ {R : α → β → Prop} {γ : Type} {f : α → γ} {g : β → γ}
    (h : List.Forall₂ R l bs) (hfg : ∀ a b, R a b → f a = g b) : l.map f = bs.map g := by
  induction h with
  | nil => rfl
  | cons hab _ ih => rw [map_cons, map_cons, hfg _ _ hab, ih]

lemma forall_of_mapM_eq_ok {P : β → Prop} (h : l.mapM f = .ok bs) (hP : ∀ a b, f a = .ok b → P b) :
    ∀ b ∈ bs, P b :=
  forall_mem_of_forall₂ (forall₂_of_mapM_eq_ok h) hP

lemma exists_of_mapM_eq_ok (h : l.mapM f = .ok bs) {a : α} (ha : a ∈ l) : ∃ b, f a = .ok b := by
  obtain ⟨b, _, hab⟩ := exists_of_forall₂ (forall₂_of_mapM_eq_ok h).flip ha
  exact ⟨b, hab⟩

lemma exists_mapM_eq_ok (l : List α) (h : ∀ a ∈ l, ∃ b, f a = .ok b) : ∃ bs, l.mapM f = .ok bs := by
  induction l with
  | nil => exact ⟨[], rfl⟩
  | cons a l ih =>
    obtain ⟨b, hb⟩ := h a mem_cons_self
    obtain ⟨bs, hbs⟩ := ih fun a ha => h a (mem_cons_of_mem _ ha)
    exact ⟨b :: bs, by simp [hb, hbs, bind, Except.bind, pure, Except.pure]⟩

/-- The value of a result has a property, and its error is one that may occur. -/
def Ensures [Discipline] {α : Type} (P : α → Prop) : Result α → Prop
  | .ok a => P a
  | .error e => Discipline.error e

namespace Ensures

variable {α β S : Type} {P : α → Prop} {Q : β → Prop}

section Rules

variable [Discipline] {a : α} {r : Invariant}

lemma pure (h : P a) : Ensures P (Pure.pure a : Result α) := h

variable {x : Result α} {f : α → Result β} {l : List α}

lemma of_ok (h : Ensures P x) (hx : x = .ok a) : P a := by
  subst hx
  exact h

lemma imp {P' : α → Prop} (h : Ensures P x) (hp : ∀ a, P a → P' a) : Ensures P' x := by
  cases x with
  | ok a => exact hp a h
  | error e => exact h

lemma and_eq (h : Ensures P x) : Ensures (fun a => P a ∧ x = .ok a) x := by
  cases x with
  | ok a => exact ⟨h, rfl⟩
  | error e => exact h

lemma bind (hx : Ensures P x) (hf : ∀ a, P a → Ensures Q (f a)) : Ensures Q (x >>= f) := by
  cases x with
  | ok a => exact hf a hx
  | error e => exact hx

lemma ensure_of {b : Bool} (h : b = false → Discipline.error (.invariant r)) :
    Ensures (fun _ => b) (NavQuery.ensure b r) := by
  cases b with
  | true => exact rfl
  | false => exact h rfl

lemma require_of {o : Option α} (h : o = none → Discipline.error (.invariant r)) :
    Ensures (fun a => o = some a) (NavQuery.require o r) := by
  cases o with
  | some a => exact rfl
  | none => exact h rfl

lemma mapM_forall₂ {R : α → β → Prop}
    (h : ∀ a ∈ l, Ensures (R a) (f a)) : Ensures (List.Forall₂ R l) (l.mapM f) := by
  induction l with
  | nil => exact .nil
  | cons a l ih =>
    rw [forall_mem_cons] at h
    rw [mapM_cons]
    exact h.1.bind fun b hb => (ih h.2).bind fun bs hbs => .cons hb hbs

lemma mapM_exists {R : α → β → Prop} (h : ∀ a ∈ l, Ensures (R a) (f a)) :
    Ensures (fun bs => ∀ b ∈ bs, ∃ a ∈ l, R a b) (l.mapM f) :=
  (mapM_forall₂ h).imp fun _ hbs _ hb => exists_of_forall₂ hbs hb

lemma mapM (h : ∀ a ∈ l, Ensures Q (f a)) : Ensures (fun bs => ∀ b ∈ bs, Q b) (l.mapM f) :=
  (mapM_forall₂ (R := fun _ => Q) h).imp fun _ hbs => forall_mem_of_forall₂ hbs fun _ _ hb => hb

lemma foldlM {f : β → α → Result β} {b : β} (hb : Q b)
    (h : ∀ b, Q b → ∀ a ∈ l, Ensures Q (f b a)) : Ensures Q (l.foldlM f b) := by
  induction l generalizing b with
  | nil => exact hb
  | cons a l ih =>
    exact (h b hb a mem_cons_self).bind fun b' hb' =>
      ih hb' fun b hb a ha => h b hb a (mem_cons_of_mem _ ha)

section State

variable {R : α × S → Prop} {T : β × S → Prop} {s : S} {f : α → StateT S Result β} {l : List α}

lemma run_bind {x : StateT S Result α} (hx : Ensures R (x s))
    (hf : ∀ a u, R (a, u) → Ensures T (f a u)) : Ensures T ((x >>= f) s) :=
  hx.bind fun p hp => hf p.1 p.2 hp

variable {x : Result α}

lemma lift_bind (hx : Ensures P x)
    (hf : ∀ a, P a → Ensures T (f a s)) : Ensures T ((liftM x >>= f) s) := by
  cases x with
  | ok a => exact hf a hx
  | error e => exact hx

lemma run_get_bind {f : S → StateT S Result β} (h : Ensures T (f s s)) : Ensures T ((get >>= f) s) := h

lemma run_set_bind {u : S} {f : PUnit → StateT S Result β} (h : Ensures T (f ⟨⟩ u)) :
    Ensures T ((set u >>= f) s) := h

/-- A step for each item, with what holds of the value and the state before and after it. -/
theorem run_foldlM {f : β → α → StateT S Result β} {b : β} (hb : T (b, s))
    (h : ∀ b s, T (b, s) → ∀ a ∈ l, Ensures T (f b a s)) : Ensures T (l.foldlM f b s) := by
  induction l generalizing b s with
  | nil => exact hb
  | cons a l ih =>
    exact run_bind (h b s hb a mem_cons_self) fun b s hb =>
      ih hb fun b s hb a ha => h b s hb a (mem_cons_of_mem _ ha)

lemma run_mapM (h : ∀ a ∈ l, Ensures (fun p => Q p.1 ∧ p.2 = s) (f a s)) :
    Ensures (fun p => (∀ b ∈ p.1, Q b) ∧ p.2 = s) (l.mapM f s) := by
  induction l with
  | nil => exact ⟨nofun, rfl⟩
  | cons a l ih =>
    rw [forall_mem_cons] at h
    rw [mapM_cons]
    refine run_bind h.1 fun b u hb => ?_
    obtain ⟨hb, rfl⟩ := hb
    refine run_bind (ih h.2) fun bs u hbs => ?_
    exact ⟨forall_mem_cons.2 ⟨hb, hbs.1⟩, hbs.2⟩

/-- A step for each item, where each establishes what holds of the item from then on. -/
theorem run_forM {Rel : S → S → Prop} {Q : α → S → Prop} (hrefl : ∀ s, Rel s s)
    (htrans : ∀ {a b c}, Rel a b → Rel b c → Rel a c) (hmono : ∀ a {s u}, Q a s → Rel s u → Q a u)
    {f : α → StateT S Result PUnit}
    (h : ∀ a ∈ l, ∀ s, Ensures (fun p => Rel s p.2 ∧ Q a p.2) (f a s)) (s : S) :
    Ensures (fun p => Rel s p.2 ∧ ∀ a ∈ l, Q a p.2) (l.forM f s) := by
  induction l generalizing s with
  | nil => exact ⟨hrefl s, nofun⟩
  | cons a l ih =>
    refine run_bind (h a mem_cons_self s) fun _ u hu => ?_
    refine (ih (fun a ha => h a (mem_cons_of_mem _ ha)) u).imp fun p hp => ?_
    exact ⟨htrans hu.1 hp.1, forall_mem_cons.2 ⟨hmono a hu.2 hp.1, hp.2⟩⟩

lemma run_lift (hx : Ensures P x) :
    Ensures (fun p => P p.1 ∧ p.2 = s) ((liftM x : StateT S Result α) s) := by
  cases x with
  | ok a => exact ⟨hx, rfl⟩
  | error e => exact hx

lemma run_pure {a : α} (h : R (a, s)) : Ensures R ((Pure.pure a : StateT S Result α) s) := h

lemma run_throw {e : Error} (h : Discipline.error e) : Ensures R ((throw e : StateT S Result α) s) := h

end State

end Rules

section Total

attribute [local instance] Discipline.total

variable {r : Result α} {a : α}

lemma exists_eq_ok (h : Ensures P r) : ∃ a, r = .ok a ∧ P a := by
  cases r with
  | ok a => exact ⟨a, rfl, h⟩
  | error e => exact False.elim h

lemma of_eq_ok (hr : r = .ok a) (h : P a) : Ensures P r := by
  subst hr
  exact h

end Total

end Ensures

/-- Nothing is said of the value of a result, and its error is one that may occur. -/
abbrev Passes [Discipline] {α : Type} (x : Result α) : Prop := Ensures (fun _ => True) x

namespace Passes

variable [Discipline] {α β γ δ : Type} {x : Result α} {y : Result β} {z : Result γ}

lemma bind {f : α → Result β} {Q : β → Prop} (h : Passes x) (hf : ∀ a, Ensures Q (f a)) :
    Ensures Q (x >>= f) := Ensures.bind h fun a _ => hf a

lemma map {f : α → β} (hx : Passes x) : Passes (do return f (← x)) := hx.bind fun _ => trivial

lemma map₂ {f : α → β → γ} (hx : Passes x) (hy : Passes y) : Passes (do return f (← x) (← y)) :=
  hx.bind fun _ => hy.map

lemma map₃ {f : α → β → γ → δ} (hx : Passes x) (hy : Passes y) (hz : Passes z) :
    Passes (do return f (← x) (← y) (← z)) := hx.bind fun _ => hy.map₂ hz

lemma mapM {l : List α} {f : α → Result β} (h : ∀ a ∈ l, Passes (f a)) : Passes (l.mapM f) :=
  (Ensures.mapM h).imp fun _ _ => trivial

end Passes

section Anything

attribute [local instance] Discipline.anything

lemma Passes.any (x : Result α) : Passes x := by cases x <;> exact trivial

end Anything

namespace Ensures

variable {α : Type} {P : α → Prop}

section Tolerant

variable [Discipline.Tolerant]

lemma query (problem : Problem) (mark : Mark) :
    Ensures P (.error (.query problem mark)) := Discipline.Tolerant.query problem mark

variable {r : Invariant}

lemma ensure (b : Bool) (h : r.isKept = false) :
    Ensures (fun _ => b) (NavQuery.ensure b r) := ensure_of fun _ => Discipline.Tolerant.rule h

lemma require (o : Option α) (h : r.isKept = false) :
    Ensures (fun a => o = some a) (NavQuery.require o r) := require_of fun _ => Discipline.Tolerant.rule h

end Tolerant

end Ensures

namespace Operator

def least (f : Operator) : Nat :=
  match f.kind with
  | .isEqual | .isTotallyEqual | .compare | .add | .subtract | .multiply | .divide | .like | .concat => 2
  | .isIn | .isNull | .not | .negate | .exists | .toPredicate | .fromPredicate => 1
  | _ => 0

def isUniform (f : Operator) : Bool :=
  match f.kind with
  | .and | .or | .not | .ifNull | .concat | .toPredicate | .fromPredicate => true
  | _ => false

def result? (f : Operator) : Option Domain :=
  match f.kind with
  | .isEqual | .isTotallyEqual | .isIn | .isNull | .compare | .and | .or | .not | .like | .exists =>
    some .boolean
  | .concat => some .text
  | _ => none

/-- The domains of a formula and its operands suit the operator. -/
structure Takes (f : Operator) (d : Domain) (ds : List Domain) : Prop where
  least : f.least ≤ ds.length
  uniform : f.isUniform → ∀ e ∈ ds, e = d
  result : ∀ e, f.result? = some e → d = e

end Operator

/-- The values that can be written as literals of a domain. Booleans and missing values have the same
form in all domains. -/
def Domain.writes : Domain → Value → Bool
  | _, .null => true
  | _, .boolean _ => true
  | .boolean, .text _ => false
  | _, .text _ | .integer, .integer _ => true
  | .float, .float _ | .decimal, .decimal _ | .date, .date _ | .time, .time _ | .dateTime, .dateTime _ =>
    true
  | _, _ => false

abbrev Discipline.typed : Discipline.Lenient where
  literal d v := d.writes v = true
  formula d f ds := f.Takes d ds
  missing := False
  error := Error.IsOutcome
  truth _ := rfl
  conjunction h := ⟨Nat.zero_le _, fun _ => h, fun _ he => Option.some.inj he⟩
  nullTest _ _ := ⟨Nat.le_refl 1, nofun, fun _ he => Option.some.inj he⟩
  equality _ _ _ := ⟨Nat.le_refl 2, nofun, fun _ he => Option.some.inj he⟩
  toPredicate _ := ⟨Nat.le_refl 1, fun _ => List.forall_mem_singleton.2 rfl, nofun⟩
  fromPredicate _ := ⟨Nat.le_refl 1, fun _ => List.forall_mem_singleton.2 rfl, nofun⟩
  query := .query
  endless := .endless
  rule := .rule
  kind {v} h := by
    cases v with
    | boolean b => exact .inl ⟨b, rfl⟩
    | null => exact .inr (.inl rfl)
    | _ => cases h
  absent := False.elim

end NavQuery
