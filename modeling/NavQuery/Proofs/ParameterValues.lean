import Mathlib.Tactic.Lemma
import NavQuery.Plan

/-!
Planning reads of a parameter its declared domain and nothing else. The binder is the only stage that
sees the environment, so the proof is an induction over the expression.
-/

namespace NavQuery

def Environment.declared? (e : Environment) (name : Text) : Option Domain :=
  (e.lookup name).map (·.domain.getD .untyped)

namespace Binding

section Parameters

abbrev Redeclares (ps : List (Text × Domain)) (c : Context) : Prop :=
  ∀ name, ps.lookup name = c.parameters.lookup name

variable {c : Context} {ps : List (Text × Domain)}

lemma referenceOf_congr (h : Redeclares ps c) (mark : Mark) (name : Text) :
    referenceOf { c with parameters := ps } mark name = referenceOf c mark name := by
  unfold referenceOf
  rw [h name]

mutual

lemma ofExpr_congr (h : Redeclares ps c) (e : Expr) :
    ofExpr { c with parameters := ps } e = ofExpr c e := by
  funext scope
  cases e with
  | name | string | number | wildcard | complement =>
    rfl
  | reference s n =>
    exact referenceOf_congr h _ n
  | call s f arguments =>
    rw [ofExpr, operands_congr h arguments]
    rfl
  | record s items =>
    rw [ofExpr, operands_congr h items]
    rfl
  | group s e => rw [ofExpr, ofExpr, ofExpr_congr h e]
  | compose s base field =>
    rw [ofExpr, ofExpr_congr h base, ofExpr_congr h field]
    rfl
  | link s origin seed =>
    rw [ofExpr, recordItems_congr h origin, ofExpr_congr h origin, ofExpr_congr h seed]
    rfl
  | sieve s base condition =>
    rw [ofExpr, ofExpr_congr h base, ofExpr_congr h condition]
    rfl
  | project s base key =>
    rw [ofExpr, recordItems_congr h key, ofExpr_congr h key, ofExpr_congr h base]
    rfl
  | select s base braces items =>
    rw [ofExpr, ofExpr_congr h base, operands_congr h items]
    rfl
  | direct _ operand _ | unary _ _ operand =>
    rw [ofExpr, ofExpr_congr h operand]
    rfl
  | binary s op left right =>
    rw [ofExpr, recordItems_congr h right, ofExpr_congr h left, ofExpr_congr h right]
    rfl

lemma operands_congr (h : Redeclares ps c) (es : List Expr) :
    operands { c with parameters := ps } es = operands c es := by
  cases es with
  | nil => rw [operands, operands]
  | cons e es => rw [operands, operands, ofExpr_congr h e, shapeOf_congr h e, operands_congr h es]

lemma recordItems_congr (h : Redeclares ps c) (e : Expr) :
    recordItems { c with parameters := ps } e = recordItems c e := by
  cases e with
  | record s items => rw [recordItems, recordItems, operands_congr h items]
  | _ => simp only [recordItems]

lemma shapeOf_congr (h : Redeclares ps c) (e : Expr) :
    shapeOf { c with parameters := ps } e = shapeOf c e := by
  cases e with
  | direct s e d => rw [shapeOf, shapeOf, shapeOf_congr h e]
  | compose s base field =>
    cases field with
    | wildcard => rw [shapeOf, shapeOf, ofExpr_congr h base]
    | _ => simp only [shapeOf]
  | _ => simp only [shapeOf]

end

lemma ofQuery_congr (h : Redeclares ps c) (q : Query) (limit : Option Int) :
    ofQuery { c with parameters := ps } q limit = ofQuery c q limit := by
  unfold ofQuery
  cases q.flow with
  | none => rfl
  | some e =>
    dsimp only
    rw [ofExpr_congr h e]
    rfl

end Parameters

end Binding

namespace Plan

lemma lookup_parameters (catalog : Catalog) (e : Environment) (query name : Text) :
    (contextOf catalog e query).parameters.lookup name = e.declared? name := by
  unfold contextOf Environment.declared?
  induction e with
  | nil => rfl
  | cons p e ih =>
    rw [List.map_cons, List.lookup_cons, List.lookup_cons]
    cases name == p.1 with
    | true => rfl
    | false => exact ih

/-- The values of the parameters do not show in the outcome of planning: neither in the error nor in
the plan and its stages. -/
theorem ofText_eq_of_declared {e₁ e₂ : Environment} (catalog : Catalog) (o : Options) (query : Text)
    (h : ∀ name, e₁.declared? name = e₂.declared? name) :
    ofText catalog e₁ o query = ofText catalog e₂ o query := by
  have hc : contextOf catalog e₁ query =
      { contextOf catalog e₂ query with parameters := (contextOf catalog e₁ query).parameters } := rfl
  have hp (name : Text) : (contextOf catalog e₁ query).parameters.lookup name =
      (contextOf catalog e₂ query).parameters.lookup name := by
    rw [lookup_parameters, lookup_parameters, h name]
  unfold ofText
  rw [hc]
  refine bind_congr fun q => ?_
  rw [Binding.ofQuery_congr hp q o.limit]

def yearOf (n : Int) : Environment := [("year", ⟨.integer n, some .integer⟩)]

theorem ofText_yearOf : (∀ name, (yearOf 1815).declared? name = (yearOf 1922).declared? name) ∧
    ofText ⟨[], []⟩ (yearOf 1815) ⟨none, .ansi, true⟩ "/{$year}" =
      ofText ⟨[], []⟩ (yearOf 1922) ⟨none, .ansi, true⟩ "/{$year}" := by
  have h : ∀ name, (yearOf 1815).declared? name = (yearOf 1922).declared? name := by
    intro name
    unfold Environment.declared? yearOf
    rw [List.lookup_cons, List.lookup_cons]
    cases name == Text.ofString "year" with
    | true | false => rfl
  exact ⟨h, ofText_eq_of_declared _ _ _ h⟩

end Plan

end NavQuery
