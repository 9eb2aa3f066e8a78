import NavQuery.Plan
import NavQuery.Proofs.JoinFlags
import NavQuery.Proofs.Outcomes

/-!
A filter is written as an operator or as a call. The call takes its base as it is bound, while the operator
follows the link of a foreign key column. So the two agree on every base but such a column, where the call
filters a value and no rows.
-/

namespace NavQuery

namespace Binding

variable {c : Context} {s s' : Span} {x e : Expr} {f : Text} {b r scope : Binding} {limit : Option Int}

lemma mapFlow_sieveOf_cases {mark : Mark} {bind : Binder} (h : mapFlow (sieveOf mark bind) b = .ok r) :
    (∃ l base base' es, b = .selection l base es ∧ r = .selection l base' es) ∨
      b.selectionBase? = none ∧ ∃ filter, r = .sieve ⟨b.domain, b.title, mark⟩ b filter := by
  unfold mapFlow at h
  split at h
  next label base es =>
    obtain ⟨base', -, h⟩ := exists_of_bind_eq_ok h
    cases h
    exact .inl ⟨label, base, base', es, rfl, rfl⟩
  next hnone =>
    obtain ⟨filter, -, h⟩ := exists_of_bind_eq_ok h
    cases h
    refine .inr ⟨?_, _, rfl⟩
    cases b <;> first | rfl | cases hnone _ _ _ rfl

lemma ofExpr_call (hf : Function.ofName? f = some .filter) :
    ofExpr c (.compose s x (.call s' f [e])) scope = (do
      let b ← value (ofExpr c x) scope
      if !b.isFlow && b.linked?.isNone && b.selectionBase?.isNone then fail .flowExpected b.mark
      mapFlow (sieveOf (c.mark s') (ofExpr c e)) b) := by
  have hcall (b : Binding) :
      ofExpr c (.call s' f [e]) b = mapFlow (sieveOf (c.mark s') (ofExpr c e)) b := by
    simp only [ofExpr, callOf, hf]
    rfl
  rw [ofExpr, composeOf]
  simp only [hcall]
  congr 1
  funext b
  cases hr : mapFlow (sieveOf (c.mark s') (ofExpr c e)) b with
  | error => rfl
  | ok r => obtain ⟨_, _, _, _, -, rfl⟩ | ⟨-, _, rfl⟩ := mapFlow_sieveOf_cases hr <;> rfl

lemma exists_of_call (hf : Function.ofName? f = some .filter)
    (h : value (ofExpr c (.compose s x (.call s' f [e]))) scope = .ok r) :
    ∃ b, value (ofExpr c x) scope = .ok b ∧
      ((∃ l base base' es, b = .selection l base es ∧ r = .selection l base' es) ∨
        (b.linked? = none → b.isFlow) ∧ ∃ filter, r = .sieve ⟨b.domain, b.title, c.mark s'⟩ b filter) := by
  obtain ⟨r, hr, h⟩ := exists_of_bind_eq_ok h
  rw [ofExpr_call hf] at hr
  obtain ⟨b, hb, hr⟩ := exists_of_bind_eq_ok hr
  refine ⟨b, hb, ?_⟩
  split at hr
  · cases hr
  next hrows =>
    obtain ⟨l, base, base', es, hl, rfl⟩ | ⟨hnone, filter, rfl⟩ := mapFlow_sieveOf_cases hr
    · cases h
      exact .inl ⟨l, base, base', es, hl, rfl⟩
    · cases h
      exact .inr ⟨fun hlink => by simpa [hnone, hlink] using hrows, filter, rfl⟩

section Unlinked

variable (hf : Function.ofName? f = some .filter)
  (hlink : ∀ b, value (ofExpr c x) (rootOf c) = .ok b → b.linked? = none)
include hf hlink

lemma ofExpr_call_eq_sieve : ofExpr c (.compose s x (.call s' f [e])) (rootOf c) =
    ofExpr c (.sieve s' x e) (rootOf c) := by
  rw [ofExpr_call hf]
  simp only [ofExpr, target]
  cases hb : value (ofExpr c x) (rootOf c) with
  | error => rfl
  | ok b =>
    simp only [bind, Except.bind, hlink b hb]
    cases hs : b.selectionBase? <;> cases hflow : b.isFlow <;> rfl

/-- The text of an expression is not looked at if it stands for rows. -/
theorem ofQuery_eq_sieve {t : Expr} (ht : ofExpr c t (rootOf c) = ofExpr c (.sieve s' x e) (rootOf c))
    (q : Span) : ofQuery c ⟨some t, q⟩ limit = ofQuery c ⟨some (.group t.span (.sieve s' x e)), q⟩ limit := by
  have hvalue (t' : Expr) (h : ofExpr c t' (rootOf c) = ofExpr c (.sieve s' x e) (rootOf c)) :
      value (ofExpr c t') (rootOf c) = value (ofExpr c (.compose s' x (.call s' f [e]))) (rootOf c) :=
    congrArg (· >>= unambiguous) (h.trans (ofExpr_call_eq_sieve hf hlink).symm)
  simp only [ofQuery, hvalue t ht, hvalue (.group t.span (.sieve s' x e)) (by rw [ofExpr])]
  cases hr : value (ofExpr c (.compose s' x (.call s' f [e]))) (rootOf c) with
  | error => rfl
  | ok r =>
    obtain ⟨b, hb, ⟨_, _, _, _, -, rfl⟩ | ⟨hflow, filter, rfl⟩⟩ := exists_of_call hf hr
    · rfl
    · have hflow : isFlow (.sieve ⟨b.domain, b.title, c.mark s'⟩ b filter) := hflow (hlink b hb)
      simp only [bind, Except.bind, seedOf, hflow]
      rfl

end Unlinked

/-- A filter is no value. -/
theorem content_sieve (l : Label) (b filter : Binding) (title : Text) : ∃ error,
    Segment.Content.ofBinding ((sieve l b filter).settled.withTitle title) = .value (.error error) := by
  obtain ⟨domain, _, _⟩ := l
  cases domain <;> exact ⟨_, rfl⟩

end Binding

namespace Plan

/-- The plan of a query that has a flow. -/
def ofFlow (o : Options) (c : Context) (e : Expr) : Result Explained := do
  match ← Binding.ofQuery c ⟨some e, e.span⟩ o.limit with
  | none => return ⟨empty, []⟩
  | some b => ofBinding o b

lemma ofBinding_eq_error {o : Options} {b : Binding} {error : Error} (h : Segment.ofBinding b = .error error) :
    ofBinding o b = .error error := by
  rw [ofBinding, stage, h]
  split <;> rfl

open Binding in
/-- A filter is planned in the same way as a call and as an operator, which stands in a group to have the
span of the whole. But on a foreign key column the operator filters the rows that the column leads to, and
the call fails. -/
theorem ofFlow_filter (o : Options) (c : Context) (s s' : Span) (x e : Expr) {f : Text}
    (hf : Function.ofName? f = some .filter) :
    ((∀ b, value (ofExpr c x) (rootOf c) = .ok b → b.linked? = none) →
      ofFlow o c (.compose s x (.call s' f [e])) = ofFlow o c (.group s (.sieve s' x e)) ∧
      ofFlow o c (.sieve s' x e) = ofFlow o c (.group s' (.sieve s' x e))) ∧
    ∀ b l, value (ofExpr c x) (rootOf c) = .ok b → b.linked? = some l → b.isFlow = false →
      target (ofExpr c x) (rootOf c) = .ok l ∧
        ∃ error, ofFlow o c (.compose s x (.call s' f [e])) = .error error := by
  refine ⟨fun hlink => ⟨?_, ?_⟩, fun b l hb hlink hflow => ⟨?_, ?_⟩⟩
  · exact congrArg (· >>= _) (ofQuery_eq_sieve hf hlink (ofExpr_call_eq_sieve hf hlink) s)
  · exact congrArg (· >>= _) (ofQuery_eq_sieve hf hlink rfl s')
  · cases b <;> cases hlink
    rw [target, hb]
    rfl
  simp only [ofFlow, ofQuery]
  cases hr : value (ofExpr c (.compose s x (.call s' f [e]))) (rootOf c) with
  | error error => exact ⟨error, rfl⟩
  | ok r =>
    obtain ⟨b', hb', hr⟩ := exists_of_call hf hr
    obtain rfl : b = b' := Except.ok.inj (hb.symm.trans hb')
    obtain ⟨_, _, _, _, rfl, -⟩ | ⟨-, filter, rfl⟩ := hr
    · cases hlink
    · have hflow : isFlow (.sieve ⟨b.domain, b.title, c.mark s'⟩ b filter) = false := hflow
      obtain ⟨error, hcontent⟩ := content_sieve ⟨b.domain, b.title, c.mark s'⟩ b filter
        (Expr.text (.compose s x (.call s' f [e])))
      simp only [bind, Except.bind, seedOf, hflow]
      refine ⟨error, ofBinding_eq_error ?_⟩
      exact (Segment.ofBinding_collect _ _ _).trans (congrArg (Segment.ofContent _ _) hcontent)

open Binding Sample in
/-- The schools of departments with a code, in both spellings. -/
theorem ofFlow_filter_school :
    let c : Context := ⟨.run looseSteps, [], ⟨0, "/department.school_code?code='x'"⟩⟩
    let x : Expr := .compose ⟨1, 23⟩ (.name ⟨1, 11⟩ "department") (.name ⟨12, 23⟩ "school_code")
    let e : Expr := .binary ⟨24, 32⟩ .equal (.name ⟨24, 28⟩ "code") (.string ⟨29, 32⟩ "x")
    (ofQuery c ⟨some (.sieve ⟨1, 32⟩ x e), ⟨0, 32⟩⟩ none).isOk ∧ ∃ error,
      ofFlow ⟨none, .ansi, true⟩ c (.compose ⟨1, 32⟩ x (.call ⟨23, 32⟩ "Filter" [e])) = .error error := by
  intro c x e
  obtain ⟨b, hb⟩ : ∃ b, value (ofExpr c x) (rootOf c) = .ok b := ⟨_, rfl⟩
  obtain ⟨l, hl⟩ : ∃ l, b.linked? = some l := by
    cases hb
    exact ⟨_, rfl⟩
  refine ⟨by rfl, ((ofFlow_filter _ c _ _ x e rfl).2 b l hb hl ?_).2⟩
  cases hb
  rfl

end Plan

end NavQuery
