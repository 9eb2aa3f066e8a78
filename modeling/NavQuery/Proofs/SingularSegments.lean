import NavQuery.Proofs.SingularSpaces

/-!
Companions are what units compute that share a place, so they are singular there. This carries
singularity through simplifying a segment.
-/

namespace NavQuery

open List Code

structure Segment.Singular (company : Bool) (s : Segment) : Prop where
  root : s.root.Singular company
  space : s.space.Singular company
  codes : ∀ c ∈ s.codes, c.Singular company
  spans : ∀ c ∈ s.codes, s.space.SpansUnits c

namespace Code

variable {company : Bool} {c k : Code} {ks : List Code}

lemma Singular.operand (h : c.Singular company) (hk : c.operand? = some k) :
    k.Singular company ∧ ∀ a ∈ c.area?, a.SpansUnits k := by
  cases h <;> cases hk <;> refine ⟨by assumption, ?_⟩
  case single | aggregate | correlated =>
    rintro a ⟨⟩
    assumption
  case kernel | covering => exact nofun

lemma spansUnits_withCompanions {t : Space} (c : Code) (ks : List Code) :
    t.SpansUnits (c.withCompanions ks) ↔ t.SpansUnits c := by
  cases c <;> simp [withCompanions, Space.SpansUnits, units, space?]

lemma Singular.withCompanions (h : c.Singular company)
    (hks : company → ∀ k ∈ ks, k.Singular company)
    (hspans : ∀ k ∈ ks, ∀ a ∈ c.area?, a.SpansUnits k) : (c.withCompanions ks).Singular company := by
  have hunit := h
  cases h with
  | single hc hs hsc _ _ => exact .single hc hs hsc hks fun _ k hk => hspans k hk _ rfl
  | aggregate hc hp hs hpc hps hsp _ _ =>
    exact .aggregate hc hp hs hpc hps hsp hks fun _ k hk => hspans k hk _ rfl
  | _ => exact hunit

lemma Beside.spans_area {u v : Code} (h : u.Beside v) : ∀ a ∈ u.area?, ∃ b ∈ v.area?, a.spans b = true := by
  cases h with
  | single h | aggregate h _ =>
    rintro _ ⟨⟩
    exact ⟨_, rfl, Space.spans_of_beq h BEq.rfl ▸ Space.spans_refl _⟩

lemma Rejoined.spans_area {x y : Code} (h : x.Rejoined (supplanting company) y) :
    ∀ b ∈ y.area?, ∃ a ∈ x.area?, b.spans a = true := by
  cases h with
  | single _ hs | aggregate _ hs _ | correlated _ hs _ =>
    rintro _ ⟨⟩
    exact ⟨_, rfl, hs.spanned⟩
  | _ => exact nofun

end Code

variable {company : Bool}

lemma supplanting_accompanies {units : List Code} (hunits : ∀ u ∈ units, u.Singular company) :
    (supplanting company).Accompanies units where
  toJoins := supplanting_unmasks.toJoins
  quotient h := nomatch h
  unit {x y ks} _ h hj hks := by
    obtain ⟨hsingular, hspans⟩ := supplanting_code h hj
    refine ⟨hsingular.withCompanions (fun _ k' hk' => ?_) fun k' hk' b hb => ?_, fun t ht =>
      (Code.spansUnits_withCompanions y ks).2 (hspans t ht)⟩
    · obtain ⟨k, -, hkk'⟩ := hks k' hk'
      exact hkk'.singular
    · obtain ⟨k, ⟨v, hv, hvk, hbeside⟩, hkk'⟩ := hks k' hk'
      obtain ⟨a, ha, hba⟩ := hj.spans_area b hb
      obtain ⟨p, hp, hap⟩ := hbeside.spans_area a ha
      exact (hkk'.spans p (((hunits v hv).operand hvk).2 p hp)).trans (Space.spans_trans hba hap)

namespace Segment

attribute [local instance] Discipline.anything

variable {s : Segment}

lemma Singular.parts (h : s.Singular company) : ∀ a ∈ s.parts, a.Singular company :=
  forall_parts.2 ⟨h.root, h.space, h.codes⟩

lemma Singular.renewed {t : Segment} (h : s.Singular company) (ht : Renewed (supplanting company) s t) :
    t.Singular company where
  root := ht.root.singular
  space := ht.space.singular
  codes := forall_mem_of_forall₂ ht.codes fun _ _ h => h.singular
  spans c' hc' := by
    obtain ⟨c, hc, hcc'⟩ := exists_of_forall₂ ht.codes hc'
    exact (hcc'.spans _ (h.spans c hc)).trans ht.space.spanned

/-- A simplified segment is singular if the segment was, with or without a look at companions. -/
theorem singular_of_simplify_eq_ok {t : Segment} (h : s.Singular company) (ht : s.simplify = .ok t) :
    t.Singular company := by
  have htidy : Finish.tidy.Renews (supplanting company) := 
    supplanting_unmasks.tidy supplanting_unmasks.filtered fun _ _ => Passes.any _
  have hsimplify : Ensures (Singular company) s.simplify := by
    refine (ensures_rebuild htidy h.parts).bind fun t ht => ?_
    have ht := h.renewed ht
    refine (ensures_unmask supplanting_unmasks _ ht.parts).bind fun u hu => ?_
    have hu := ht.renewed hu
    have hunits := forall_units Part.Singular.made hu.parts
    exact (ensures_accompany (supplanting_accompanies hunits) hu.parts).imp fun v hv => hu.renewed hv
  exact hsimplify.of_ok ht

/-- The number of open departments, where the conditions are asked over a base. -/
def openCount (base : Space) : Segment :=
  let isOpen : Code := .single .nowhere (.column .nowhere .boolean Sample.isOpen base) base []
  let plural : Space := .filtered .nowhere base isOpen
  let code : Code := .column .nowhere .text Sample.departmentCode plural
  let count : Code := .aggregate .nowhere (.formula .nowhere .integer (.plain .count) [code]) plural
    (.root .nowhere) []
  ⟨.root .nowhere, .root .nowhere, [.single .nowhere count (.root .nowhere) []], .nowhere⟩

lemma openCount_singular {base : Space} (h : base.Singular true)
    (hup : base.spans (.root .nowhere)) (hdown : (Space.root .nowhere).spans base = false) :
    (openCount base).Singular true := by
  have hown {s : Space} {u : Code} (hu : u.space? = some s) : s.SpansUnits u :=
    (Space.spansUnits_unit hu).2 (Space.spans_refl s)
  have hnone {P : Code → Prop} : true → ∀ k ∈ ([] : List Code), P k := by simp
  have hisOpen : (Code.single .nowhere (.column .nowhere .boolean Sample.isOpen base) base []).Singular
      true := .single (.column h) h (hown rfl) hnone hnone
  have hplural := Space.Singular.filtered (m := .nowhere) h hisOpen (hown rfl)
  have haxes {f : Code} : (Space.filtered .nowhere base f).axisSteps = base.axisSteps :=
    Space.axisSteps_of_not_axis rfl rfl
  refine ⟨.root, .root, forall_mem_singleton.2 ?_, forall_mem_singleton.2 (hown rfl)⟩
  refine .single (.aggregate ?_ hplural .root ?_ ?_ ?_ hnone hnone) .root (hown rfl) hnone hnone
  · exact .formula (forall_mem_singleton.2 (.column hplural))
  · exact Space.spansUnits_formula.2 (forall_mem_singleton.2 (hown rfl))
  · rwa [Space.spans_eq, haxes]
  · rwa [Space.spans_eq, haxes]

def openCountSimplified : Segment :=
  let code : Code := .column .nowhere .text Sample.departmentCode Sample.departments
  let count : Code := .aggregate .nowhere (.formula .nowhere .integer (.plain .count) [code])
    Sample.openDepartments (.root .nowhere) []
  ⟨.root .nowhere, .root .nowhere, [count], .nowhere⟩

theorem singular_of_simplify_eq_ok_openCount :
    let all : Space := .filtered .nowhere Sample.departments (.literal .nowhere .boolean (.boolean true))
    (openCount all).Singular true ∧ ∃ t, (openCount all).simplify = .ok t ∧ t.Singular true := by
  intro all
  have hroot : (Space.root .nowhere).dominates (.root .nowhere) = true := by
    decide
  have hself : Sample.departments.dominates Sample.departments = true := by
    decide
  have hmasked (f : Code) : Space.isMasked (.filtered .nowhere Sample.departments f)
      (.filtered .nowhere Sample.departments f) Sample.departments = true := by
    simp [Space.isMasked, Space.prune, Space.pruneBy, Space.isInflated, Space.line, Space.ancestors,
      Sample.departments, Space.isAxis, Space.pruneSteps, Space.pruneSteps.keepSteps, Space.resembles,
      Space.isCommutative, Space.chain, Space.withBase]
  have hkept (f : Code) : Space.isMasked (.root .nowhere) (.filtered .nowhere Sample.departments f)
      Sample.departments = false := by
    simp [Space.isMasked, Space.prune, Space.pruneBy, Space.isInflated, Space.line, Space.ancestors,
      Sample.departments, Space.isAxis, Space.pruneSteps, Space.pruneSteps.keepSteps, Space.resembles,
      Space.isCommutative, Space.chain, Space.withBase]
    rfl
  have h : (openCount all).Singular true := by
    refine openCount_singular (.filtered (.table .root) .literal ?_) ?_ ?_
    · simp [Space.SpansUnits, Code.units]
    · rw [Space.spans, Space.path_eq, Space.path_eq]
      decide
    · rw [Space.spans, Space.path_eq, Space.path_eq]
      decide
  have htidy : (openCount all).tidy = .ok (openCount Sample.departments) := (rebuild_eq _ _).trans rfl
  have hunmask : (openCount Sample.departments).unmask (.root .nowhere) = .ok openCountSimplified := by
    rw [unmask_eq]
    simp only [openCount, unmaskAll, Code.unmask, Space.unmask, isImmediate, hroot, hself,
      hmasked, hkept, Code.space?, Option.any_some, Bool.or_true, if_true,
      Bool.false_eq_true, if_false]
    rfl
  have haccompany : openCountSimplified.accompany.toOption.isSome = true := by
    simp only [accompany, rebuild_eq, units_eq]
    decide +kernel
  have hsimplify : (openCount all).simplify = openCountSimplified.accompany := by
    have htop : (openCount all).root = .root .nowhere := rfl
    simp only [simplify, htidy, htop, hunmask, bind, Except.bind]
  rw [hsimplify]
  cases ht : openCountSimplified.accompany with
  | error e =>
    rw [ht] at haccompany
    cases haccompany
  | ok t => exact ⟨h, t, rfl, singular_of_simplify_eq_ok h (hsimplify.trans ht)⟩

end Segment

end NavQuery
