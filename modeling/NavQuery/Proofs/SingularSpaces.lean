import NavQuery.Proofs.Company
import NavQuery.Proofs.FormedSpaces
import NavQuery.Proofs.SpanningLaws
import NavQuery.Proofs.UnmarkedSeams

/-!
A value may be asked of a space only if the space spans the units that the value is built from; an
aggregate asks for rows that are plural in its space. Unmasking and rebuilding keep the axes of spaces, so
what was singular is singular afterwards and what was plural is plural.
-/

namespace NavQuery

open Code

def Space.SpansUnits (s : Space) (c : Code) : Prop :=
  ∀ u ∈ c.units, ∀ t ∈ u.space?, s.spans t = true

mutual

/-- A chain whose filters and sorts ask for values that are singular in their bases. If `company` is set,
the same is asked of companions. -/
inductive Space.Singular (company : Bool) : Space → Prop
  | root {m : Mark} : Space.Singular company (.root m)
  | scalar {m : Mark} {b : Space} (hb : b.Singular company) : Space.Singular company (.scalar m b)
  | table {m : Mark} {b : Space} {t : Table} (hb : b.Singular company) :
    Space.Singular company (.table m b t)
  | fiber {m : Mark} {b : Space} {j : Join} (hb : b.Singular company) :
    Space.Singular company (.fiber m b j)
  | filtered {m : Mark} {b : Space} {f : Code} (hb : b.Singular company) (hf : f.Singular company)
    (hbf : b.SpansUnits f) : Space.Singular company (.filtered m b f)
  | ordered {m : Mark} {b : Space} {os : List (Code × Direction)} {l o : Option Int}
    (hb : b.Singular company) (hos : ∀ i ∈ os, i.1.Singular company)
    (hbos : ∀ i ∈ os, b.SpansUnits i.1) : Space.Singular company (.ordered m b os l o)

/-- A code over such chains. A unit asks for values that are singular in the space that it computes them
in; the rows of an aggregate or a subquery are plural in the space that asks for them. -/
inductive Code.Singular (company : Bool) : Code → Prop
  | missing : Code.Singular company .missing
  | literal {m : Mark} {d : Domain} {v : Value} : Code.Singular company (.literal m d v)
  | parameter {m : Mark} {d : Domain} {n : Text} : Code.Singular company (.parameter m d n)
  | cast {m : Mark} {d : Domain} {c : Code} (hc : c.Singular company) :
    Code.Singular company (.cast m d c)
  | formula {m : Mark} {d : Domain} {f : Operator} {as : List Code}
    (has : ∀ a ∈ as, a.Singular company) : Code.Singular company (.formula m d f as)
  | correlation {m : Mark} {c : Code} (hc : c.Singular company) :
    Code.Singular company (.correlation m c)
  | column {m : Mark} {d : Domain} {c : Column} {s : Space} (hs : s.Singular company) :
    Code.Singular company (.column m d c s)
  | single {m : Mark} {c : Code} {s : Space} {cs : List Code} (hc : c.Singular company)
    (hs : s.Singular company) (hsc : s.SpansUnits c)
    (hcs : company → ∀ k ∈ cs, k.Singular company)
    (hscs : company → ∀ k ∈ cs, s.SpansUnits k) : Code.Singular company (.single m c s cs)
  | aggregate {m : Mark} {c : Code} {p s : Space} {cs : List Code} (hc : c.Singular company)
    (hp : p.Singular company) (hs : s.Singular company) (hpc : p.SpansUnits c)
    (hps : p.spans s) (hsp : s.spans p = false)
    (hcs : company → ∀ k ∈ cs, k.Singular company)
    (hpcs : company → ∀ k ∈ cs, p.SpansUnits k) :
    Code.Singular company (.aggregate m c p s cs)
  | correlated {m : Mark} {c : Code} {p s : Space} (hc : c.Singular company)
    (hp : p.Singular company) (hs : s.Singular company) (hpc : p.SpansUnits c)
    (hps : p.spans s) (hsp : s.spans p = false) : Code.Singular company (.correlated m c p s)
  | kernel {m : Mark} {c : Code} {s : Space} (hc : c.Singular company) (hs : s.Singular company) :
    Code.Singular company (.kernel m c s)
  | covering {m : Mark} {c : Code} {s : Space} (hc : c.Singular company) (hs : s.Singular company) :
    Code.Singular company (.covering m c s)

end

namespace Space

section Units

variable {s t : Space} {c : Code} {m : Mark} {d : Domain}

lemma SpansUnits.trans (hst : s.spans t) (h : t.SpansUnits c) : s.SpansUnits c :=
  fun u hu v hv => spans_trans hst (h u hu v hv)

lemma spansUnits_cast : s.SpansUnits (.cast m d c) ↔ s.SpansUnits c := by
  simp only [SpansUnits, units]

lemma spansUnits_formula {f : Operator} {as : List Code} :
    s.SpansUnits (.formula m d f as) ↔ ∀ a ∈ as, s.SpansUnits a := by
  constructor
  · intro h a ha u hu t ht
    -- Of units that are the same only one is kept, but it has the same space.
    obtain ⟨v, hv, hvu⟩ := (distinct_spec _).2 u (mem_unitsOfAll ha hu)
    have hspaces : v.space?.map unmarked = u.space?.map unmarked := by
      rw [← space?_unmarked, Code.beq_iff_unmarked.1 hvu, space?_unmarked]
    rw [ht] at hspaces
    obtain ⟨w, hw, hwt⟩ := Option.map_eq_some_iff.1 hspaces
    rw [← spans_of_beq (BEq.refl s) (beq_iff_unmarked.2 hwt)]
    exact h v hv w hw
  · intro h u hu
    obtain ⟨a, ha, hu⟩ := mem_of_mem_unitsOfAll ((distinct_spec _).1 hu)
    exact h a ha u hu

lemma spansUnits_unit {u : Code} (h : u.space? = some t) : s.SpansUnits u ↔ s.spans t := by
  have hunits : u.units = [u] := by
    cases u <;> cases h <;> simp only [units]
  simp [SpansUnits, hunits, h]

end Units

variable {company : Bool}

structure Supplants (company : Bool) (old new : Space) : Prop where
  singular : new.Singular company
  axes : Alongside old.axisSteps new.axisSteps

namespace Supplants

variable {old new b b' : Space}

lemma spans (h : old.Supplants company new) : old.spans new := spans_of_alongside h.axes

lemma spanned (h : old.Supplants company new) : new.spans old :=
  spans_of_alongside h.axes.symm

lemma axis (hb : b.Supplants company b') (hnew : new.Singular company) (hold : old.base? = some b)
    (hbase : new.base? = some b') (haxis : old.isAxis) (hres : old.resembles new) :
    old.Supplants company new where
  singular := hnew
  axes := by
    rw [axisSteps_of_base hold haxis, axisSteps_of_base hbase (isAxis_of_resembles hres ▸ haxis)]
    exact hb.axes.snoc hres

lemma narrowed (hb : b.Supplants company b') (hnew : new.Singular company)
    (hold : old.base? = some b) (hbase : new.base? = some b') (haxis : old.isAxis = false)
    (haxis' : new.isAxis = false) : old.Supplants company new where
  singular := hnew
  axes := by
    rw [axisSteps_of_not_axis hold haxis, axisSteps_of_not_axis hbase haxis']
    exact hb.axes

lemma dropped (hb : b.Supplants company b') (hold : old.base? = some b)
    (haxis : old.isAxis = false) : old.Supplants company b' where
  singular := hb.singular
  axes := by
    rw [axisSteps_of_not_axis hold haxis]
    exact hb.axes

end Supplants

lemma Singular.kernels {s : Space} (h : s.Singular company) : s.family.kernels = [] := by
  cases h with
  | root | scalar _ | table _ | fiber _ => rfl
  | filtered hb _ _ | ordered hb _ _ => exact hb.kernels

lemma Singular.originColumn {s : Space} (h : s.Singular company) (c : Column) :
    (s.originColumn c).1.Singular company ∧ s.spans (s.originColumn c).1 := by
  have hs := h
  cases h with
  | @fiber m b j hb =>
    rw [Space.originColumn]
    split
    · split
      · rename_i o _ _
        obtain ⟨hsingular, hspans⟩ := hb.originColumn o
        have hbase : (Space.fiber m b j).spans b := by
          rw [spans_eq, axisSteps_of_base rfl rfl]
          exact spansAxes_of_alongside (Alongside.refl _) _
        exact ⟨hsingular, spans_trans hbase hspans⟩
      · exact ⟨hs, spans_refl _⟩
    · exact ⟨hs, spans_refl _⟩
  | _ => exact ⟨hs, spans_refl _⟩

end Space

namespace Code

/-- The space in which a unit computes its code. -/
def area? : Code → Option Space
  | single _ _ s _ => some s
  | aggregate _ _ p _ _ | correlated _ _ p _ => some p
  | _ => none

/-- A singular code whose units are spanned by all that spans those of another one. -/
structure Supplants (company : Bool) (old new : Code) : Prop where
  singular : new.Singular company
  spans : ∀ t : Space, t.SpansUnits old → t.SpansUnits new

variable {company : Bool} {c c' : Code} {p p' s s' : Space}

lemma Supplants.unit (h : s.Supplants company s') (hc : c.space? = some s) (hc' : c'.space? = some s')
    (hsingular : c'.Singular company) : c.Supplants company c' where
  singular := hsingular
  spans _ ht := (Space.spansUnits_unit hc').2
    (Space.spans_trans ((Space.spansUnits_unit hc).1 ht) h.spans)

lemma not_spans_of_supplants (hp : p.Supplants company p') (hs : s.Supplants company s')
    (hsp : s.spans p = false) : s'.spans p' = false := by
  by_contra h
  rw [Bool.not_eq_false] at h
  have hspans : s.spans p := Space.spans_trans (Space.spans_trans hs.spans h) hp.spanned
  rw [hsp] at hspans
  cases hspans

end Code

def Part.Singular (company : Bool) : Part → Prop
  | space s => s.Singular company
  | code c => c.Singular company

section Stages

variable {company : Bool}

lemma Part.Singular.made {a : Part} (h : a.Singular company) : a.Made (Part.Singular company) := by
  rcases a with s | c
  · cases h with
    | ordered hb hos _ => exact ⟨hb, hos⟩
    | _ => simp_all [Made, Part.Singular]
  · cases h <;> simp_all [Made, Part.Singular]

/-- What is singular is rebuilt singular. -/
abbrev supplanting (company : Bool) : Renewal where
  given := Part.Singular company
  core := Part.Singular.made
  space := Space.Supplants company
  code := Code.Supplants company

lemma supplanting_space {x y : Space} (h : x.Singular company) (hj : x.Rejoined (supplanting company) y) :
    x.Supplants company y := by
  cases h with
  | root =>
    cases hj
    exact ⟨.root, .refl _⟩
  | scalar =>
    cases hj with
    | scalar hb => exact hb.axis (.scalar hb.singular) rfl rfl rfl rfl
  | table =>
    cases hj with
    | table hb => exact hb.axis (.table hb.singular) rfl rfl rfl (beq_self_eq_true _)
  | fiber =>
    cases hj with
    | fiber hb => exact hb.axis (.fiber hb.singular) rfl rfl rfl (beq_self_eq_true _)
  | filtered _ _ hbf =>
    cases hj with
    | filtered hb hf =>
      exact hb.narrowed (.filtered hb.singular hf.singular ((hf.spans _ hbf).trans hb.spanned)) rfl rfl rfl rfl
  | ordered _ _ hbos =>
    cases hj with
    | ordered hb hos =>
      refine hb.narrowed (.ordered hb.singular (fun i' hi' => ?_) fun i' hi' => ?_) rfl rfl rfl rfl
      · obtain ⟨i, _, hi, -⟩ := exists_of_forall₂ hos hi'
        exact hi.singular
      · obtain ⟨i, hmem, hi, -⟩ := exists_of_forall₂ hos hi'
        exact (hi.spans _ (hbos i hmem)).trans hb.spanned

lemma supplanting_code {x y : Code} (h : x.Singular company) (hj : x.Rejoined (supplanting company) y) :
    x.Supplants company y := by
  cases hj with
  | missing | literal | parameter => exact ⟨h, fun _ ht => ht⟩
  | cast hc =>
    exact ⟨.cast hc.singular, fun t ht => Space.spansUnits_cast.2 (hc.spans t (Space.spansUnits_cast.1 ht))⟩
  | formula has =>
    refine ⟨.formula fun a' ha' => ?_, fun t ht => Space.spansUnits_formula.2 fun a' ha' => ?_⟩
    · obtain ⟨a, _, haa'⟩ := exists_of_forall₂ has ha'
      exact haa'.singular
    · obtain ⟨a, ha, haa'⟩ := exists_of_forall₂ has ha'
      exact haa'.spans t (Space.spansUnits_formula.1 ht a ha)
  | correlation hc => exact ⟨.correlation hc.singular, fun _ _ => by simp [Space.SpansUnits, Code.units]⟩
  | column hs => exact .unit hs rfl rfl (.column hs.singular)
  | single hc hs =>
    cases h with
    | single _ _ hsc hcs hscs =>
      refine .unit hs rfl rfl (.single hc.singular hs.singular ?_ hcs fun h k hk => ?_)
      · exact (hc.spans _ hsc).trans hs.spanned
      · exact (hscs h k hk).trans hs.spanned
  | aggregate hc hp hs =>
    cases h with
    | aggregate _ _ _ hpc hps hsp hcs hpcs =>
      refine .unit hs rfl rfl (.aggregate hc.singular hp.singular hs.singular ?_ ?_
        (Code.not_spans_of_supplants hp hs hsp) hcs fun h k hk => ?_)
      · exact (hc.spans _ hpc).trans hp.spanned
      · exact Space.spans_trans (Space.spans_trans hp.spanned hps) hs.spans
      · exact (hpcs h k hk).trans hp.spanned
  | correlated hc hp hs =>
    cases h with
    | correlated _ _ _ hpc hps hsp =>
      refine .unit hs rfl rfl (.correlated hc.singular hp.singular hs.singular ?_ ?_
        (Code.not_spans_of_supplants hp hs hsp))
      · exact (hc.spans _ hpc).trans hp.spanned
      · exact Space.spans_trans (Space.spans_trans hp.spanned hps) hs.spans
  | kernel hplace =>
    -- a kernel is not found among those of a chain, which has none
    cases h with
    | kernel _ hs => simp [hs.kernels] at hplace
  | covering hc hs => exact .unit hs rfl rfl (.covering hc.singular hs.singular)

lemma supplanting_unmasks : (supplanting company).Unmasks where
  space := supplanting_space
  code := supplanting_code
  filtered hb := hb.dropped rfl rfl
  ordered hb := hb.dropped rfl rfl
  single h hc := by
    cases h with
    | single _ _ hsc => exact ⟨hc.singular, fun t ht => hc.spans t (hsc.trans ((Space.spansUnits_unit rfl).1 ht))⟩
  column {_ _ c s _} _ hs := by
    -- The column may move to an origin, which the space that it was read in spans.
    obtain ⟨hsingular, hspans⟩ := hs.singular.originColumn c
    refine ⟨.column hsingular, fun t ht => (Space.spansUnits_unit rfl).2 ?_⟩
    have hts : t.spans s := (Space.spansUnits_unit rfl).1 ht
    exact Space.spans_trans (Space.spans_trans hts hs.spans) hspans

end Stages

end NavQuery
