import Mathlib.Data.List.TakeWhile
import NavQuery.Proofs.FormedSegments
import NavQuery.Proofs.Literals
import NavQuery.Proofs.Markers
import NavQuery.Segment.Denotation

/-!
`Code.Suits d` says that a code has the domain `d` and that a literal in it has a value of its domain.
Conversions and formulas give such codes again, except for a number that has no counterpart among the
floating-point numbers.
-/

namespace NavQuery

open List Code

attribute [local instance] Discipline.typed

variable {f : Operator} {space : Result Space}

namespace Domain

def admits : Domain → Value → Bool
  | _, .null | boolean, .boolean _ | integer, .integer _ | float, .float _ | decimal, .decimal _
  | untyped, .text _ | text, .text _ | enum _, .text _ | external _, .text _ | date, .date _
  | time, .time _ | dateTime, .dateTime _ => true
  | _, _ => false

def isTarget : Domain → Bool
  | untyped | entity _ | record _ | unknown | void | list _ | identity _ => false
  | _ => true

variable {v : Value} {d : Domain}

lemma writes_of_admits (h : d.admits v) : d.writes v := by
  cases v <;> cases d <;> first | rfl | cases h

lemma admits_of_read {t : Text} (hd : d.isTarget) (h : d.read t = .ok v) : d.admits v := by
  have hranges := ranges_of_read d h
  cases v <;> cases d <;> first | rfl | exact hranges.elim | cases hd

end Domain

namespace Code

/-- A literal, also inside the spaces that it is computed in, has a value of its domain. -/
def isExact : Code → Bool
  | .single _ c _ _ => isExact c
  | .literal _ d v => d.admits v
  | _ => true

structure Suits (d : Domain) (c : Code) : Prop where
  formed : c.Formed
  domain : c.domain = d
  exact : c.isExact = true

variable {c : Code} {d source target : Domain} {m mark operandMark : Mark} {v : Value} {s : Space}

lemma suits_literal (h : d.admits v) : (literal m d v).Suits d :=
  ⟨.literal (Domain.writes_of_admits h), rfl, h⟩

lemma suits_null : (literal m d .null).Suits d := suits_literal (by cases d <;> rfl)

lemma suits_parameter {n : Text} : (parameter m d n).Suits d := ⟨.parameter, rfl, rfl⟩

lemma suits_cast (hc : c.Formed) : (Code.cast m d c).Suits d := ⟨.cast hc, rfl, rfl⟩

lemma suits_formula {as : List Code} (hf : f.Takes d (as.map Code.domain))
    (has : ∀ a ∈ as, a.Formed) : (formula m d f as).Suits d :=
  ⟨.formula hf has, rfl, rfl⟩

lemma Suits.single (h : c.Suits d) (hs : s.Formed) : (single m c s []).Suits d :=
  ⟨.single h.formed hs (forall_mem_nil _), h.domain, h.exact⟩

lemma suits_notNull (hc : c.Formed) : (notNull m c).Suits .boolean :=
  suits_formula (Discipline.nullTest c.domain (-1)) (forall_mem_singleton.2 hc)

section Conversion

lemma ensures_retype (ht : target.isTarget) {c : Code} (hc : c.Suits .untyped) :
    Ensures (Suits target) (retype mark target c) := by
  obtain ⟨hformed, hdomain, hexact⟩ := hc
  match c, hformed with
  | .single _ c _ _, .single hc hs _ =>
    exact (ensures_retype ht ⟨hc, hdomain, hexact⟩).bind fun _ hk => .pure (hk.single hs)
  | .parameter _ _ _, _ => exact suits_parameter
  | .literal _ d v, _ =>
    obtain rfl : d = .untyped := hdomain
    cases v with
    | null => exact suits_null
    | text t =>
      rw [retype]
      split
      next w hw => exact suits_literal (Domain.admits_of_read ht hw)
      next => exact .query _ _
    | _ => cases hexact
  | .missing, _ | .cast _ _ _, _ | .formula _ _ _ _, _ | .correlation _ _, _ | .column _ _ _ _, _
  | .aggregate _ _ _ _ _, _ | .correlated _ _ _ _, _ | .kernel _ _ _, _ | .covering _ _ _, _ =>
    exact .rule rfl

variable {t : Text}

lemma ensures_literal_of_read (ht : target.isTarget)
    (hfault : ∀ fault, target.read t = .error fault → Error.IsOutcome (.literal fault)) :
    Ensures (Suits target) (match target.read t with
      | .ok w => pure (.literal mark target w)
      | .error fault => .error (.literal fault)) := by
  cases hr : target.read t with
  | ok w => exact suits_literal (Domain.admits_of_read ht hr)
  | error fault => exact hfault fault hr

lemma fault_of_readFloat {fault : Fault} (h : Domain.read .float t = .error fault) :
    fault = .float t := by
  simp only [Domain.read, Domain.readFloat] at h
  split at h
  · exact (Except.error.inj h).symm
  split at h
  · exact (Except.error.inj h).symm
  split at h
  · split at h
    · cases h
    · exact (Except.error.inj h).symm
  · exact (Except.error.inj h).symm

/-- A literal is moved to a wider numeric domain unless it has no counterpart there. -/
theorem ensures_convertLiteral (hw : isWidening source target) (hv : source.admits v) :
    Ensures (Suits target) (convertLiteral mark source target v) := by
  unfold isWidening at hw
  unfold convertLiteral
  split
  · exact suits_null
  split at hw
  · cases v with
    | integer n =>
      refine ensures_literal_of_read rfl fun fault hf => ?_
      simp only [Domain.read, Domain.readDecimal, Decimal.read_ofInt] at hf
      cases hf
    | null => contradiction
    | _ => cases hv
  · cases v with
    | integer n => exact ensures_literal_of_read rfl fun fault hf => fault_of_readFloat hf ▸ .integer n
    | null => contradiction
    | _ => cases hv
  · cases v with
    | decimal d => exact ensures_literal_of_read rfl fun fault hf => fault_of_readFloat hf ▸ .decimal d
    | null => contradiction
    | _ => cases hv
  · cases hw

lemma ensures_convertByCast (hc : c.Suits source) :
    Ensures (Suits target) (convertByCast mark source target c) := by
  unfold convertByCast
  split
  next m d v =>
    split
    next hw =>
      have hd : d = source := hc.domain
      exact ensures_convertLiteral hw (hd ▸ hc.exact)
    next => exact suits_cast hc.formed
  next => exact suits_cast hc.formed

lemma ensures_convert {code : Result Code} (hc : Ensures (Suits source) code)
    (hs : Ensures Space.Formed space) (ht : target.isTarget) :
    Ensures (Suits target) (convert mark source target code space) := by
  unfold convert
  split
  next hu =>
    obtain rfl : source = .untyped := by
      cases source with
      | untyped => rfl
      | _ => cases hu
    exact hc.bind fun c hc => ensures_retype ht hc
  split
  next heq => exact heq ▸ hc
  split
  next hb =>
    obtain rfl := Domain.eq_of_isBoolean hb
    split
    next => exact hs.bind fun s hs => .pure (suits_notNull ((suits_literal rfl).single hs).formed)
    next => exact hs.bind fun s hs => .pure (suits_notNull ((suits_literal rfl).single hs).formed)
    next =>
      refine hc.bind fun c hc => .pure (suits_notNull ?_)
      exact .formula ⟨Nat.zero_le _, nofun, nofun⟩
        (forall_mem_cons.2 ⟨hc.formed, forall_mem_singleton.2 (.literal rfl)⟩)
    next =>
      split
      · exact hc.bind fun c hc => .pure (suits_notNull hc.formed)
      · exact .query _ _
  split
  · exact hc.bind fun c hc => ensures_convertByCast hc
  · exact .query _ _

end Conversion

end Code

lemma Space.mem_of_mem_maximal {ss : List Space} {s : Space} (h : s ∈ Space.maximal ss) : s ∈ ss := by
  have hfold : ∀ (ss acc : List Space), s ∈ ss.foldl Space.addMaximal acc → s ∈ acc ∨ s ∈ ss := by
    intro ss
    induction ss with
    | nil => exact fun acc h => .inl h
    | cons p ss ih =>
      intro acc h
      rcases ih _ h with h | h
      · unfold Space.addMaximal at h
        split at h
        · exact .inl h
        · rcases mem_append.1 h with h | h
          · exact .inl (mem_of_mem_filter h)
          · exact .inr (mem_singleton.1 h ▸ mem_cons_self)
      · exact .inr (.tail _ h)
  exact (hfold ss [] h).resolve_left not_mem_nil

namespace Code

variable {c : Code} {d : Domain} {m mark operandMark : Mark} {s : Space}

lemma Formed.unitSpaces (h : c.Formed) {p : Space} (hp : p ∈ c.units.filterMap (·.space?)) :
    p.Formed := by
  obtain ⟨u, hu, hs⟩ := mem_filterMap.1 hp
  exact (h.units hu).space hs

lemma Formed.pluralOf (h : c.Formed) : Ensures Space.Formed (s.pluralOf c mark) := by
  unfold Space.pluralOf
  split
  · exact .query _ _
  next p hp =>
    split
    · have hmem : p ∈ Space.maximal ((c.units.filterMap (·.space?)).filter (!s.spans ·)) :=
        hp ▸ mem_singleton_self p
      exact h.unitSpaces (mem_of_mem_filter (Space.mem_of_mem_maximal hmem))
    · exact .query _ _
  · exact .query _ _

lemma exists_read_zero (hd : d.isNumeric) : ∃ v, d.read "0" = .ok v := by
  cases d with
  | integer => exact ⟨.integer 0, rfl⟩
  | decimal => exact ⟨.decimal ⟨0, 0⟩, rfl⟩
  | float => exact ⟨.float (.zero false), rfl⟩
  | _ => cases hd

/-- An aggregate is computed by an aggregate unit. Counts and sums need a zero. -/
theorem ensures_aggregateOf {kind : Operator.Kind} (hc : c.Formed) (hs : s.Formed)
    (hzero : kind = .count ∨ kind = .sum → c.domain.isNumeric) :
    Ensures (Suits c.domain) (aggregateOf mark operandMark kind c s) := by
  refine hc.pluralOf.bind fun p hp => ?_
  have hunit : (aggregate mark c p s []).Suits c.domain :=
    ⟨.aggregate hc hp hs (forall_mem_nil _), rfl, rfl⟩
  have hfilled (hn : c.domain.isNumeric) : Ensures (Suits c.domain) (match c.domain.read "0" with
      | .ok zero => pure (.single mark (.formula mark c.domain (.plain .ifNull)
          [.aggregate mark c p s [], .literal mark c.domain zero]) s [])
      | .error fault => .error (.literal fault)) := by
    obtain ⟨zero, hzero⟩ := exists_read_zero hn
    have htarget : c.domain.isTarget := by
      cases hdomain : c.domain <;> rw [hdomain] at hn <;> first | rfl | cases hn
    have hliteral := suits_literal (m := mark) (Domain.admits_of_read htarget hzero)
    have hboth := forall_mem_cons.2 ⟨hunit, forall_mem_singleton.2 hliteral⟩
    rw [hzero]
    refine .pure (Suits.single (suits_formula ⟨Nat.zero_le _, fun _ => ?_, nofun⟩ fun a ha => ?_) hs)
    · exact forall_mem_map.2 fun a ha => (hboth a ha).domain
    · exact (hboth a ha).formed
  cases kind with
  | count => exact hfilled (hzero (.inl rfl))
  | sum => exact hfilled (hzero (.inr rfl))
  | _ => exact hunit.single hs

lemma suits_not (hc : c.Suits .boolean) : (formula m .boolean (.plain .not) [c]).Suits .boolean :=
  suits_formula ⟨Nat.le_refl 1, fun _ => forall_mem_singleton.2 hc.domain, fun _ he => Option.some.inj he⟩
    (forall_mem_singleton.2 hc.formed)

lemma ensures_quantify {negative : Bool} (hc : c.Suits .boolean) (hs : s.Formed) :
    Ensures (Suits .boolean) (quantify mark operandMark negative c s) := by
  refine hc.formed.pluralOf.bind fun p hp => ?_
  have htrue : (true' mark).Formed := .literal rfl
  have hfound {test : Code} (h : test.Suits .boolean) : (formula mark .boolean (.polar .exists 1)
      [.correlated mark (true' mark) (.filtered mark p test) s]).Suits .boolean :=
    suits_formula ⟨Nat.le_refl 1, nofun, fun _ he => Option.some.inj he⟩
      (forall_mem_singleton.2 (.correlated htrue (.filtered hp h.formed) hs))
  cases negative with
  | false => exact (hfound hc).single hs
  | true =>
    have htest := suits_not (m := mark) hc
    exact (suits_not (hfound (hc.domain ▸ htest))).single hs

lemma Suits.patternOf (hc : c.Suits .text) : Ensures Formed (patternOf mark c) := by
  unfold Code.patternOf
  split
  next m d t =>
    have hd : d = .text := hc.domain
    exact .literal (hd ▸ rfl)
  next m d => exact suits_null.formed
  next m d v hnull htext =>
    obtain rfl : d = .text := hc.domain
    have hv : Domain.text.admits v := hc.exact
    cases v with
    | null => exact (htext rfl).elim
    | text t => exact (hnull t rfl).elim
    | _ => cases hv
  next =>
    have htext (t : Text) : (literal mark .text (.text t)).Suits .text := suits_literal rfl
    have hescape {k : Code} (hk : k.Suits .text) (t u : Text) :
        (formula mark .text (.plain .replace) [k, .literal mark .text (.text t),
          .literal mark .text (.text u)]).Suits .text :=
      suits_formula ⟨Nat.zero_le _, nofun, nofun⟩ (forall_mem_cons.2 ⟨hk.formed,
        forall_mem_cons.2 ⟨(htext t).formed, forall_mem_singleton.2 (htext u).formed⟩⟩)
    have hconcat {a b : Code} (ha : a.Suits .text) (hb : b.Suits .text) :
        (formula mark .text (.plain .concat) [a, b]).Suits .text :=
      suits_formula ⟨Nat.le_refl 2,
        fun _ => forall_mem_cons.2 ⟨ha.domain, forall_mem_singleton.2 hb.domain⟩,
        fun _ he => Option.some.inj he⟩
        (forall_mem_cons.2 ⟨ha.formed, forall_mem_singleton.2 hb.formed⟩)
    rw [hc.domain]
    exact .pure (hconcat (hconcat (htext _) (hescape (hescape (hescape hc _ _) _ _) _ _)) (htext _)).formed

/-- What an operator asks of its domain and its operands before they are encoded. -/
structure Accepts (f : Operator) (d : Domain) (ds : List Domain) : Prop where
  takes : f.Takes d ds
  zero : f.kind = .count ∨ f.kind = .sum → d.isNumeric = true
  pattern : f.kind = .like → ∀ a b, ds = [a, b] → b = .text
  test : f.kind = .exists → ∀ a, ds = [a] → a = .boolean

variable {ds : List Domain} {as : List Code}

lemma formed_of_forall₂
    (h : List.Forall₂ (fun a e => Suits e a) as ds) : (∀ a ∈ as, a.Formed) ∧ as.map Code.domain = ds := by
  induction h with
  | nil => exact ⟨forall_mem_nil _, rfl⟩
  | cons h _ ih => exact ⟨forall_mem_cons.2 ⟨h.formed, ih.1⟩, by rw [map_cons, h.domain, ih.2]⟩

lemma ensures_ofFormula     (hf : Accepts f d ds) (has : List.Forall₂ (fun a e => Suits e a) as ds)
    (hs : Ensures Space.Formed space) :
    Ensures (Suits d) (ofFormula mark operandMark d f as space) := by
  obtain ⟨hformed, hdomains⟩ := formed_of_forall₂ has
  have hplain : Ensures (Suits d) (if f.isAggregate then do
        aggregateOf mark operandMark f.kind (.formula mark d f as) (← space)
      else pure (.formula mark d f as)) := by
    split
    next =>
      exact hs.bind fun s hs => ensures_aggregateOf (.formula (hdomains ▸ hf.takes) hformed) hs hf.zero
    next => exact suits_formula (hdomains ▸ hf.takes) hformed
  unfold ofFormula
  split
  next a b hkind =>
    obtain ⟨e, _, ha, hrest, rfl⟩ := forall₂_cons_left_iff.1 has
    obtain ⟨e', _, hb, hnil, rfl⟩ := forall₂_cons_left_iff.1 hrest
    obtain rfl := forall₂_nil_left_iff.1 hnil
    obtain rfl := hf.pattern hkind _ _ rfl
    have huniform : f.isUniform = false := by rw [Operator.isUniform, hkind]
    refine hb.patternOf.bind fun p hp => suits_formula ⟨hf.takes.least, ?_, hf.takes.result⟩ ?_
    · exact fun h => absurd (huniform.symm.trans h) Bool.false_ne_true
    · exact forall_mem_cons.2 ⟨ha.formed, forall_mem_singleton.2 hp⟩
  next a hkind =>
    obtain ⟨e, _, ha, -⟩ := forall₂_cons_left_iff.1 has
    have hno : (literal mark a.domain (.boolean false)).Formed := .literal (by cases a.domain <;> rfl)
    have hpresent : (formula mark a.domain (.plain .nullIf)
        [a, .literal mark a.domain (.boolean false)]).Formed :=
      .formula ⟨Nat.zero_le _, by rintro ⟨⟩, by rintro _ ⟨⟩⟩
        (forall_mem_cons.2 ⟨ha.formed, forall_mem_singleton.2 hno⟩)
    exact hs.bind fun s hs => ensures_aggregateOf
      (.formula ⟨Nat.zero_le _, by rintro ⟨⟩, by rintro _ ⟨⟩⟩ (forall_mem_singleton.2 hpresent)) hs
      fun _ => hf.zero (.inl hkind)
  next a hkind =>
    obtain ⟨e, _, ha, hnil, rfl⟩ := forall₂_cons_left_iff.1 has
    obtain rfl := forall₂_nil_left_iff.1 hnil
    obtain rfl := hf.test hkind _ rfl
    obtain rfl := hf.takes.result .boolean (by rw [Operator.result?, hkind])
    exact hs.bind fun s hs => ensures_quantify ha hs
  next => exact hplain

end Code

end NavQuery
