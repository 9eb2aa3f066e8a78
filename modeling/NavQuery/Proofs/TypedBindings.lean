import NavQuery.Binding.OfExpr
import NavQuery.Proofs.TypedCodes

/-!
`Binding.Typed` says of a binding and all bindings in it that its domain is what its values have. Every
expression is bound to a typed binding in a typed scope.
-/

namespace NavQuery

open List Operator

open Code (Accepts)

attribute [local instance] Discipline.typed

namespace Domain

variable {d : Domain}

lemma isTarget_settled (h : d.isScalar) : d.settled.isTarget := by
  cases d <;> first | rfl | cases h

lemma isTarget_of_isNumeric (h : d.isNumeric) : d.isTarget := by
  cases d <;> first | rfl | cases h

end Domain

namespace Binding

def kernelDomains? (b : Binding) : Option (List Domain) :=
  match b.scope.naming with
  | quotient _ _ _ kernels => some (kernels.map domain)
  | _ => none

inductive Typed : Binding → Prop
  | root {l : Label} : Typed (.root l)
  | home {l : Label} {b : Binding} (hb : b.Typed) : Typed (.home l b)
  | table {l : Label} {b : Binding} {t : Table} (hb : b.Typed) : Typed (.table l b t)
  | attach {l : Label} {b : Binding} {j : Join} (hb : b.Typed) : Typed (.attach l b j)
  | column {l : Label} {b : Binding} {c : Column} {link : Option Binding} (hb : b.Typed)
    (hd : l.domain = c.domain) (hlink : ∀ k, link = some k → k.Typed) : Typed (.column l b c link)
  | quotient {l : Label} {b s : Binding} {ks : List Binding} (hb : b.Typed) (hs : s.Typed)
    (hks : ∀ k ∈ ks, k.Typed) : Typed (.quotient l b s ks)
  | kernel {l : Label} {b : Binding} {i : Nat} {ds : List Domain} (hb : b.Typed)
    (hds : b.kernelDomains? = some ds) (hd : ds[i]? = some l.domain) : Typed (.kernel l b i)
  | complement {l : Label} {b : Binding} (hb : b.Typed) : Typed (.complement l b)
  | cover {l : Label} {b s : Binding} (hb : b.Typed) (hs : s.Typed) : Typed (.cover l b s)
  | fork {l : Label} {b : Binding} {ks : List Binding} (hb : b.Typed) (hks : ∀ k ∈ ks, k.Typed) :
    Typed (.fork l b ks)
  | link {l : Label} {b s : Binding} {is : List (Binding × Binding)} (hb : b.Typed) (hs : s.Typed)
    (hleft : ∀ i ∈ is, i.1.Typed) (hright : ∀ i ∈ is, i.2.Typed) : Typed (.link l b s is)
  | sieve {l : Label} {b f : Binding} (hb : b.Typed) (hf : f.Typed) (hd : f.domain = .boolean) :
    Typed (.sieve l b f)
  | sort {l : Label} {b : Binding} {os : List Binding} {m n : Option Int} (hb : b.Typed)
    (hos : ∀ o ∈ os, o.Typed) : Typed (.sort l b os m n)
  | rescoping {l : Label} {o s : Binding} (ho : o.Typed) (hs : s.Typed) (hd : l.domain = o.domain) :
    Typed (.rescoping l o s)
  | selection {l : Label} {b : Binding} {es : List Binding} (hb : b.Typed) (hes : ∀ e ∈ es, e.Typed) :
    Typed (.selection l b es)
  | direction {l : Label} {o : Binding} {d : Direction} (ho : o.Typed) (hd : l.domain = o.domain) :
    Typed (.direction l o d)
  | literal {l : Label} {v : Value} (h : l.domain.admits v) : Typed (.literal l v)
  | parameter {l : Label} {n : Text} : Typed (.parameter l n)
  | cast {l : Label} {o : Binding} (ho : o.Typed) (hd : l.domain.isTarget) : Typed (.cast l o)
  | formula {l : Label} {s : Binding} {f : Operator} {as : List Binding} (hs : s.Typed)
    (has : ∀ a ∈ as, a.Typed) (hf : Accepts f l.domain (as.map domain)) : Typed (.formula l s f as)
  | ambiguous {l : Label} {b : Binding} {cs : List Binding} : Typed (.ambiguous l b cs)
  | collect {l : Label} {b s : Binding} (hb : b.Typed) (hs : s.Typed) : Typed (.collect l b s)

section Parts

variable {b : Binding} {d : Domain} {l : Label} (h : b.Typed)
include h

variable {k : Binding}

lemma Typed.linked (hk : b.linked? = some k) : k.Typed := by
  cases h with
  | column _ _ hlink => exact hlink k hk
  | _ => cases hk

lemma Typed.selectionBase (hk : b.selectionBase? = some k) : k.Typed := by
  cases h with
  | selection hb _ => exact Option.some.inj hk ▸ hb
  | _ => cases hk

lemma Typed.throughLink : b.throughLink.Typed := by
  unfold Binding.throughLink
  cases hk : b.linked? with
  | none => exact h
  | some k => exact h.linked hk

lemma Typed.belowSelection : b.belowSelection.Typed := by
  unfold Binding.belowSelection
  cases hk : b.selectionBase? with
  | none => exact h
  | some k => exact h.selectionBase hk

lemma Typed.withLabel (hl : l.domain = b.domain) : (b.withLabel l).Typed := by
  cases h with
  | column hb hd hlink => exact .column hb (hl.trans hd) hlink
  | kernel hb hds hd => exact .kernel hb hds (hd.trans (congrArg some hl.symm))
  | rescoping ho hs hd => exact .rescoping ho hs (hl.trans hd)
  | direction ho hd => exact .direction ho (hl.trans hd)
  | literal hv => exact .literal (by rw [hl]; exact hv)
  | cast ho hd => exact .cast ho (by rw [hl]; exact hd)
  | formula hs has hf => exact .formula hs has (by rw [hl]; exact hf)
  | _ => constructor <;> assumption

lemma Typed.withTitle (title : Text) : (b.withTitle title).Typed := h.withLabel rfl

lemma Typed.inDomain (hd : d.isTarget) : (b.inDomain d).Typed := by
  unfold Binding.inDomain
  split
  · exact h
  · exact .cast h hd

lemma Typed.settled : b.settled.Typed := by
  unfold Binding.settled
  split
  · exact h.inDomain rfl
  · exact h

end Parts

section Domains

variable (b : Binding) (d : Domain)

@[simp]
lemma domain_inDomain : (b.inDomain d).domain = d := by
  unfold inDomain
  split
  next h => exact h
  next => rfl

end Domains

section Scopes

variable {c : Catalog} {b owner : Binding} {t : Table} {mark : Mark} {name : Text} {kernels : List Binding}

lemma Typed.ofColumn (h : owner.Typed) (column : Column) : (ofColumn c t owner column mark).Typed := by
  refine .column h rfl fun k hk => ?_
  split at hk
  · exact Option.some.inj hk ▸ .attach h
  · cases hk

lemma Typed.ofKernels (h : owner.Typed) (hk : owner.kernelDomains? = some (kernels.map domain)) :
    ∀ b ∈ ofKernels owner mark kernels, b.Typed := by
  intro b hb
  obtain ⟨⟨k, i⟩, hki, rfl⟩ := mem_map.1 hb
  have hget : kernels[i]? = some k := by simpa [mem_zipIdx_iff_getElem?] using hki
  exact .kernel h hk (by rw [getElem?_map, hget]; rfl)

lemma Typed.lookupComplement (h : owner.Typed) : Ensures Typed (lookupComplement owner mark) := by
  unfold Binding.lookupComplement
  split
  · exact .complement h
  · exact .query _ _

lemma Typed.tableCandidates (h : owner.Typed) : ∀ b ∈ tableCandidates c t owner name mark, b.Typed := by
  refine forall_mem_append.2 ⟨forall_mem_append.2 ⟨?_, ?_⟩, ?_⟩
  · exact forall_mem_map.2 fun column _ => h.ofColumn column
  · exact forall_mem_map.2 fun join _ => .attach h
  · exact forall_mem_map.2 fun join _ => .attach h

lemma Typed.candidates (h : owner.Typed) :
    Ensures (fun bs => ∀ b ∈ bs, Typed b) (candidates c owner name mark) := by
  unfold Binding.candidates
  dsimp only
  split
  · exact .query _ _
  · exact forall_mem_map.2 fun t _ => .table h
  · exact forall_mem_map.2 fun t _ => .table h
  next seed kernels hnaming =>
    have hk : owner.kernelDomains? = some (kernels.map domain) := by rw [kernelDomains?, hnaming]
    have hnamed : ∀ b ∈ (Binding.ofKernels owner mark kernels).filter (foldName ·.title == foldName name),
        b.Typed := fun b hb => h.ofKernels hk b (mem_of_mem_filter hb)
    unfold quotientCandidates
    dsimp only
    split
    · refine h.lookupComplement.bind fun complement hc => .pure ?_
      exact forall_mem_append.2 ⟨hnamed, forall_mem_singleton.2 hc⟩
    · exact hnamed
  · split
    · exact forall_mem_nil _
    · exact h.tableCandidates

lemma Typed.lookup? (h : b.Typed) :
    Ensures (fun o => ∀ k, o = some k → k.Typed) (lookup? c b name mark) := by
  refine h.throughLink.candidates.bind fun bs hbs => ?_
  split
  · exact nofun
  · exact fun k hk => Option.some.inj hk ▸ hbs _ mem_cons_self
  · exact fun k hk => Option.some.inj hk ▸ .ambiguous

lemma Typed.expand (h : b.Typed) : Ensures (fun bs => ∀ k ∈ bs, Typed k) (expand c b mark) := by
  unfold Binding.expand
  split
  next hnaming => exact h.ofKernels (by rw [kernelDomains?, hnaming])
  next =>
    split
    · exact .query _ _
    · exact forall_mem_map.2 fun column _ => h.throughLink.ofColumn column

end Scopes

def Binder.Typed (bind : Binder) : Prop := ∀ scope : Binding, scope.Typed → Ensures Binding.Typed (bind scope)

structure Operand.Typed (o : Operand) : Prop where
  bind : Binder.Typed o.bind
  shape : ∀ span flow, o.shape = .starOf span flow → Binder.Typed flow

section Binders

variable {c : Context} {bind left right : Binder} {scope b l r : Binding} {operand : Operand}
  {operands : List Operand} {mark : Mark} {title : Text}

lemma Typed.unambiguous (h : b.Typed) : Ensures Typed b.unambiguous := by
  cases h with
  | ambiguous => exact .query _ _
  | _ => exact .pure (by constructor <;> assumption)

section Values

variable (h : Binder.Typed bind) (hs : scope.Typed)
include h hs

lemma ensures_value : Ensures Typed (value bind scope) :=
  (h scope hs).bind fun _ hb => hb.unambiguous

lemma ensures_scalar : Ensures (fun b => b.Typed ∧ b.domain.isScalar) (scalar bind scope) := by
  refine (ensures_value h hs).bind fun b hb => ?_
  split
  next hd => exact ⟨hb, hd⟩
  next => exact .query _ _

lemma ensures_flow : Ensures Typed (flow bind scope) := by
  refine (ensures_value h hs).bind fun b hb => ?_
  split
  next hl => exact hb.linked hl
  next =>
    split
    · exact hb
    · exact .query _ _

lemma ensures_target : Ensures Typed (target bind scope) := by
  refine (ensures_value h hs).bind fun b hb => ?_
  split
  · exact hb
  · split
    next hl => exact hb.linked hl
    next =>
      split
      · exact hb
      · exact .query _ _

end Values

lemma Typed.mapFlow {f : Binding → Result Binding} (h : b.Typed)
    (hf : ∀ k : Binding, k.Typed → Ensures Typed (f k)) : Ensures Typed (mapFlow f b) := by
  unfold Binding.mapFlow
  split
  · cases h with
    | selection hb hes => exact (hf _ hb).bind fun k hk => .pure (.selection hk hes)
  · exact hf _ h

variable {name : Text}

lemma typed_nameOf : Binder.Typed (nameOf c mark name) := by
  intro scope hs
  refine hs.lookup?.bind fun o ho => ?_
  split
  · exact ho _ rfl
  dsimp only
  split
  · exact .literal rfl
  split
  · exact .literal rfl
  split
  · exact .literal rfl
  · exact .query _ _

lemma ensures_numberOf {kind : NumberKind} {t : Text} : Ensures Typed (numberOf mark kind t) := by
  unfold numberOf
  dsimp only
  split
  next v hv => exact .literal (Domain.admits_of_read (by cases kind <;> rfl) hv)
  next => exact .query _ _

lemma ensures_referenceOf : Ensures Typed (referenceOf c mark name) := by
  unfold referenceOf
  split
  · exact .query _ _
  · exact .parameter

lemma typed_composeOf (hl : Binder.Typed left) (hr : Binder.Typed right) :
    Binder.Typed (composeOf mark title left right) := by
  intro scope hs
  refine (ensures_value hl hs).bind fun l hl => ?_
  have hfield : Ensures Typed (do
      let k ← right l
      if k.isComputed then
        return .rescoping ⟨k.domain, title, mark⟩ k ((l.linked?.or l.selectionBase?).getD l)
      else return k) := by
    refine (hr l hl).bind fun k hk => ?_
    split
    · refine .rescoping hk ?_ rfl
      cases hlink : l.linked? with
      | some t => exact hl.linked hlink
      | none =>
        cases hbase : l.selectionBase? with
        | some t => exact hl.selectionBase hbase
        | none => exact hl
    · exact hk
  split
  · exact .query _ _
  · exact hfield

lemma Typed.sieveOf (h : b.Typed) (hbind : Binder.Typed bind) : Ensures Typed (sieveOf mark bind b) :=
  (ensures_value hbind h).bind fun _ hf => .pure (.sieve h (hf.inDomain rfl) (domain_inDomain _ _))

lemma Typed.kernelOf (h : b.Typed) (ho : operand.Typed) : Ensures Typed (kernelOf b operand) := by
  refine (ensures_value ho.bind h).bind fun k hk => ?_
  split
  · exact hk.settled.withTitle _
  · exact .query _ _

lemma typed_projectOf (hseed : Binder.Typed bind) (ho : ∀ o ∈ operands, o.Typed) :
    Binder.Typed (projectOf mark title bind operands) := fun _ hs =>
  (ensures_flow hseed hs).bind fun _ hseed =>
    (Ensures.mapM fun o h => hseed.kernelOf (ho o h)).bind fun _ hks => .pure (.quotient hs hseed hks)

lemma ensures_imageOf (hs : scope.Typed) (hb : b.Typed) (ho : operand.Typed) :
    Ensures (fun i => i.1.Typed ∧ i.2.Typed) (imageOf c scope b operand) := by
  refine (ensures_scalar ho.bind hs).bind fun l hl => (ensures_scalar ho.bind hb).bind fun r hr => ?_
  dsimp only
  split
  next hd =>
    have htarget := Domain.isTarget_settled hd
    exact ⟨hl.1.inDomain htarget, hr.1.inDomain htarget⟩
  next => exact .query _ _

lemma typed_linkOf (ho : ∀ o ∈ operands, o.Typed) (hseed : Binder.Typed bind) :
    Binder.Typed (linkOf c mark operands bind) := by
  intro scope hs
  refine (ensures_flow hseed (.home hs)).bind fun seed hseed => ?_
  refine (Ensures.mapM fun o h => ensures_imageOf hs hseed (ho o h)).bind fun is his => .pure ?_
  exact .link hs hseed (fun i hi => (his i hi).1) fun i hi => (his i hi).2

lemma ensures_commonDomain {bs : List Binding} :
    Ensures (fun d => d.isTarget) (commonDomain bs mark) := by
  unfold commonDomain
  split
  · exact .query _ _
  · dsimp only
    split
    next hd => exact Domain.isTarget_settled hd
    next => exact .query _ _

end Binders

section Formulas

variable {f : Operator} {d : Domain} {scope l r : Binding} {as : List Binding} {mark : Mark} {title : Text}

def isPlainTest : Kind → Bool
  | .isEqual | .isTotallyEqual | .isIn | .isNull | .compare => true
  | _ => false

variable {kind : Kind}

lemma accepts_test (hf : f.kind = kind) (hkind : isPlainTest kind)
    {ds : List Domain} (hn : f.least ≤ ds.length) : Accepts f .boolean ds := by
  have hresult : f.result? = some .boolean := by
    rw [result?, hf]
    cases kind <;> first | rfl | cases hkind
  have huniform : f.isUniform = false := by
    rw [isUniform, hf]
    cases kind <;> first | rfl | cases hkind
  refine ⟨⟨hn, fun h => ?_, fun e h => Option.some.inj (hresult.symm.trans h)⟩, fun h => ?_, fun h => ?_,
    fun h => ?_⟩
  · exact absurd (huniform.symm.trans h) Bool.false_ne_true
  · rcases h with h | h <;> rw [hf.symm.trans h] at hkind <;> cases hkind
  · rw [hf.symm.trans h] at hkind
    cases hkind
  · rw [hf.symm.trans h] at hkind
    cases hkind

lemma domains_inDomain (bs : List Binding) (d : Domain) :
    ∀ e ∈ (bs.map (·.inDomain d)).map domain, e = d := by
  rw [map_map]
  exact forall_mem_map.2 fun b _ => domain_inDomain b d

lemma typed_formulaOf (hs : scope.Typed) (has : ∀ a ∈ as, a.Typed) (hf : Accepts f d (as.map domain)) :
    (formulaOf f as d scope mark title).Typed := .formula hs has hf

lemma typed_pair (hl : l.Typed) (hr : r.Typed) (hd : d.isTarget) :
    ∀ a ∈ [l.inDomain d, r.inDomain d], a.Typed :=
  forall_mem_cons.2 ⟨hl.inDomain hd, forall_mem_singleton.2 (hr.inDomain hd)⟩

variable (hl : l.Typed) (hr : r.Typed) (hs : scope.Typed)
include hl hr hs

lemma typed_connectiveOf (hkind : kind = .and ∨ kind = .or) :
    (connectiveOf kind l r scope mark title).Typed := by
  refine typed_formulaOf hs (typed_pair hl hr rfl) ?_
  rcases hkind with rfl | rfl <;>
    exact ⟨⟨Nat.zero_le _, fun _ => domains_inDomain [l, r] .boolean, fun _ h => Option.some.inj h⟩,
      nofun, nofun, nofun⟩

variable {polarity : Int}

lemma ensures_equalityOf (hkind : kind = .isEqual ∨ kind = .isTotallyEqual) :
    Ensures Typed (equalityOf kind polarity l r scope mark title) := by
  refine ensures_commonDomain.bind fun d hd => .pure (typed_formulaOf hs (typed_pair hl hr hd) ?_)
  rcases hkind with rfl | rfl <;> exact accepts_test rfl rfl (Nat.le_refl 2)

lemma typed_containmentOf : (containmentOf polarity l r scope mark title).Typed := by
  refine typed_formulaOf hs (typed_pair hl hr rfl)
    ⟨⟨Nat.le_refl 2, nofun, fun _ h => Option.some.inj h⟩, nofun, fun _ a b hab => ?_, nofun⟩
  exact domains_inDomain [l, r] .text b (hab ▸ .tail _ mem_cons_self)

lemma ensures_orderingOf {symbol : Text} : Ensures Typed (orderingOf symbol l r scope mark title) := by
  refine ensures_commonDomain.bind fun d hd => ?_
  split
  · exact typed_formulaOf hs (typed_pair hl hr hd) (accepts_test rfl rfl (Nat.le_refl 2))
  · exact .query _ _

def isArithmetic : Kind → Bool
  | .add | .subtract | .multiply | .divide => true
  | _ => false

lemma ensures_arithmeticOf {op : BinaryOp} (hkind : isArithmetic kind) :
    Ensures Typed (arithmeticOf op kind l r scope mark title) := by
  have hnumeric (d : Domain) (hd : d.isNumeric) :
      (formulaOf (.plain kind) [l.inDomain d, r.inDomain d] d scope mark title).Typed := by
    refine typed_formulaOf hs (typed_pair hl hr (Domain.isTarget_of_isNumeric hd)) ?_
    cases kind with
    | add | subtract | multiply | divide => exact ⟨⟨Nat.le_refl 2, nofun, nofun⟩, nofun, nofun, nofun⟩
    | _ => cases hkind
  unfold arithmeticOf
  dsimp only
  split
  next htext =>
    rw [htext]
    split
    · refine typed_formulaOf hs (typed_pair hl hr rfl) ⟨⟨Nat.le_refl 2, fun _ => ?_, ?_⟩, nofun, nofun, nofun⟩
      · exact domains_inDomain [l, r] .text
      · exact fun _ h => Option.some.inj h
    · exact .query _ _
  next =>
    split
    next hn =>
      refine hnumeric _ ?_
      split
      · rfl
      · exact hn
    next => exact .query _ _

end Formulas

section Kinds

variable {c : Context} {bind left right : Binder} {scope : Binding} {operand : Operand}
  {operands : List Operand} {mark : Mark} {title : Text}

variable {polarity : Int} {kind : Kind}

lemma typed_membershipOf (hl : Binder.Typed left) (ho : ∀ o ∈ operands, o.Typed) :
    Binder.Typed (membershipOf mark title polarity left operands) := by
  intro scope hs
  refine (ensures_value hl hs).bind fun l hl => ?_
  refine (Ensures.mapM fun o h => ensures_value (ho o h).bind hs).bind fun items hitems => ?_
  refine ensures_commonDomain.bind fun d hd => .pure (typed_formulaOf hs ?_ ?_)
  · exact forall_mem_map.2 fun b hb => (forall_mem_cons.2 ⟨hl, hitems⟩ b hb).inDomain hd
  · exact accepts_test rfl rfl (Nat.succ_le_succ (Nat.zero_le _))

lemma typed_binaryOf {op : BinaryOp} (hl : Binder.Typed left) (hr : Binder.Typed right) :
    Binder.Typed (binaryOf mark title op left right) := by
  intro scope hs
  refine (ensures_value hl hs).bind fun l hl => (ensures_value hr hs).bind fun r hr => ?_
  cases op with
  | and => exact typed_connectiveOf hl hr hs (.inl rfl)
  | or => exact typed_connectiveOf hl hr hs (.inr rfl)
  | equal | notEqual => exact ensures_equalityOf hl hr hs (.inl rfl)
  | totallyEqual | totallyNotEqual => exact ensures_equalityOf hl hr hs (.inr rfl)
  | contains | notContains => exact typed_containmentOf hl hr hs
  | less | lessEqual | greater | greaterEqual => exact ensures_orderingOf hl hr hs
  | add | subtract | multiply | divide => exact ensures_arithmeticOf hl hr hs rfl

lemma typed_unaryOf {op : UnaryOp} (h : Binder.Typed bind) : Binder.Typed (unaryOf mark title op bind) := by
  intro scope hs
  refine (ensures_value h hs).bind fun b hb => ?_
  cases op with
  | not =>
    refine typed_formulaOf hs (forall_mem_singleton.2 (hb.inDomain rfl)) ⟨⟨Nat.le_refl 1, fun _ => ?_, ?_⟩,
      nofun, nofun, nofun⟩
    · exact domains_inDomain [b] .boolean
    · exact fun _ h => Option.some.inj h
  | plus =>
    dsimp only
    split
    · exact hb
    · exact .query _ _
  | minus =>
    dsimp only
    split
    · exact typed_formulaOf hs (forall_mem_singleton.2 hb)
        ⟨⟨Nat.le_refl 1, nofun, nofun⟩, nofun, nofun, nofun⟩
    · exact .query _ _

lemma typed_directOf {d : Direction} (h : Binder.Typed bind) : Binder.Typed (directOf mark d bind) :=
  fun _ hs => (ensures_scalar h hs).bind fun _ hb => .pure (.direction hb.1 rfl)

def TypedItems (p : List Binding × List Binding) : Prop := (∀ b ∈ p.1, b.Typed) ∧ ∀ b ∈ p.2, b.Typed

lemma ensures_elementOf (hs : scope.Typed) (ho : operand.Typed) :
    Ensures TypedItems (elementOf scope operand) := by
  refine (ensures_value ho.bind hs).bind fun bound hbound => ?_
  have hrest {element : Binding} {orders : List Binding} (he : element.Typed) (hos : ∀ b ∈ orders, b.Typed) :
      Ensures TypedItems (do
        if element.isFlow then fail .nestedSegment element.mark
        if !element.domain.isScalar then fail .scalarExpected element.mark
        return ([element.settled.withTitle (undirected operand.expr).text], orders)) := by
    dsimp only
    split
    · exact .query _ _
    split
    · exact .query _ _
    · exact ⟨forall_mem_singleton.2 (he.settled.withTitle _), hos⟩
  cases hbound with
  | direction ho hd => exact hrest ho (forall_mem_singleton.2 (.direction ho hd))
  | _ => exact hrest (by constructor <;> assumption) (forall_mem_nil _)

lemma ensures_itemOf (hs : scope.Typed) (ho : operand.Typed) :
    Ensures TypedItems (itemOf c scope operand) := by
  unfold itemOf
  split
  · exact hs.expand.bind fun bs hbs => .pure ⟨hbs, forall_mem_nil _⟩
  next hshape =>
    refine (ensures_flow (ho.shape _ _ hshape) hs).bind fun owner howner => ?_
    exact howner.expand.bind fun bs hbs => .pure ⟨hbs, forall_mem_nil _⟩
  · exact ensures_elementOf hs ho

lemma typed_selectionOf (ho : ∀ o ∈ operands, o.Typed) : Binder.Typed (selectionOf c mark operands) := by
  intro base hs
  refine (Ensures.mapM fun o h => ensures_itemOf hs (ho o h)).bind fun parts hparts => .pure ?_
  have helements : ∀ b ∈ parts.flatMap (·.1), b.Typed := forall_mem_flatMap.2 fun p hp => (hparts p hp).1
  have horders : ∀ b ∈ parts.flatMap (·.2), b.Typed := forall_mem_flatMap.2 fun p hp => (hparts p hp).2
  refine .selection ?_ helements
  split
  · exact hs.belowSelection
  · exact .sort hs.belowSelection horders

lemma ensures_orderOf (hs : scope.Typed) (ho : operand.Typed) : Ensures Typed (orderOf scope operand) := by
  refine (ensures_value ho.bind hs).bind fun order horder => ?_
  have hrest {inner : Binding} {d : Direction} (hi : inner.Typed) : Ensures Typed (do
      if !inner.settled.domain.isScalar then fail .scalarExpected inner.mark
      if inner.domain.isUntyped then
        return .direction ⟨inner.settled.domain, [], order.mark⟩ inner.settled d
      else return order) := by
    dsimp only
    split
    · exact .query _ _
    split
    · exact .direction hi.settled rfl
    · exact horder
  cases horder with
  | direction ho hd => exact hrest ho
  | _ => exact hrest (by constructor <;> assumption)

lemma typed_sortOf (ho : ∀ o ∈ operands, o.Typed) : Binder.Typed (sortOf mark operands) := by
  intro scope hs
  refine (Ensures.mapM fun o h => ensures_orderOf hs.belowSelection (ho o h)).bind fun orders horders => ?_
  exact hs.mapFlow fun k hk => .sort hk horders

lemma typed_limitOf : Binder.Typed (limitOf c mark operands) := by
  intro scope hs
  refine (Ensures.mapM (Q := fun _ => True) fun o _ => ?_).bind fun counts _ => ?_
  · unfold countOf
    split
    · split
      · exact trivial
      · exact .query _ _
    · exact .query _ _
  · exact hs.mapFlow fun k hk => .sort hk (forall_mem_nil _)

lemma typed_countAggregate (h : Binder.Typed bind) : Binder.Typed (countAggregate mark title bind) :=
  fun _ hs => (ensures_value h hs).bind fun _ hb => .pure (typed_formulaOf hs
    (forall_mem_singleton.2 (hb.inDomain rfl))
    ⟨⟨Nat.zero_le _, nofun, nofun⟩, fun _ => rfl, nofun, nofun⟩)

lemma typed_aggregateOf (hkind : kind ∈ [.sum, .avg, .min, .max])
    (h : Binder.Typed bind) : Binder.Typed (aggregateOf kind mark title bind) := by
  intro scope hs
  refine (ensures_value h hs).bind fun b hb => ?_
  have hnumber (kind : Kind) (hkind : kind = .sum ∨ kind = .avg) {d : Domain}
      (hd : d.isNumeric) : (formulaOf (.plain kind) [b.inDomain d] d scope mark title).Typed := by
    refine typed_formulaOf hs (forall_mem_singleton.2 (hb.inDomain (Domain.isTarget_of_isNumeric hd))) ?_
    rcases hkind with rfl | rfl <;> exact ⟨⟨Nat.zero_le _, nofun, nofun⟩, fun _ => hd, nofun, nofun⟩
  have hextreme (kind : Kind) (hkind : kind = .min ∨ kind = .max) :
      (formulaOf (.plain kind) [b.settled] b.settled.domain scope mark title).Typed := by
    refine typed_formulaOf hs (forall_mem_singleton.2 hb.settled) ?_
    rcases hkind with rfl | rfl <;> exact ⟨⟨Nat.zero_le _, nofun, nofun⟩, nofun, nofun, nofun⟩
  simp only [mem_cons, not_mem_nil, or_false] at hkind
  rcases hkind with rfl | rfl | rfl | rfl <;> dsimp only
  · split
    · exact .query _ _
    next hn => exact hnumber .sum (.inl rfl) (by simpa using hn)
  · split
    · exact .query _ _
    next hn =>
      refine hnumber .avg (.inr rfl) ?_
      split
      · rfl
      · simpa using hn
  · split
    · exact hextreme .min (.inl rfl)
    · exact .query _ _
  · split
    · exact hextreme .max (.inr rfl)
    · exact .query _ _

lemma typed_quantifierOf (h : Binder.Typed bind) :
    Binder.Typed (quantifierOf polarity mark title bind) := by
  intro scope hs
  refine (ensures_value h hs).bind fun b hb => .pure (typed_formulaOf hs
    (forall_mem_singleton.2 (hb.inDomain rfl)) ⟨⟨Nat.le_refl 1, nofun, ?_⟩, nofun, nofun, fun _ a ha => ?_⟩)
  · exact fun _ h => Option.some.inj h
  · exact domains_inDomain [b] .boolean a (ha ▸ mem_cons_self)

lemma typed_isNullOf (h : Binder.Typed bind) : Binder.Typed (isNullOf mark title bind) :=
  fun _ hs => (ensures_scalar h hs).bind fun _ hb => .pure (typed_formulaOf hs
    (forall_mem_singleton.2 hb.1.settled) (accepts_test rfl rfl (Nat.le_refl 1)))

lemma typed_choiceOf (hkind : kind = .ifNull ∨ kind = .nullIf)
    (ho : ∀ o ∈ operands, o.Typed) : Binder.Typed (choiceOf kind mark title operands) := by
  intro scope hs
  refine (Ensures.mapM fun o h => ensures_scalar (ho o h).bind hs).bind fun bs hbs => ?_
  refine ensures_commonDomain.bind fun d hd => .pure (typed_formulaOf hs ?_ ?_)
  · exact forall_mem_map.2 fun b hb => (hbs b hb).1.inDomain hd
  · rcases hkind with rfl | rfl <;>
      exact ⟨⟨Nat.zero_le _, fun _ => domains_inDomain bs d, nofun⟩, nofun, nofun, nofun⟩

lemma typed_forkOf (ho : ∀ o ∈ operands, o.Typed) : Binder.Typed (forkOf mark operands) := by
  intro scope hs
  unfold forkOf
  split
  · exact .query _ _
  · refine (Ensures.mapM (Q := Typed) fun o h => ?_).bind fun ks hks => .pure (.fork hs hks)
    exact (ensures_scalar (ho o h).bind hs).bind fun b hb => .pure hb.1.settled

lemma typed_monikerOf (h : Binder.Typed bind) : Binder.Typed (monikerOf mark bind) :=
  fun _ hs => (ensures_flow h hs).bind fun _ hseed => .pure (.cover hs hseed)

lemma typed_castOf {d : Domain} (hd : d.isTarget) (h : Binder.Typed bind) :
    Binder.Typed (castOf d mark title bind) := by
  intro scope hs
  refine (ensures_value h hs).bind fun b hb => ?_
  dsimp only
  split
  · exact .query _ _
  split
  · exact hb
  · exact .cast hb hd

end Kinds

end Binding

namespace Function

/-- Aggregates over rows, and casts to the domains of single values. -/
def isOrderly : Function → Bool
  | aggregate kind => [.sum, .avg, .min, .max].contains kind
  | cast domain => domain.isTarget
  | _ => true

lemma isOrderly_of_name {name : Text} {f : Function} (h : ofName? name = some f) : f.isOrderly := by
  have htable : ∀ x ∈ table, x.2.isOrderly := by decide
  obtain ⟨before, after, heq, -⟩ := lookup_eq_some_iff.1 h
  exact htable (foldName name, f) (heq ▸ mem_append_right _ mem_cons_self)

end Function

namespace Binding

variable {c : Context}

variable {title : Text} {mark : Mark} {arguments : List Operand} {limit : Option Int} {b : Binding}

lemma typed_applyFunction {refusal : Result Binding} {f : Function} (hf : f.isOrderly) (hr : Ensures Typed refusal)
    (ho : ∀ o ∈ arguments, o.Typed) : Binder.Typed (applyFunction c mark title refusal f arguments) := by
  intro scope hs
  cases f with
  | sort => exact typed_sortOf ho scope hs
  | limit => exact typed_limitOf scope hs
  | select => exact typed_selectionOf ho scope hs
  | ifNull => exact typed_choiceOf (.inl rfl) ho scope hs
  | nullIf => exact typed_choiceOf (.inr rfl) ho scope hs
  | null | truth _ => exact .literal rfl
  | fork => exact typed_forkOf ho scope hs
  | _ =>
    -- The others read their first argument, and refuse to do without.
    cases arguments with
    | nil => exact hr
    | cons a arguments =>
      have ha := (ho a mem_cons_self).bind
      first
      | exact hs.mapFlow fun k hk => hk.sieveOf ha
      | exact typed_countAggregate ha scope hs
      | exact typed_aggregateOf (contains_iff_mem.1 hf) ha scope hs
      | exact typed_quantifierOf ha scope hs
      | exact typed_isNullOf ha scope hs
      | exact typed_monikerOf ha scope hs
      | exact typed_castOf hf ha scope hs

lemma typed_callOf {name : Text}
    (ho : ∀ o ∈ arguments, o.Typed) : Binder.Typed (callOf c mark title name arguments) := by
  intro scope hs
  unfold callOf
  split
  · exact .query _ _
  next f hf =>
    split
    · exact typed_applyFunction (Function.isOrderly_of_name hf) (.query _ _) ho scope hs
    · exact .query _ _

mutual

lemma typed_ofExpr (c : Context) (e : Expr) : Binder.Typed (ofExpr c e) := by
  intro scope hs
  cases e with
  | name s t => exact typed_nameOf scope hs
  | string s t => exact .literal rfl
  | number s kind t => exact ensures_numberOf
  | reference s n => exact ensures_referenceOf
  | wildcard s => exact .query _ _
  | complement s => exact hs.lookupComplement
  | call s f arguments =>
    exact typed_callOf (typed_operands c arguments) scope hs
  | record s items =>
    exact typed_selectionOf (typed_operands c items) scope hs
  | group s e =>
    exact typed_ofExpr c e scope hs
  | compose s base field =>
    exact typed_composeOf (typed_ofExpr c base) (typed_ofExpr c field) scope hs
  | link s origin seed =>
    exact typed_linkOf (typed_recordItems c origin (typed_ofExpr c origin)) (typed_ofExpr c seed) scope hs
  | sieve s base condition =>
    refine (ensures_target (typed_ofExpr c base) hs).bind fun base hbase => ?_
    exact hbase.mapFlow fun k hk => hk.sieveOf (typed_ofExpr c condition)
  | project s base key =>
    exact typed_projectOf (typed_ofExpr c base) (typed_recordItems c key (typed_ofExpr c key)) scope hs
  | select s base braces items =>
    refine (ensures_target (typed_ofExpr c base) hs).bind fun base hbase => ?_
    exact typed_selectionOf (typed_operands c items) base hbase
  | direct s operand d =>
    exact typed_directOf (typed_ofExpr c operand) scope hs
  | unary s op operand =>
    exact typed_unaryOf (typed_ofExpr c operand) scope hs
  | binary s op left right =>
    rw [ofExpr]
    split
    next items _ hitems =>
      have hrecord := typed_recordItems c right (typed_ofExpr c right)
      rw [hitems] at hrecord
      exact typed_membershipOf (typed_ofExpr c left) hrecord scope hs
    next => exact typed_binaryOf (typed_ofExpr c left) (typed_ofExpr c right) scope hs

lemma typed_operands (c : Context) (es : List Expr) : ∀ o ∈ operands c es, o.Typed := by
  cases es with
  | nil => exact forall_mem_nil _
  | cons e es =>
    exact forall_mem_cons.2 ⟨⟨typed_ofExpr c e, typed_shapeOf c e⟩, typed_operands c es⟩

lemma typed_recordItems (c : Context) (e : Expr) (he : Binder.Typed (ofExpr c e)) :
    ∀ o ∈ (recordItems c e).getD [⟨e, fun b => ofExpr c e b, .value⟩], o.Typed := by
  cases e with
  | record s items =>
    exact typed_operands c items
  | _ =>
    exact forall_mem_singleton.2 ⟨he, nofun⟩

lemma typed_shapeOf (c : Context) (e : Expr) :
    ∀ span flow, shapeOf c e = .starOf span flow → Binder.Typed flow := by
  intro span flow h
  cases e with
  | direct s e d =>
    exact typed_shapeOf c e span flow h
  | compose s base field =>
    cases field with
    | wildcard =>
      obtain ⟨-, rfl⟩ := Shape.starOf.inj h
      exact typed_ofExpr c base
    | _ => simp only [shapeOf, reduceCtorEq] at h
  | _ => simp only [shapeOf, reduceCtorEq] at h

end

lemma Typed.limited (h : b.Typed) : (limited limit b).Typed := by
  cases limit with
  | none => exact h
  | some n => exact .sort h (forall_mem_nil _)

lemma Typed.seedOf {e : Expr} (h : b.Typed) : Ensures Typed (seedOf c e limit b) := by
  unfold Binding.seedOf
  split
  · cases h with
    | selection hb hes => exact .selection hb.limited hes
  · have hflow {flow : Binding} (hf : (if b.isFlow && b.linked?.isNone then some b else b.linked?) = some flow) :
        flow.Typed := by
      split at hf
      · exact Option.some.inj hf ▸ h
      · exact h.linked hf
    split
    next flow hf =>
      exact (hflow hf).limited.expand.bind fun es hes => .pure (.selection (hflow hf).limited hes)
    next => exact h.settled.withTitle _

lemma ensures_ofQuery (c : Context) (q : Query) (limit : Option Int) :
    Ensures (fun o => ∀ b, o = some b → b.Typed) (ofQuery c q limit) := by
  unfold ofQuery
  split
  · exact nofun
  next e _ =>
    refine (ensures_value (typed_ofExpr c e) .root).bind fun b hb => hb.seedOf.bind fun seed hseed => .pure ?_
    exact fun k hk => Option.some.inj hk ▸ .collect .root hseed

end Binding

end NavQuery
