import NavQuery.Proofs.Parts
import NavQuery.Proofs.UnmarkedSeams

/-!
A space or code is rebuilt from new parts in the places of the old ones. A renewal says how the new relates
to the old; it holds of what is rebuilt if finishing brings it about from the same for the parts, and of what
is unmasked if it also holds where a part takes the place of the whole.
-/

namespace NavQuery

open List Ensures

namespace Code

variable (f : Finish) (root : Space)

lemma rebuildAll_eq (cs : List Code) : rebuildAll f cs = cs.mapM (·.rebuild f) :=
  eq_mapM_of_cons cs rfl fun _ _ => rfl

lemma rebuildImages_eq (is : List Image) : rebuildImages f is = is.mapM (rebuildImage f) :=
  eq_mapM_of_cons is rfl fun _ _ => rfl

lemma rebuildOrder_eq (os : List OrderItem) : rebuildOrder f os = os.mapM (rebuildItem f) :=
  eq_mapM_of_cons os rfl fun _ _ => rfl

lemma unmaskAll_eq (cs : List Code) (mask : Space) :
    unmaskAll root cs mask = cs.mapM (·.unmask root mask) :=
  eq_mapM_of_cons (F := (unmaskAll root · mask)) cs rfl fun _ _ => rfl

lemma unmaskImages_eq (is : List Image) (base seed : Space) :
    unmaskImages root is base seed = is.mapM fun i => unmaskImage root i base seed :=
  eq_mapM_of_cons (F := (unmaskImages root · base seed)) is rfl fun _ _ => rfl

lemma unmaskOrder_eq (os : List OrderItem) (mask : Space) :
    unmaskOrder root os mask = os.mapM fun o => unmaskItem root o mask :=
  eq_mapM_of_cons (F := (unmaskOrder root · mask)) os rfl fun _ _ => rfl

end Code

/-- How what is rebuilt relates to what it was, where something is given of the old and its parts. -/
structure Renewal where
  given : Part → Prop
  core : ∀ {a : Part}, given a → a.Made given
  space : Space → Space → Prop
  code : Code → Code → Prop

/-- A step whose parts are renewed. -/
inductive Space.Rejoined (R : Renewal) : Space → Space → Prop
  | root {m : Mark} : Space.Rejoined R (.root m) (.root m)
  | scalar {m : Mark} {b b' : Space} (hb : R.space b b') : Space.Rejoined R (.scalar m b) (.scalar m b')
  | table {m : Mark} {b b' : Space} {t : Table} (hb : R.space b b') :
    Space.Rejoined R (.table m b t) (.table m b' t)
  | fiber {m : Mark} {b b' : Space} {j : Join} (hb : R.space b b') :
    Space.Rejoined R (.fiber m b j) (.fiber m b' j)
  | quotient {m : Mark} {b b' s s' : Space} {ks ks' cs : List Code} (hb : R.space b b') (hs : R.space s s')
    (hks : Forall₂ R.code ks ks') : Space.Rejoined R (.quotient m b s ks cs) (.quotient m b' s' ks' cs)
  | complement {m : Mark} {b b' : Space} {cs : List Code} (hb : R.space b b') :
    Space.Rejoined R (.complement m b cs) (.complement m b' cs)
  | moniker {m : Mark} {b b' s s' : Space} {cs : List Code} (hb : R.space b b') (hs : R.space s s') :
    Space.Rejoined R (.moniker m b s cs) (.moniker m b' s' cs)
  | forked {m : Mark} {b b' s s' : Space} {ks ks' cs : List Code} (hb : R.space b b') (hs : R.space s s')
    (hks : Forall₂ R.code ks ks') : Space.Rejoined R (.forked m b s ks cs) (.forked m b' s' ks' cs)
  | linked {m : Mark} {b b' s s' : Space} {is is' : List Image} {cs : List Code} (hb : R.space b b')
    (hs : R.space s s') (his : Forall₂ (fun i i' => R.code i.1 i'.1 ∧ R.code i.2 i'.2) is is') :
    Space.Rejoined R (.linked m b s is cs) (.linked m b' s' is' cs)
  | filtered {m : Mark} {b b' : Space} {c c' : Code} (hb : R.space b b') (hc : R.code c c') :
    Space.Rejoined R (.filtered m b c) (.filtered m b' c')
  | ordered {m : Mark} {b b' : Space} {os os' : List OrderItem} {l o : Option Int} (hb : R.space b b')
    (hos : Forall₂ (fun i i' => R.code i.1 i'.1 ∧ i.2 = i'.2) os os') :
    Space.Rejoined R (.ordered m b os l o) (.ordered m b' os' l o)

/-- A code whose parts are renewed. A kernel is read again in its place among the kernels of its space. -/
inductive Code.Rejoined (R : Renewal) : Code → Code → Prop
  | missing : Code.Rejoined R .missing .missing
  | literal {m : Mark} {d : Domain} {v : Value} : Code.Rejoined R (.literal m d v) (.literal m d v)
  | parameter {m : Mark} {d : Domain} {n : Text} : Code.Rejoined R (.parameter m d n) (.parameter m d n)
  | cast {m : Mark} {d : Domain} {c c' : Code} (hc : R.code c c') : Code.Rejoined R (.cast m d c) (.cast m d c')
  | formula {m : Mark} {d : Domain} {o : Operator} {as as' : List Code} (has : Forall₂ R.code as as') :
    Code.Rejoined R (.formula m d o as) (.formula m d o as')
  | correlation {m : Mark} {c c' : Code} (hc : R.code c c') :
    Code.Rejoined R (.correlation m c) (.correlation m c')
  | column {m : Mark} {d : Domain} {c : Column} {s s' : Space} (hs : R.space s s') :
    Code.Rejoined R (.column m d c s) (.column m d c s')
  | single {m : Mark} {c c' : Code} {s s' : Space} {cs : List Code} (hc : R.code c c') (hs : R.space s s') :
    Code.Rejoined R (.single m c s cs) (.single m c' s' cs)
  | aggregate {m : Mark} {c c' : Code} {p p' s s' : Space} {cs : List Code} (hc : R.code c c')
    (hp : R.space p p') (hs : R.space s s') : Code.Rejoined R (.aggregate m c p s cs) (.aggregate m c' p' s' cs)
  | correlated {m : Mark} {c c' : Code} {p p' s s' : Space} (hc : R.code c c') (hp : R.space p p')
    (hs : R.space s s') : Code.Rejoined R (.correlated m c p s) (.correlated m c' p' s')
  | kernel {m : Mark} {c k : Code} {s s' : Space} {i : Nat}
    (hplace : s.family.kernels.findIdx? (· == c) = some i) (hs : R.space s s')
    (hk : s'.family.kernels[i]? = some k) : Code.Rejoined R (.kernel m c s) (.kernel m k s')
  | covering {m : Mark} {c c' : Code} {s s' : Space} (hc : R.code c c') (hs : R.space s s') :
    Code.Rejoined R (.covering m c s) (.covering m c' s')

variable {R : Renewal}

/-- A renewal that holds of what is put together from renewed parts. -/
structure Renewal.Joins (R : Renewal) : Prop where
  space : ∀ {x y : Space}, R.given (.space x) → x.Rejoined R y → R.space x y
  code : ∀ {x y : Code}, R.given (.code x) → x.Rejoined R y → R.code x y

/-- It also holds of what unmasking leaves: the base in place of a filter or sort, what a value computes in
place of the value, the origin of a column. -/
structure Renewal.Unmasks (R : Renewal) : Prop extends R.Joins where
  filtered : ∀ {m : Mark} {b b' : Space} {f : Code}, R.space b b' → R.space (.filtered m b f) b'
  ordered : ∀ {m : Mark} {b b' : Space} {os : List OrderItem} {l o : Option Int}, R.space b b' →
    R.space (.ordered m b os l o) b'
  single : ∀ {m : Mark} {c c' : Code} {s : Space} {cs : List Code}, R.given (.code (.single m c s cs)) →
    R.code c c' → R.code (.single m c s cs) c'
  column : ∀ {m : Mark} {d : Domain} {c : Column} {s s' : Space}, R.given (.code (.column m d c s)) →
    R.space s s' → R.code (.column m d c s) (.column m d (s'.originColumn c).2 (s'.originColumn c).1)

section Walks

variable [Discipline.Tolerant] {f : Finish} {root : Space}

lemma Space.ensures_checked {P : Space → Prop} {s : Space} (h : P s) : Ensures P s.checked := by
  have hs : Passes s.check := by
    cases s with
    | root | scalar | filtered | ordered => exact trivial
    | table | fiber | quotient | complement | moniker | forked | linked =>
      exact (Ensures.ensure _ rfl).imp fun _ _ => trivial
  exact hs.bind fun _ => h

lemma ensures_variableKernels {m : Mark} {P : List Code → Prop} {ks : List Code} (h : P ks) :
    Ensures P (variableKernels m ks) := by
  unfold variableKernels
  split
  · exact .query _ _
  · exact h

lemma Code.ensures_kernelAt {m : Mark} {c : Code} {s s' : Space} {i : Nat}
    (hplace : s.family.kernels.findIdx? (· == c) = some i) (hs : R.space s s') :
    Ensures (Code.Rejoined R (.kernel m c s)) (kernelAt m s' i) :=
  (Ensures.require _ rfl).bind fun _ hk => .pure (.kernel hplace hs hk)

/-- Finishing renews a step or code if its parts are renewed. -/
structure Finish.Renews (f : Finish) (R : Renewal) : Prop where
  space : ∀ {s joined : Space}, R.given (.space s) → s.Rejoined R joined →
    Ensures (R.space s) (f.space s joined)
  code : ∀ {c joined : Code}, R.given (.code c) → c.Rejoined R joined → Ensures (R.code c) (f.code c joined)

def Renewal.Rebuilt (R : Renewal) (f : Finish) : Part → Prop
  | .space s => Ensures (R.space s) (s.rebuild f)
  | .code c => Ensures (R.code c) (c.rebuild f)

theorem Finish.Renews.rebuilt (hf : f.Renews R) {a : Part} (h : R.given a) : R.Rebuilt f a := by
  refine Part.induction R.core (fun a h hmade => ?_) h
  rcases a with s | c
  · cases s with
    | root => exact hf.space h .root
    | scalar => exact hmade.bind fun _ hb => hf.space h (.scalar hb)
    | table => exact hmade.bind fun _ hb => hf.space h (.table hb)
    | fiber => exact hmade.bind fun _ hb => hf.space h (.fiber hb)
    | complement => exact hmade.bind fun _ hb => hf.space h (.complement hb)
    | quotient =>
      obtain ⟨hb, hs, hks⟩ := hmade
      rw [Renewal.Rebuilt, Space.rebuild, Code.rebuildAll_eq]
      exact hb.bind fun _ hb => hs.bind fun _ hs => (mapM_forall₂ hks).bind fun _ hks =>
        hf.space h (.quotient hb hs hks)
    | moniker => exact hmade.1.bind fun _ hb => hmade.2.bind fun _ hs => hf.space h (.moniker hb hs)
    | forked =>
      obtain ⟨hb, hs, hks⟩ := hmade
      rw [Renewal.Rebuilt, Space.rebuild, Code.rebuildAll_eq]
      exact hb.bind fun _ hb => hs.bind fun _ hs => (mapM_forall₂ hks).bind fun _ hks =>
        hf.space h (.forked hb hs hks)
    | linked =>
      obtain ⟨hb, hs, his⟩ := hmade
      rw [Renewal.Rebuilt, Space.rebuild, Code.rebuildImages_eq]
      refine hb.bind fun _ hb => hs.bind fun _ hs => (mapM_forall₂ fun ⟨c, d⟩ hi => ?_).bind fun _ his =>
        hf.space h (.linked hb hs his)
      exact (his _ hi).1.bind fun _ hc => (his _ hi).2.bind fun _ hd => .pure ⟨hc, hd⟩
    | filtered => exact hmade.1.bind fun _ hb => hmade.2.bind fun _ hc => hf.space h (.filtered hb hc)
    | ordered =>
      obtain ⟨hb, hos⟩ := hmade
      rw [Renewal.Rebuilt, Space.rebuild, Code.rebuildOrder_eq]
      refine hb.bind fun _ hb => (mapM_forall₂ fun ⟨c, d⟩ hi => ?_).bind fun _ hos => hf.space h (.ordered hb hos)
      exact (hos _ hi).bind fun _ hc => .pure ⟨hc, rfl⟩
  · cases c with
    | missing => exact hf.code h .missing
    | literal => exact hf.code h .literal
    | parameter => exact hf.code h .parameter
    | cast => exact hmade.bind fun _ hc => hf.code h (.cast hc)
    | formula =>
      rw [Renewal.Rebuilt, Code.rebuild, Code.rebuildAll_eq]
      exact (mapM_forall₂ hmade).bind fun _ has => hf.code h (.formula has)
    | correlation => exact hmade.bind fun _ hc => hf.code h (.correlation hc)
    | column => exact hmade.bind fun _ hs => hf.code h (.column hs)
    | single => exact hmade.1.bind fun _ hc => hmade.2.bind fun _ hs => hf.code h (.single hc hs)
    | aggregate =>
      obtain ⟨hc, hp, hs⟩ := hmade
      exact hc.bind fun _ hc => hp.bind fun _ hp => hs.bind fun _ hs => hf.code h (.aggregate hc hp hs)
    | correlated =>
      obtain ⟨hc, hp, hs⟩ := hmade
      exact hc.bind fun _ hc => hp.bind fun _ hp => hs.bind fun _ hs => hf.code h (.correlated hc hp hs)
    | kernel =>
      refine (Ensures.require _ rfl).bind fun i hi => hmade.2.bind fun _ hs => ?_
      exact (Code.ensures_kernelAt hi hs).bind fun _ hk => hf.code h hk
    | covering => exact hmade.1.bind fun _ hc => hmade.2.bind fun _ hs => hf.code h (.covering hc hs)

def Renewal.Unmasked (R : Renewal) (root : Space) : Part → Prop
  | .space s => ∀ mask, Ensures (R.space s) (Space.unmask root s mask)
  | .code c => ∀ mask, Ensures (R.code c) (c.unmask root mask)

theorem Renewal.Unmasks.unmasked (hR : R.Unmasks) {a : Part} (h : R.given a) : R.Unmasked root a := by
  refine Part.induction R.core (fun a h hmade => ?_) h
  rcases a with s | c <;> intro mask
  · cases s with
    | root => exact hR.space h .root
    | scalar => exact (hmade mask).bind fun _ hb => hR.space h (.scalar hb)
    | table => exact (hmade mask).bind fun _ hb => hR.space h (.table hb)
    | fiber => exact (hmade mask).bind fun _ hb => hR.space h (.fiber hb)
    | complement => exact (hmade mask).bind fun _ hb => hR.space h (.complement hb)
    | quotient =>
      obtain ⟨hb, hs, hks⟩ := hmade
      rw [Space.unmask, Code.unmaskAll_eq]
      refine (mapM_forall₂ fun k hk => hks k hk _).bind fun _ hks => ?_
      exact (ensures_variableKernels hks).bind fun _ hks => (hs _).bind fun _ hs => (hb mask).bind fun _ hb =>
        Space.ensures_checked (hR.space h (.quotient hb hs hks))
    | moniker =>
      exact (hmade.2 _).bind fun _ hs => (hmade.1 mask).bind fun _ hb =>
        Space.ensures_checked (hR.space h (.moniker hb hs))
    | forked =>
      obtain ⟨hb, hs, hks⟩ := hmade
      rw [Space.unmask, Code.unmaskAll_eq]
      exact (hs _).bind fun _ hs => (mapM_forall₂ fun k hk => hks k hk _).bind fun _ hks =>
        (hb mask).bind fun _ hb => Space.ensures_checked (hR.space h (.forked hb hs hks))
    | linked =>
      obtain ⟨hb, hs, his⟩ := hmade
      rw [Space.unmask, Code.unmaskImages_eq]
      refine (hs _).bind fun _ hs => (mapM_forall₂ fun ⟨c, d⟩ hi => ?_).bind fun _ his =>
        (hb mask).bind fun _ hb => Space.ensures_checked (hR.space h (.linked hb hs his))
      exact ((his _ hi).1 _).bind fun _ hc => ((his _ hi).2 _).bind fun _ hd => .pure ⟨hc, hd⟩
    | filtered =>
      rw [Space.unmask]
      split
      · exact (hmade.1 mask).imp fun _ => hR.filtered
      · exact (hmade.2 _).bind fun _ hc => (hmade.1 mask).bind fun _ hb => hR.space h (.filtered hb hc)
    | ordered =>
      rw [Space.unmask, Code.unmaskOrder_eq]
      split
      · exact (hmade.1 mask).imp fun _ => hR.ordered
      · refine (mapM_forall₂ fun ⟨c, d⟩ hi => ?_).bind fun _ hos =>
          (hmade.1 _).bind fun _ hb => hR.space h (.ordered hb hos)
        exact (hmade.2 _ hi _).bind fun _ hc => .pure ⟨hc, rfl⟩
  · cases c with
    | missing => exact hR.code h .missing
    | literal => exact hR.code h .literal
    | parameter => exact hR.code h .parameter
    | cast => exact (hmade mask).bind fun _ hc => hR.code h (.cast hc)
    | formula =>
      rw [Code.unmask, Code.unmaskAll_eq]
      exact (mapM_forall₂ fun a ha => hmade a ha mask).bind fun _ has => hR.code h (.formula has)
    | correlation => exact (hmade mask).bind fun _ hc => hR.code h (.correlation hc)
    | column => exact (hmade mask).bind fun _ hs => hR.column h hs
    | single =>
      rw [Code.unmask]
      split
      · exact (hmade.1 mask).imp fun _ => hR.single h
      · exact (hmade.1 _).bind fun _ hc => (hmade.2 mask).bind fun _ hs => hR.code h (.single hc hs)
    | aggregate =>
      obtain ⟨hc, hp, hs⟩ := hmade
      exact (hc _).bind fun _ hc => (hp _).bind fun _ hp => (hs mask).bind fun _ hs =>
        hR.code h (.aggregate hc hp hs)
    | correlated =>
      obtain ⟨hc, hp, hs⟩ := hmade
      exact (hc _).bind fun _ hc => (hp _).bind fun _ hp => (hs mask).bind fun _ hs =>
        hR.code h (.correlated hc hp hs)
    | kernel =>
      refine (Ensures.require _ rfl).bind fun i hi => (hmade.2 mask).bind fun _ hs => ?_
      exact (Code.ensures_kernelAt hi hs).imp fun _ => hR.code h
    | covering =>
      exact (hmade.1 _).bind fun _ hc => (hmade.2 mask).bind fun _ hs => hR.code h (.covering hc hs)

/-- Dropping conditions that always hold renews if the base may take the place of a filter. -/
theorem Renewal.Joins.tidy (hR : R.Joins)
    (hfiltered : ∀ {m : Mark} {b b' : Space} {f : Code}, R.space b b' → R.space (.filtered m b f) b')
    (htrue : ∀ {c c' : Code}, R.given (.code c) → R.code c c' → Passes c'.isTrue) : Finish.tidy.Renews R where
  space h hj := by
    cases hj with
    | filtered hb hc =>
      refine (htrue (R.core h).2 hc).bind fun always => ?_
      cases always with
      | true => exact hfiltered hb
      | false => exact hR.space h (.filtered hb hc)
    | _ => exact hR.space h (by constructor <;> assumption)
  code h hj := hR.code h hj

end Walks

end NavQuery
