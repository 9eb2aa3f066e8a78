import NavQuery.Space.Unmarked

/-!
Spaces and codes are the same when they are built alike, marks and companions aside. Two spaces resemble
each other when their last steps are alike, whatever their bases. What is shared in memory is recognised
at once, and bases are compared before codes.
-/

namespace NavQuery

/-- What a comparison sees of a tree: all of it, or all but marks and companions. -/
def seen {α : Type} (unmarked : α → α) : Bool → α → α
  | true, a => a
  | false, a => unmarked a

section Comparison

attribute [local simp] seen Space.unmarked Code.unmarked Code.unmarkedAll Code.unmarkedImages
  Code.unmarkedImage Code.unmarkedOrder Code.unmarkedItem

variable {k : Bool}

theorem Space.ctorIdx_seen (s : Space) : (seen Space.unmarked k s).ctorIdx = s.ctorIdx := by
  cases k <;> cases s <;> rfl

theorem Code.ctorIdx_seen (c : Code) : (seen Code.unmarked k c).ctorIdx = c.ctorIdx := by
  cases k <;> cases c <;> rfl

@[inline] def nearSpace {a b : Space}
    (compare : b.ctorIdx = a.ctorIdx → Decidable (seen Space.unmarked k a = seen Space.unmarked k b)) :
    Decidable (seen Space.unmarked k a = seen Space.unmarked k b) :=
  unlessShared (seen Space.unmarked k) fun _ => if h : b.ctorIdx = a.ctorIdx then compare h
    else isFalse fun e => h (by rw [← a.ctorIdx_seen, e, b.ctorIdx_seen])

@[inline] def nearCode {a b : Code}
    (compare : b.ctorIdx = a.ctorIdx → Decidable (seen Code.unmarked k a = seen Code.unmarked k b)) :
    Decidable (seen Code.unmarked k a = seen Code.unmarked k b) :=
  unlessShared (seen Code.unmarked k) fun _ => if h : b.ctorIdx = a.ctorIdx then compare h
    else isFalse fun e => h (by rw [← a.ctorIdx_seen, e, b.ctorIdx_seen])

variable (k)

@[macro_inline] def ifSeen {p : Prop} (d : Decidable p) : Decidable (k → p) :=
  match k with
  | true => decidable_of_iff p (by simp)
  | false => isTrue nofun

@[macro_inline] def byMark {p q r : Prop} (h : p = ((k → q) ∧ r)) (d : Decidable q) (e : Decidable r) :
    Decidable p :=
  byParts h (andThen (ifSeen k d) e)

def Value.decideSeen (v w : Value) : Decidable (seen Value.normal k v = seen Value.normal k w) :=
  match k with
  | true => decEq v w
  | false => decidable_of_iff _ (v.alike_iff_normal w)

mutual

def decideSpace : (a b : Space) → b.ctorIdx = a.ctorIdx →
    Decidable (seen Space.unmarked k a = seen Space.unmarked k b)
  | .root m, z, h => Space.root.elim z h fun m' => byParts (by cases h : k <;> simp) (ifSeen k (decEq m m'))
  | .scalar m b, z, h => Space.scalar.elim z h fun m' b' =>
    byMark k (by cases h : k <;> simp) (decEq m m') (nearSpace (decideSpace b b'))
  | .table m b t, z, h => Space.table.elim z h fun m' b' t' =>
    byMark k (by cases h : k <;> simp) (decEq m m') (andThen (nearSpace (decideSpace b b')) (decEq t t'))
  | .fiber m b j, z, h => Space.fiber.elim z h fun m' b' j' =>
    byMark k (by cases h : k <;> simp) (decEq m m') (andThen (nearSpace (decideSpace b b')) (decEq j j'))
  | .quotient m b s ks cs, z, h => Space.quotient.elim z h fun m' b' s' ks' cs' =>
    byMark k (by cases h : k <;> simp) (decEq m m') (andThen (nearSpace (decideSpace b b')) (andThen (nearSpace (decideSpace s s'))
      (andThen (later (decideCodes ks ks')) (ifSeen k (later (decideCodes cs cs'))))))
  | .complement m b cs, z, h => Space.complement.elim z h fun m' b' cs' =>
    byMark k (by cases h : k <;> simp) (decEq m m') (andThen (nearSpace (decideSpace b b')) (ifSeen k (later (decideCodes cs cs'))))
  | .moniker m b s cs, z, h => Space.moniker.elim z h fun m' b' s' cs' =>
    byMark k (by cases h : k <;> simp) (decEq m m') (andThen (nearSpace (decideSpace b b'))
      (andThen (nearSpace (decideSpace s s')) (ifSeen k (later (decideCodes cs cs')))))
  | .forked m b s ks cs, z, h => Space.forked.elim z h fun m' b' s' ks' cs' =>
    byMark k (by cases h : k <;> simp) (decEq m m') (andThen (nearSpace (decideSpace b b')) (andThen (nearSpace (decideSpace s s'))
      (andThen (later (decideCodes ks ks')) (ifSeen k (later (decideCodes cs cs'))))))
  | .linked m b s is cs, z, h => Space.linked.elim z h fun m' b' s' is' cs' =>
    byMark k (by cases h : k <;> simp) (decEq m m') (andThen (nearSpace (decideSpace b b')) (andThen (nearSpace (decideSpace s s'))
      (andThen (later (decideImages is is')) (ifSeen k (later (decideCodes cs cs'))))))
  | .filtered m b f, z, h => Space.filtered.elim z h fun m' b' f' =>
    byMark k (by cases h : k <;> simp) (decEq m m') (andThen (nearSpace (decideSpace b b')) (nearCode (decideCode f f')))
  | .ordered m b os l o, z, h => Space.ordered.elim z h fun m' b' os' l' o' =>
    byMark k (by cases h : k <;> simp) (decEq m m') (andThen (nearSpace (decideSpace b b')) (andThen (later (decideOrder os os'))
      (andThen (decEq l l') (decEq o o'))))
termination_by structural s => s

def decideCode : (a b : Code) → b.ctorIdx = a.ctorIdx →
    Decidable (seen Code.unmarked k a = seen Code.unmarked k b)
  | .missing, z, h => Code.missing.elim z h (isTrue rfl)
  | .literal m d v, z, h => Code.literal.elim z h fun m' d' v' =>
    byMark k (by cases h : k <;> simp) (decEq m m') (andThen (decEq d d') (Value.decideSeen k v v'))
  | .parameter m d x, z, h => Code.parameter.elim z h fun m' d' x' =>
    byMark k (by cases h : k <;> simp) (decEq m m') (andThen (decEq d d') (decEq x x'))
  | .cast m d c, z, h => Code.cast.elim z h fun m' d' c' =>
    byMark k (by cases h : k <;> simp) (decEq m m') (andThen (decEq d d') (nearCode (decideCode c c')))
  | .formula m d f as, z, h => Code.formula.elim z h fun m' d' f' as' =>
    byMark k (by cases h : k <;> simp) (decEq m m') (andThen (decEq d d')
      (andThen (decEq f f') (later (decideCodes as as'))))
  | .correlation m c, z, h => Code.correlation.elim z h fun m' c' =>
    byMark k (by cases h : k <;> simp) (decEq m m') (nearCode (decideCode c c'))
  | .column m d x s, z, h => Code.column.elim z h fun m' d' x' s' =>
    byMark k (by cases h : k <;> simp) (decEq m m') (andThen (decEq d d')
      (andThen (decEq x x') (nearSpace (decideSpace s s'))))
  | .single m c s cs, z, h => Code.single.elim z h fun m' c' s' cs' =>
    byMark k (by cases h : k <;> simp) (decEq m m') (andThen (nearCode (decideCode c c'))
      (andThen (nearSpace (decideSpace s s')) (ifSeen k (later (decideCodes cs cs')))))
  | .aggregate m c p s cs, z, h => Code.aggregate.elim z h fun m' c' p' s' cs' =>
    byMark k (by cases h : k <;> simp) (decEq m m') (andThen (nearCode (decideCode c c')) (andThen (nearSpace (decideSpace p p'))
      (andThen (nearSpace (decideSpace s s')) (ifSeen k (later (decideCodes cs cs'))))))
  | .correlated m c p s, z, h => Code.correlated.elim z h fun m' c' p' s' =>
    byMark k (by cases h : k <;> simp) (decEq m m') (andThen (nearCode (decideCode c c'))
      (andThen (nearSpace (decideSpace p p')) (nearSpace (decideSpace s s'))))
  | .kernel m c s, z, h => Code.kernel.elim z h fun m' c' s' =>
    byMark k (by cases h : k <;> simp) (decEq m m') (andThen (nearCode (decideCode c c')) (nearSpace (decideSpace s s')))
  | .covering m c s, z, h => Code.covering.elim z h fun m' c' s' =>
    byMark k (by cases h : k <;> simp) (decEq m m') (andThen (nearCode (decideCode c c')) (nearSpace (decideSpace s s')))
termination_by structural c => c

def decideCodes : (as bs : List Code) → Unit →
    Decidable (seen Code.unmarkedAll k as = seen Code.unmarkedAll k bs)
  | [], [], _ => isTrue rfl
  | [], _ :: _, _ | _ :: _, [], _ => isFalse (by cases h : k <;> simp)
  | a :: as, b :: bs, _ =>
    byParts (by cases h : k <;> simp) (andThen (nearCode (decideCode a b)) (later (decideCodes as bs)))
termination_by structural cs => cs

def decideImages : (is js : List (Code × Code)) → Unit →
    Decidable (seen Code.unmarkedImages k is = seen Code.unmarkedImages k js)
  | [], [], _ => isTrue rfl
  | [], _ :: _, _ | _ :: _, [], _ => isFalse (by cases h : k <;> simp)
  | i :: is, j :: js, _ =>
    byParts (by cases h : k <;> simp) (andThen (decideImage i j) (later (decideImages is js)))
termination_by structural is => is

def decideImage : (i j : Code × Code) →
    Decidable (seen Code.unmarkedImage k i = seen Code.unmarkedImage k j)
  | (a, b), (c, d) => byParts (by cases h : k <;> simp)
    (andThen (nearCode (decideCode a c)) (nearCode (decideCode b d)))
termination_by structural i => i

def decideOrder : (os ps : List (Code × Direction)) → Unit →
    Decidable (seen Code.unmarkedOrder k os = seen Code.unmarkedOrder k ps)
  | [], [], _ => isTrue rfl
  | [], _ :: _, _ | _ :: _, [], _ => isFalse (by cases h : k <;> simp)
  | o :: os, p :: ps, _ =>
    byParts (by cases h : k <;> simp) (andThen (decideItem o p) (later (decideOrder os ps)))
termination_by structural os => os

def decideItem : (o p : Code × Direction) →
    Decidable (seen Code.unmarkedItem k o = seen Code.unmarkedItem k p)
  | (a, d), (b, e) => byParts (by cases h : k <;> simp) (andThen (nearCode (decideCode a b)) (decEq d e))
termination_by structural o => o

end

end Comparison

instance : DecidableEq Space := fun a b => nearSpace (decideSpace true a b)

instance : DecidableEq Code := fun a b => nearCode (decideCode true a b)

instance (a b : Space) : Decidable (a.unmarked = b.unmarked) := nearSpace (decideSpace false a b)

instance (a b : Code) : Decidable (a.unmarked = b.unmarked) := nearCode (decideCode false a b)

instance (as bs : List Code) : Decidable (Code.unmarkedAll as = Code.unmarkedAll bs) :=
  decideCodes false as bs ()

instance (is js : List Image) : Decidable (Code.unmarkedImages is = Code.unmarkedImages js) :=
  decideImages false is js ()

instance (os ps : List OrderItem) : Decidable (Code.unmarkedOrder os = Code.unmarkedOrder ps) :=
  decideOrder false os ps ()

def Space.same (a b : Space) : Bool := a.unmarked = b.unmarked

def Code.same (a b : Code) : Bool := a.unmarked = b.unmarked

def Code.sameAll (as bs : List Code) : Bool := unmarkedAll as = unmarkedAll bs

def Code.sameImages (is js : List Image) : Bool := unmarkedImages is = unmarkedImages js

def Code.sameOrder (os ps : List OrderItem) : Bool := unmarkedOrder os = unmarkedOrder ps

/-- The steps of a query mostly have marks of their own. -/
instance : Hashable Space := ⟨fun s => hash s.mark.range⟩

instance : BEq Space := ⟨Space.same⟩

instance : BEq Code := ⟨Code.same⟩

namespace Space

def resembles : Space → Space → Bool
  | root _, root _ => true
  | scalar _ _, scalar _ _ => true
  | table _ _ t, table _ _ u => t == u
  | fiber _ _ j, fiber _ _ k => j == k
  | quotient _ _ s ks _, quotient _ _ t ls _ => s == t && Code.sameAll ks ls
  | complement _ _ _, complement _ _ _ => true
  | moniker _ _ s _, moniker _ _ t _ => s == t
  | forked _ _ s ks _, forked _ _ t ls _ => s == t && Code.sameAll ks ls
  | linked _ _ s is _, linked _ _ t js _ => s == t && Code.sameImages is js
  | filtered _ _ f, filtered _ _ g => f == g
  | ordered _ _ os l o, ordered _ _ ps m p => l == m && o == p && Code.sameOrder os ps
  | _, _ => false

def concludes (s t : Space) : Bool := s.ancestors.any (· == t)

end Space

namespace Code

def distinct (cs : List Code) : List Code :=
  cs.foldl (fun kept c => if kept.any (· == c) then kept else kept ++ [c]) []

mutual

/-- The units that a code is built from. A correlated value is not one of them: it belongs to the
enclosing rows. -/
def units : Code → List Code
  | missing | literal _ _ _ | parameter _ _ _ | correlation _ _ => []
  | cast _ _ c => units c
  | formula _ _ _ as => distinct (unitsOfAll as)
  | c => [c]
termination_by structural c => c

def unitsOfAll : List Code → List Code
  | [] => []
  | c :: cs => units c ++ unitsOfAll cs
termination_by structural cs => cs

end

end Code

end NavQuery
