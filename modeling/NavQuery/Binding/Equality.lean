import NavQuery.Binding

/-!
Bindings that are shared in memory are recognised at once, and bases are compared before the rest.
-/

namespace NavQuery.Binding

/-- A comparison that is left out for a binding that is shared in memory or of another constructor. -/
@[inline] def near {a b : Binding} (compare : b.ctorIdx = a.ctorIdx → Decidable (a = b)) :
    Decidable (a = b) :=
  withPtrEqDecEq a b fun _ =>
    if h : b.ctorIdx = a.ctorIdx then compare h else isFalse fun e => h (e ▸ rfl)

mutual

def decideEq : (a b : Binding) → b.ctorIdx = a.ctorIdx → Decidable (a = b)
  | root l, z, h => root.elim z h fun l' => byParts (root.injEq ..) (decEq l l')
  | home l b, z, h => home.elim z h fun l' b' =>
    byParts (home.injEq ..) (andThen (decEq l l') (near (decideEq b b')))
  | table l b t, z, h => table.elim z h fun l' b' t' =>
    byParts (table.injEq ..) (andThen (decEq l l') (andThen (near (decideEq b b')) (decEq t t')))
  | attach l b j, z, h => attach.elim z h fun l' b' j' =>
    byParts (attach.injEq ..) (andThen (decEq l l') (andThen (near (decideEq b b')) (decEq j j')))
  | column l b c k, z, h => column.elim z h fun l' b' c' k' =>
    byParts (column.injEq ..) (andThen (decEq l l') (andThen (near (decideEq b b'))
      (andThen (decEq c c') (later (decideEqLink k k')))))
  | quotient l b s ks, z, h => quotient.elim z h fun l' b' s' ks' =>
    byParts (quotient.injEq ..) (andThen (decEq l l') (andThen (near (decideEq b b'))
      (andThen (near (decideEq s s')) (later (decideEqAll ks ks')))))
  | kernel l b i, z, h => kernel.elim z h fun l' b' i' =>
    byParts (kernel.injEq ..) (andThen (decEq l l') (andThen (near (decideEq b b')) (decEq i i')))
  | complement l b, z, h => complement.elim z h fun l' b' =>
    byParts (complement.injEq ..) (andThen (decEq l l') (near (decideEq b b')))
  | cover l b s, z, h => cover.elim z h fun l' b' s' =>
    byParts (cover.injEq ..) (andThen (decEq l l') (andThen (near (decideEq b b')) (near (decideEq s s'))))
  | fork l b ks, z, h => fork.elim z h fun l' b' ks' =>
    byParts (fork.injEq ..) (andThen (decEq l l') (andThen (near (decideEq b b')) (later (decideEqAll ks ks'))))
  | link l b s is, z, h => link.elim z h fun l' b' s' is' =>
    byParts (link.injEq ..) (andThen (decEq l l') (andThen (near (decideEq b b'))
      (andThen (near (decideEq s s')) (later (decideEqPairs is is')))))
  | sieve l b f, z, h => sieve.elim z h fun l' b' f' =>
    byParts (sieve.injEq ..) (andThen (decEq l l') (andThen (near (decideEq b b')) (near (decideEq f f'))))
  | sort l b os m n, z, h => sort.elim z h fun l' b' os' m' n' =>
    byParts (sort.injEq ..) (andThen (decEq l l') (andThen (near (decideEq b b'))
      (andThen (later (decideEqAll os os')) (andThen (decEq m m') (decEq n n')))))
  | rescoping l b s, z, h => rescoping.elim z h fun l' b' s' =>
    byParts (rescoping.injEq ..) (andThen (decEq l l')
      (andThen (near (decideEq b b')) (near (decideEq s s'))))
  | selection l b es, z, h => selection.elim z h fun l' b' es' =>
    byParts (selection.injEq ..) (andThen (decEq l l') (andThen (near (decideEq b b')) (later (decideEqAll es es'))))
  | direction l b d, z, h => direction.elim z h fun l' b' d' =>
    byParts (direction.injEq ..) (andThen (decEq l l') (andThen (near (decideEq b b')) (decEq d d')))
  | literal l v, z, h => literal.elim z h fun l' v' =>
    byParts (literal.injEq ..) (andThen (decEq l l') (decEq v v'))
  | parameter l x, z, h => parameter.elim z h fun l' x' =>
    byParts (parameter.injEq ..) (andThen (decEq l l') (decEq x x'))
  | cast l b, z, h => cast.elim z h fun l' b' =>
    byParts (cast.injEq ..) (andThen (decEq l l') (near (decideEq b b')))
  | formula l b f as, z, h => formula.elim z h fun l' b' f' as' =>
    byParts (formula.injEq ..) (andThen (decEq l l') (andThen (near (decideEq b b'))
      (andThen (decEq f f') (later (decideEqAll as as')))))
  | ambiguous l b cs, z, h => ambiguous.elim z h fun l' b' cs' =>
    byParts (ambiguous.injEq ..) (andThen (decEq l l') (andThen (near (decideEq b b')) (later (decideEqAll cs cs'))))
  | collect l b s, z, h => collect.elim z h fun l' b' s' =>
    byParts (collect.injEq ..) (andThen (decEq l l') (andThen (near (decideEq b b')) (near (decideEq s s'))))
termination_by structural b => b

def decideEqAll : (as bs : List Binding) → Unit → Decidable (as = bs)
  | [], [], _ => isTrue rfl
  | [], _ :: _, _ | _ :: _, [], _ => isFalse nofun
  | a :: as, b :: bs, _ => byParts (List.cons.injEq ..) (andThen (near (decideEq a b)) (later (decideEqAll as bs)))
termination_by structural bs => bs

def decideEqLink : (a b : Option Binding) → Unit → Decidable (a = b)
  | none, none, _ => isTrue rfl
  | none, some _, _ | some _, none, _ => isFalse nofun
  | some a, some b, _ => byParts (Option.some.injEq ..) (near (decideEq a b))
termination_by structural b => b

def decideEqPairs : (ps qs : List (Binding × Binding)) → Unit → Decidable (ps = qs)
  | [], [], _ => isTrue rfl
  | [], _ :: _, _ | _ :: _, [], _ => isFalse nofun
  | p :: ps, q :: qs, _ => byParts (List.cons.injEq ..) (andThen (decideEqPair p q) (later (decideEqPairs ps qs)))
termination_by structural ps => ps

def decideEqPair : (p q : Binding × Binding) → Decidable (p = q)
  | (a, b), (a', b') =>
    byParts (Prod.mk.injEq ..) (andThen (near (decideEq a a')) (near (decideEq b b')))
termination_by structural p => p

end

instance : DecidableEq Binding := fun a b => near (decideEq a b)

/-- The bindings of a query mostly have marks of their own. -/
instance : Hashable Binding := ⟨fun b => hash b.mark.range⟩

end NavQuery.Binding
