/-!
Trees are equal if they are of one constructor and their parts are equal, compared from left to right up
to the first difference.
-/

namespace NavQuery

@[macro_inline] def andThen {p q : Prop} (d : Decidable p) (e : Decidable q) : Decidable (p ∧ q) :=
  match d with
  | isTrue hp => @decidable_of_iff _ q (by simp [hp]) e
  | isFalse hp => isFalse fun h => hp h.1

@[macro_inline] def byParts {p q : Prop} (h : p = q) (d : Decidable q) : Decidable p :=
  @decidable_of_iff p q (Iff.of_eq h.symm) d

/-- A comparison that is made only when its turn comes. -/
@[inline] def later {p : Prop} (compare : Unit → Decidable p) : Decidable p := compare ()

/-- A comparison of images that is left out for what is shared in memory. -/
@[inline] def unlessShared {α β : Type} (f : α → β) {a b : α} (compare : Unit → Decidable (f a = f b)) :
    Decidable (f a = f b) :=
  decidable_of_iff
    (withPtrEq a b (fun _ => @decide _ (compare ())) fun h => @decide_eq_true _ (compare ()) (h ▸ rfl))
    (@decide_eq_true_iff _ (compare ()))

end NavQuery
