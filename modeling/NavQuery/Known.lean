import Std.Data.HashMap

/-!
A function of spaces or bindings meets the same parts again and again, so the values found are kept. Each
comes with the proof that it is the value of the function, so what is kept never shows in the result.
-/

namespace NavQuery

abbrev ValueOf {α β : Type} (f : α → β) (a : α) := { b : β // b = f a }

abbrev Known {α β : Type} (f : α → β) := Std.HashMap UInt64 (List ((a : α) × ValueOf f a))

abbrev Recall {α β : Type} (f : α → β) := StateM (Known f)

variable {α β γ : Type} {f : α → β}

theorem ValueOf.eq {a : α} (b : ValueOf f a) : b.1 = f a := b.2

namespace Known

def find? [DecidableEq α] (a : α) : List ((a : α) × ValueOf f a) → Option (ValueOf f a)
  | [] => none
  | ⟨k, b⟩ :: entries => if h : k = a then some ⟨b.1, h ▸ b.2⟩ else find? a entries

def insert (known : Known f) (hash : UInt64) (a : α) (b : ValueOf f a) : Known f :=
  known.alter hash fun entries => some (⟨a, b⟩ :: entries.getD [])

end Known

namespace Recall

@[specialize] def value [DecidableEq α] [Hashable α] (a : α)
    (compute : Unit → Recall f (ValueOf f a)) : Recall f (ValueOf f a) := fun known =>
  let h := hash a
  match Known.find? a (known.getD h []) with
  | some b => (b, known)
  | none =>
    let (b, known) := compute () known
    (b, Known.insert known h a b)

def run (compute : Recall f γ) : γ := (compute ∅).1

section Combined

variable {δ ε ζ : Type} {a : γ} {b : δ} {c : ε} {z : ζ}

/-- A value that is computed from known ones. -/
@[inline] def map (g : γ → ζ) (x : Recall f { v // v = a }) (h : z = g a := by rfl) :
    Recall f { v // v = z } := do
  let x ← x
  return ⟨g x.1, by rw [x.2, h]⟩

@[inline] def map₂ (g : γ → δ → ζ) (x : Recall f { v // v = a }) (y : Recall f { v // v = b })
    (h : z = g a b := by rfl) : Recall f { v // v = z } := do
  let x ← x
  let y ← y
  return ⟨g x.1 y.1, by rw [x.2, y.2, h]⟩

@[inline] def map₃ (g : γ → δ → ε → ζ) (x : Recall f { v // v = a }) (y : Recall f { v // v = b })
    (w : Recall f { v // v = c }) (h : z = g a b c := by rfl) : Recall f { v // v = z } := do
  let x ← x
  let y ← y
  let w ← w
  return ⟨g x.1 y.1 w.1, by rw [x.2, y.2, w.2, h]⟩

variable {m : Type → Type} [Monad m] {a : m γ} {b : m δ} {c : m ε} {z : m ζ}

@[inline] def bind (g : γ → m ζ) (x : Recall f { v // v = a }) (h : z = a >>= g := by rfl) :
    Recall f { v // v = z } :=
  map (· >>= g) x h

@[inline] def bind₂ (g : γ → δ → m ζ) (x : Recall f { v // v = a }) (y : Recall f { v // v = b })
    (h : z = (do g (← a) (← b)) := by rfl) : Recall f { v // v = z } :=
  map₂ (fun a b => do g (← a) (← b)) x y h

@[inline] def bind₃ (g : γ → δ → ε → m ζ) (x : Recall f { v // v = a }) (y : Recall f { v // v = b })
    (w : Recall f { v // v = c }) (h : z = (do g (← a) (← b) (← c)) := by rfl) : Recall f { v // v = z } :=
  map₃ (fun a b c => do g (← a) (← b) (← c)) x y w h

end Combined

end Recall

end NavQuery
