import NavQuery.Binding

/-!
An indented line for each binding, with the role that it has in the binding above.
-/

namespace NavQuery.Binding

def kindName : Binding → Text
  | root _ => "Root"
  | home _ _ => "Home"
  | table _ _ _ => "Table"
  | attach _ _ _ => "Attach"
  | column _ _ _ _ => "Column"
  | quotient _ _ _ _ => "Quotient"
  | kernel _ _ _ => "Kernel"
  | complement _ _ => "Complement"
  | cover _ _ _ => "Cover"
  | fork _ _ _ => "Fork"
  | link _ _ _ _ => "Link"
  | sieve _ _ _ => "Sieve"
  | sort _ _ _ _ _ => "Sort"
  | rescoping _ _ _ => "Rescoping"
  | selection _ _ _ => "Selection"
  | direction _ _ _ => "Direction"
  | literal _ _ => "Literal"
  | parameter _ _ => "Parameter"
  | cast _ _ => "Cast"
  | formula _ _ _ _ => "Formula"
  | ambiguous _ _ _ => "Ambiguous"
  | collect _ _ _ => "Collect"

def renderCount (word : Text) : Option Int → Text
  | none => []
  | some n => word ++ Text.ofInt n

def details : Binding → Text
  | formula _ _ op _ => " [" ++ op.render ++ "]"
  | kernel _ _ index => " #" ++ Text.ofNat index
  | direction _ _ d => if d.isDescending then " desc" else " asc"
  | sort _ _ _ limit offset => renderCount " limit " limit ++ renderCount " offset " offset
  | _ => []

def renderRole (depth : Nat) (role : Text) : Text :=
  Text.blanks (2 * depth) ++ if role.isEmpty then [] else role ++ Text.ofString ": "

def renderLine (depth : Nat) (role : Text) (b : Binding) : Text :=
  let title : Text := if b.title.isEmpty then [] else " '" ++ b.title ++ "'"
  let domain : Text := if b.domain = .unknown then [] else " : " ++ b.domain.render
  renderRole depth role ++ b.kindName ++ title ++ domain ++ b.details ++ "\n"

def unlessRoot (base : Binding) (lines : Text) : Text := if base.isRoot then [] else lines

mutual

def renderAt (depth : Nat) (role : Text) : Binding → Text
  | root l => renderLine depth role (root l)
  | home l base =>
    renderLine depth role (home l base) ++
      unlessRoot base (renderAt (depth + 1) "base" base)
  | table l base t =>
    renderLine depth role (table l base t) ++
      unlessRoot base (renderAt (depth + 1) "base" base)
  | attach l base j =>
    renderLine depth role (attach l base j) ++
      unlessRoot base (renderAt (depth + 1) "base" base)
  | column l base c k =>
    renderLine depth role (column l base c k) ++
      unlessRoot base (renderAt (depth + 1) "base" base) ++
      renderLink (depth + 1) k
  | quotient l base seed kernels =>
    renderLine depth role (quotient l base seed kernels) ++
      unlessRoot base (renderAt (depth + 1) "base" base) ++
      renderAt (depth + 1) "seed" seed ++ renderAll (depth + 1) kernels
  | kernel l base i =>
    renderLine depth role (kernel l base i) ++
      unlessRoot base (renderAt (depth + 1) "base" base)
  | complement l base =>
    renderLine depth role (complement l base) ++
      unlessRoot base (renderAt (depth + 1) "base" base)
  | cover l base seed =>
    renderLine depth role (cover l base seed) ++
      unlessRoot base (renderAt (depth + 1) "base" base) ++
      renderAt (depth + 1) "seed" seed
  | fork l base kernels =>
    renderLine depth role (fork l base kernels) ++
      unlessRoot base (renderAt (depth + 1) "base" base) ++
      renderAll (depth + 1) kernels
  | link l base seed images =>
    renderLine depth role (link l base seed images) ++
      unlessRoot base (renderAt (depth + 1) "base" base) ++
      renderAt (depth + 1) "seed" seed ++ renderImages (depth + 1) images
  | sieve l base filter =>
    renderLine depth role (sieve l base filter) ++
      unlessRoot base (renderAt (depth + 1) "base" base) ++
      renderAt (depth + 1) "filter" filter
  | sort l base orders limit offset =>
    renderLine depth role (sort l base orders limit offset) ++
      unlessRoot base (renderAt (depth + 1) "base" base) ++
      renderAll (depth + 1) orders
  | rescoping l operand scope =>
    renderLine depth role (rescoping l operand scope) ++
      unlessRoot operand (renderAt (depth + 1) "base" operand) ++
      renderAt (depth + 1) "scope" scope
  | selection l base elements =>
    renderLine depth role (selection l base elements) ++
      unlessRoot base (renderAt (depth + 1) "base" base) ++
      renderAll (depth + 1) elements
  | direction l operand d =>
    renderLine depth role (direction l operand d) ++
      unlessRoot operand (renderAt (depth + 1) "base" operand)
  | literal l v => renderLine depth role (literal l v)
  | parameter l n => renderLine depth role (parameter l n)
  | cast l operand =>
    renderLine depth role (cast l operand) ++
      unlessRoot operand (renderAt (depth + 1) "base" operand)
  | formula l scope op arguments =>
    renderLine depth role (formula l scope op arguments) ++
      unlessRoot scope (renderAt (depth + 1) "base" scope) ++
      renderAll (depth + 1) arguments
  | ambiguous l base candidates =>
    renderLine depth role (ambiguous l base candidates) ++
      unlessRoot base (renderAt (depth + 1) "base" base) ++
      renderAll (depth + 1) candidates
  | collect l base seed =>
    renderLine depth role (collect l base seed) ++
      unlessRoot base (renderAt (depth + 1) "base" base) ++
      renderAt (depth + 1) "seed" seed

def renderLink (depth : Nat) : Option Binding → Text
  | none => []
  | some b => renderAt depth "link" b

def renderAll (depth : Nat) : List Binding → Text
  | [] => []
  | b :: bs => renderAt depth [] b ++ renderAll depth bs

def renderImages (depth : Nat) : List (Binding × Binding) → Text
  | [] => []
  | i :: is => renderImage depth i ++ renderImages depth is

def renderImage (depth : Nat) : Binding × Binding → Text
  | (a, b) => renderAt depth "origin" a ++ renderAt depth "target" b

end

def render (b : Binding) : Text := b.renderAt 0 []

end NavQuery.Binding
