import NavQuery.Catalog.Join
import NavQuery.Expr
import NavQuery.Mark
import NavQuery.Operator
import NavQuery.Value

/-!
A binding is a query expression with its names resolved. Every binding has a domain, a title for display
and the mark of its expression.
-/

namespace NavQuery

structure Label where
  domain : Domain
  title : Text
  mark : Mark
deriving DecidableEq

inductive Binding
  /-- The single unit row that every query starts from. -/
  | root (label : Label)
  | home (label : Label) (base : Binding)
  | table (label : Label) (base : Binding) (table : Table)
  | attach (label : Label) (base : Binding) (join : Join)
  /-- A column, with the link it stands for if it is a foreign key by itself. -/
  | column (label : Label) (base : Binding) (column : Column) (link : Option Binding)
  | quotient (label : Label) (base seed : Binding) (kernels : List Binding)
  | kernel (label : Label) (base : Binding) (index : Nat)
  | complement (label : Label) (base : Binding)
  | cover (label : Label) (base seed : Binding)
  | fork (label : Label) (base : Binding) (kernels : List Binding)
  | link (label : Label) (base seed : Binding) (images : List (Binding × Binding))
  | sieve (label : Label) (base filter : Binding)
  | sort (label : Label) (base : Binding) (orders : List Binding) (limit offset : Option Int)
  | rescoping (label : Label) (operand scope : Binding)
  | selection (label : Label) (base : Binding) (elements : List Binding)
  | direction (label : Label) (operand : Binding) (direction : Direction)
  | literal (label : Label) (value : Value)
  | parameter (label : Label) (name : Text)
  | cast (label : Label) (operand : Binding)
  | formula (label : Label) (scope : Binding) (op : Operator) (arguments : List Binding)
  | ambiguous (label : Label) (base : Binding) (candidates : List Binding)
  | collect (label : Label) (base seed : Binding)

namespace Binding

def label : Binding → Label
  | root l | home l _ | table l _ _ | attach l _ _ | column l _ _ _ | quotient l _ _ _ | kernel l _ _
  | complement l _ | cover l _ _ | fork l _ _ | link l _ _ _ | sieve l _ _ | sort l _ _ _ _
  | rescoping l _ _ | selection l _ _ | direction l _ _ | literal l _ | parameter l _ | cast l _
  | formula l _ _ _ | ambiguous l _ _ | collect l _ _ => l

def domain (b : Binding) : Domain := b.label.domain

def title (b : Binding) : Text := b.label.title

def mark (b : Binding) : Mark := b.label.mark

def withLabel (l : Label) : Binding → Binding
  | root _ => root l
  | home _ b => home l b
  | table _ b t => table l b t
  | attach _ b j => attach l b j
  | column _ b c k => column l b c k
  | quotient _ b s ks => quotient l b s ks
  | kernel _ b i => kernel l b i
  | complement _ b => complement l b
  | cover _ b s => cover l b s
  | fork _ b ks => fork l b ks
  | link _ b s is => link l b s is
  | sieve _ b f => sieve l b f
  | sort _ b os m n => sort l b os m n
  | rescoping _ o s => rescoping l o s
  | selection _ b es => selection l b es
  | direction _ o d => direction l o d
  | literal _ v => literal l v
  | parameter _ n => parameter l n
  | cast _ o => cast l o
  | formula _ s f as => formula l s f as
  | ambiguous _ b cs => ambiguous l b cs
  | collect _ b s => collect l b s

def withTitle (b : Binding) (title : Text) : Binding := b.withLabel { b.label with title }

def isFlow (b : Binding) : Bool :=
  match b.domain with
  | .entity _ => true
  | _ => false

def linked? : Binding → Option Binding
  | column _ _ _ target => target
  | _ => none

def selectionBase? : Binding → Option Binding
  | selection _ base _ => some base
  | _ => none

def belowSelection (b : Binding) : Binding := b.selectionBase?.getD b

def isRoot : Binding → Bool
  | root _ => true
  | _ => false

def inDomain (b : Binding) (domain : Domain) : Binding :=
  if b.domain = domain then b else .cast ⟨domain, b.title, b.mark⟩ b

def settled (b : Binding) : Binding := if b.domain.isUntyped then b.inDomain .text else b

end Binding

end NavQuery
