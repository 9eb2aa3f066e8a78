import NavQuery.Space.Printer
import NavQuery.Space.Seam

/-!
A term is a tree of relational operations that produces the rows of a space. Its routes say which term of
the tree computes a unit, and its baseline is the first axis that the rows still show.
-/

namespace NavQuery

/-- Units with the tags of the terms that compute them, in the order in which they were added. -/
structure Routes where
  entries : List (Code × Nat)

namespace Routes

def empty : Routes := ⟨[]⟩

def find? (r : Routes) (unit : Code) : Option Nat := (r.entries.find? (·.1 == unit)).map (·.2)

def contains (r : Routes) (unit : Code) : Bool := r.entries.any (·.1 == unit)

def tag (r : Routes) (unit : Code) : Result Nat := require (r.find? unit) .routedUnit

def setEntry (unit : Code) (tag : Nat) : List (Code × Nat) → List (Code × Nat)
  | [] => [(unit, tag)]
  | e :: es => if e.1 == unit then (e.1, tag) :: es else e :: setEntry unit tag es

def set (r : Routes) (unit : Code) (tag : Nat) : Routes := ⟨setEntry unit tag r.entries⟩

def setAll (r : Routes) (units : List Code) (tag : Nat) : Routes :=
  units.foldl (fun r u => r.set u tag) r

def update (r other : Routes) : Routes := other.entries.foldl (fun r e => r.set e.1 e.2) r

def units (r : Routes) : List Code := r.entries.map (·.1)

end Routes

namespace Term

structure Head where
  tag : Nat
  space : Space
  baseline : Space
  routes : Routes

end Term

inductive Term
  | scalar (head : Term.Head)
  | table (head : Term.Head)
  | filter (head : Term.Head) (kid : Term) (condition : Code)
  /-- An outer join keeps the rows of its left operand. -/
  | join (head : Term.Head) (left right : Term) (joints : List Joint) (outer : Bool)
  /-- A correlated subquery beside the rows that it depends on. -/
  | embedding (head : Term.Head) (left right : Term) (correlations : List Code)
  | correlation (head : Term.Head) (kid : Term)
  | projection (head : Term.Head) (kid : Term) (kernels : List Code)
  | order (head : Term.Head) (kid : Term) (items : List OrderItem) (limit offset : Option Int)
  | wrapper (head : Term.Head) (kid : Term)
  | permanent (head : Term.Head) (kid : Term)
  | segment (head : Term.Head) (kid : Term) (codes : List Code)

namespace Term

def head : Term → Head
  | scalar h | table h | filter h _ _ | join h _ _ _ _ | embedding h _ _ _ | correlation h _
  | projection h _ _ | order h _ _ _ _ | wrapper h _ | permanent h _ | segment h _ _ => h

def tag (t : Term) : Nat := t.head.tag

def space (t : Term) : Space := t.head.space

def baseline (t : Term) : Space := t.head.baseline

def routes (t : Term) : Routes := t.head.routes

def backbone (t : Term) : Space := t.space.inflate

def kids : Term → List Term
  | scalar _ | table _ => []
  | filter _ k _ | correlation _ k | projection _ k _ | order _ k _ _ _ | wrapper _ k | permanent _ k
  | segment _ k _ => [k]
  | join _ l r _ _ | embedding _ l r _ => [l, r]

def isNullary (t : Term) : Bool := t.kids.isEmpty

def tags : Term → List Nat
  | scalar h | table h => [h.tag]
  | filter h k _ => h.tag :: tags k
  | join h l r _ _ | embedding h l r _ => h.tag :: (tags l ++ tags r)
  | correlation h k | projection h k _ | order h k _ _ _ | wrapper h k | permanent h k | segment h k _ =>
    h.tag :: tags k

def hasTag (n : Nat) : Term → Bool
  | scalar h | table h => n == h.tag
  | filter h k _ | correlation h k => n == h.tag || hasTag n k
  | join h l r _ _ | embedding h l r _ => n == h.tag || (hasTag n l || hasTag n r)
  | projection h k _ | order h k _ _ _ | wrapper h k | permanent h k | segment h k _ =>
    n == h.tag || hasTag n k

theorem hasTag_eq (n : Nat) (t : Term) : t.hasTag n = t.tags.contains n := by
  induction t <;> simp_all [hasTag, tags, Bool.beq_eq_decide_eq]

def offspring? (t : Term) (tag : Nat) : Option Nat := (t.kids.find? (·.hasTag tag)).map (·.tag)

def kindName : Term → Text
  | scalar _ => "Scalar"
  | table _ => "Table"
  | filter _ _ _ => "Filter"
  | join _ _ _ _ _ => "Join"
  | embedding _ _ _ _ => "Embedding"
  | correlation _ _ => "Correlation"
  | projection _ _ _ => "Projection"
  | order _ _ _ _ _ => "Order"
  | wrapper _ _ => "Wrapper"
  | permanent _ _ => "Permanent"
  | segment _ _ _ => "Segment"

def renderJoint (j : Joint) : Result Text := do
  return " " ++ (← j.left.render) ++ "=" ++ (← j.right.render)

def renderItem (i : OrderItem) : Result Text := do
  return " " ++ (← i.1.render) ++ i.2.symbol

def renderCount (word : Text) : Option Int → Text
  | none => []
  | some n => word ++ Text.ofInt n

def renderDetails : Term → Result Text
  | filter _ _ c => do return " ? " ++ (← c.render)
  | join _ _ _ js outer => do
    let word : Text := if outer then " left on" else " inner on"
    return word ++ Text.concat (← js.mapM renderJoint)
  | projection _ _ ks => do
    let kernels ← Code.renderAll ks
    return " ^" ++ Text.concat (kernels.map (Text.ofString " " ++ ·))
  | order _ _ items limit offset => do
    return Text.concat (← items.mapM renderItem) ++ renderCount " limit " limit ++
      renderCount " offset " offset
  | _ => pure []

def renderLine (depth : Nat) (t : Term) : Result Text := do
  return Text.blanks (2 * depth) ++ t.kindName ++ " #" ++ Text.ofNat t.tag ++ " " ++
    (← t.space.render) ++ (← t.renderDetails) ++ "\n"

def renderAt (depth : Nat) : Term → Result Text
  | scalar h => renderLine depth (scalar h)
  | table h => renderLine depth (table h)
  | filter h k c => do return (← renderLine depth (filter h k c)) ++ (← renderAt (depth + 1) k)
  | join h l r js o => do
    return (← renderLine depth (join h l r js o)) ++ (← renderAt (depth + 1) l) ++
      (← renderAt (depth + 1) r)
  | embedding h l r cs => do
    return (← renderLine depth (embedding h l r cs)) ++ (← renderAt (depth + 1) l) ++
      (← renderAt (depth + 1) r)
  | correlation h k => do return (← renderLine depth (correlation h k)) ++ (← renderAt (depth + 1) k)
  | projection h k ks => do
    return (← renderLine depth (projection h k ks)) ++ (← renderAt (depth + 1) k)
  | order h k is l o => do
    return (← renderLine depth (order h k is l o)) ++ (← renderAt (depth + 1) k)
  | wrapper h k => do return (← renderLine depth (wrapper h k)) ++ (← renderAt (depth + 1) k)
  | permanent h k => do return (← renderLine depth (permanent h k)) ++ (← renderAt (depth + 1) k)
  | segment h k cs => do return (← renderLine depth (segment h k cs)) ++ (← renderAt (depth + 1) k)

def render (t : Term) : Result Text := t.renderAt 0

end Term

end NavQuery
