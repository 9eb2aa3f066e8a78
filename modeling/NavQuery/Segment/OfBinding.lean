import NavQuery.Binding.Equality
import NavQuery.Segment
import NavQuery.Segment.Denotation

/-!
The spaces of flows are wanted many times, so each is found once, and the spaces and codes of a segment
share it.
-/

namespace NavQuery

namespace Binding

mutual

def toSpace (b : Binding) : Recall relate (ValueOf relate b) :=
  Recall.value b fun () =>
    match b with
    | root _ | literal _ _ | parameter _ _ | ambiguous _ _ _ => pure ⟨_, rfl⟩
    | home l b => .bind (fun b' => pure (.scalar l.mark b')) b.toSpace
    | table l b t => .bind (fun b' => (Space.table l.mark b' t).checked) b.toSpace
    | attach l b j => .bind (fun b' => (Space.fiber l.mark b' j).checked) b.toSpace
    | column _ b _ k => .map₂ (fun k' b' => k'.getD b') (toLink k) b.toSpace
    | quotient l b s ks =>
      .map₃ (fun b' s' ks' => do quotientOf l.mark s.mark (← b') (← s') ks')
        b.toSpace s.toSpace (toCodes ks)
    | kernel _ b _ | selection _ b _ | collect _ b _ | rescoping _ b _ | direction _ b _ | cast _ b
    | formula _ b _ _ => b.toSpace
    | complement l b => .bind (fun b' => (Space.complement l.mark b' []).checked) b.toSpace
    | cover l b s => .bind₂ (fun b' s' => (Space.moniker l.mark b' s' []).checked) b.toSpace s.toSpace
    | fork l b ks => .bind₂ (fun b' ks' => pure (.forked l.mark b' b' ks' [])) b.toSpace (toCodes ks)
    | link l b s is =>
      .bind₃ (fun b' s' is' => (Space.linked l.mark b' s' is' []).checked) b.toSpace s.toSpace (toImages is)
    | sieve l b f => .bind₂ (fun b' f' => pure (.filtered l.mark b' f')) b.toSpace f.toCode
    | sort l b os limit offset =>
      .bind₂ (fun b' os' => pure (.ordered l.mark b' (os'.zip (os.map sortDirection)) limit offset))
        b.toSpace (toCodes os)

def toLink (k : Option Binding) : Recall relate (ValueOf relateLink k) :=
  match k with
  | none => pure ⟨_, rfl⟩
  | some k => .map some k.toSpace

def toCode (b : Binding) : Recall relate (ValueOf encode b) :=
  match b with
  | column l b c _ => .bind (fun b' => pure (.ofColumn c b' l.mark)) b.toSpace
  | kernel l b i => .bind (fun b' => kernelUnit l.mark b' i) b.toSpace
  | cast l o => .map₂ (Code.convert l.mark o.domain l.domain) o.toCode o.toSpace
  | rescoping l o s => .bind₂ (fun o' s' => pure (.single l.mark o' s' [])) o.toCode s.toSpace
  | formula l s f as =>
    .map₂ (fun as' s' => do Code.ofFormula l.mark (as.head?.elim .nowhere mark) l.domain f (← as') s')
      (toCodes as) s.toSpace
  | direction _ o _ => o.toCode
  | b => pure ⟨encode b, rfl⟩

def toCodes (bs : List Binding) : Recall relate (ValueOf encodeAll bs) :=
  match bs with
  | [] => pure ⟨_, rfl⟩
  | b :: bs => .bind₂ (fun b' bs' => pure (b' :: bs')) b.toCode (toCodes bs)

def toImages (is : List (Binding × Binding)) : Recall relate (ValueOf encodeImages is) :=
  match is with
  | [] => pure ⟨_, rfl⟩
  | i :: is => .bind₂ (fun i' is' => pure (i' :: is')) (toImage i) (toImages is)

def toImage (i : Binding × Binding) : Recall relate (ValueOf encodeImage i) :=
  match i with
  | (a, b) => .bind₂ (fun a' b' => pure (a', b')) a.toCode b.toCode

end

def space (b : Binding) : Result Space := b.toSpace.run.1

theorem space_eq (b : Binding) : b.space = b.relate := b.toSpace.run.2

def code (b : Binding) : Result Code := b.toCode.run.1

theorem code_eq (b : Binding) : b.code = b.encode := b.toCode.run.2

end Binding

namespace Segment

def presentOnly (mark : Mark) (value : Code) (s : Space) : Space :=
  match value with
  | .literal _ _ v =>
    if v.isNull then .filtered mark s (.literal mark .boolean (.boolean false)) else s
  | _ => .filtered mark s (Code.notNull mark value)

inductive Content
  | selection (space : Result Space) (codes : Result (List Code))
  | value (code : Result Code)

namespace Content

def elements? : Binding → Option (List Binding)
  | .selection _ _ es => some es
  | _ => none

def ofBinding (b : Binding) : Content :=
  match elements? b with
  | some es => .selection b.relate (Binding.encodeAll es)
  | none => .value b.encode

def toContent (b : Binding) : Recall Binding.relate (ValueOf ofBinding b) :=
  match h : elements? b with
  | some es => .map₂ .selection b.toSpace (Binding.toCodes es) (by rw [ofBinding, h])
  | none => .map .value b.toCode (by rw [ofBinding, h])

end Content

def spaceAndCodes (mark : Mark) (root : Space) : Content → Result (Space × List Code × Option Code)
  | .selection space codes => do return (← space, ← codes, none)
  | .value code => do
    let value ← code
    match Space.maximal (value.units.filterMap (·.space?)) with
    | [] => return (root, [value], some value)
    | [s] => return (s, [value], some value)
    | _ => .error (.query .ambiguousSegment mark)

def ofContent (mark : Mark) (root : Space) (content : Content) : Result Segment := do
  let (space, codes, value) ← spaceAndCodes mark root content
  if !space.spans root then .error (.query .descendantSegment mark)
  else
    let space := value.elim space fun v => presentOnly mark v space
    match (codes.flatMap (·.units)).find? fun u => !u.space?.all space.spans with
    | some u => .error (.query .singularElement u.mark)
    | none => return ⟨root, space, codes, mark⟩

def ofBinding : Binding → Result Segment
  | .collect l base seed =>
    Recall.run do
      let root ← base.toSpace
      let content ← Content.toContent seed
      return do ofContent l.mark (← root.1) content.1
  | b => .error (.query .flowExpected b.mark)

theorem ofBinding_collect (l : Label) (base seed : Binding) :
    ofBinding (.collect l base seed) =
      (do ofContent l.mark (← base.relate) (Content.ofBinding seed)) := by
  simp only [ofBinding, ValueOf.eq]
  rfl

end Segment

end NavQuery
