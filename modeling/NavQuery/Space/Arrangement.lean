import NavQuery.Space.Weight

/-!
Rows have a strong order, which the sorts of a query ask for, and behind it a weak order by keys, which
makes the listing definite.
-/

namespace NavQuery

namespace Table

/-- The columns that tell the rows apart: the primary key, else the first unique key that is complete
and whose columns are never null. There may be none. -/
def identifyingColumns (t : Table) : List Column :=
  match t.primaryKey? with
  | some key => t.columnsAt key.columns
  | none =>
    match t.keys.find? fun key => !key.incomplete && (t.columnsAt key.columns).all (!·.nullable) with
    | some key => t.columnsAt key.columns
    | none => []

end Table

namespace Space

def tableItems (t : Table) (inflated : Space) (mark : Mark) : List OrderItem :=
  let key := t.identifyingColumns
  let columns := if key.isEmpty then t.columns else key
  columns.map fun c => (Code.ofColumn c inflated mark, .ascending)

def isGrounded (ground : Space) (c : Code) : Bool :=
  match ground.base? with
  | none => false
  | some above => c.units.all fun u => u.space?.all fun s => above.spans s

def coverItems (inflated ground : Space) (items : List OrderItem) : List OrderItem :=
  (items.filter fun i => !isGrounded ground i.1).map fun i => (Code.ofCovered i.1 inflated, i.2)

def distinctItems (items : List OrderItem) : List OrderItem :=
  items.foldl (fun kept i => if kept.any (·.1 == i.1) then kept else kept ++ [i]) []

def seedItems (weak : Bool) (space ground : Space) (items : List OrderItem) : List OrderItem :=
  if weak then coverItems space.inflate ground (distinctItems items) else []

def kernelItems (space : Space) (kernels : List Code) : List OrderItem :=
  kernels.map fun k => (Code.ofKernel k space.inflate, .ascending)

def rowItems (weak : Bool) (t : Table) (space : Space) (base : List OrderItem) : List OrderItem :=
  base ++ if weak then tableItems t space.inflate space.mark else []

def arrangeItems (strong weak : Bool) : Space → List OrderItem
  | root _ => []
  | scalar _ b | filtered _ b _ => arrangeItems strong weak b
  | table m b t => rowItems weak t (table m b t) (arrangeItems strong weak b)
  | fiber m b j =>
    rowItems (weak && !j.contracting) j.target (fiber m b j) (arrangeItems strong weak b)
  | quotient m b s ks cs =>
    arrangeItems strong weak b ++ if weak then kernelItems (quotient m b s ks cs) ks else []
  | complement m b cs =>
    arrangeItems strong weak b ++
      match _ : b.family with
      | .quotient s g _ _ => seedItems weak (complement m b cs) g (arrangeItems true true s)
      | _ => []
  | moniker m b s cs =>
    arrangeItems strong weak b ++
      seedItems weak (moniker m b s cs) (monikerGround b s) (arrangeItems true true s)
  | forked m b s ks cs =>
    arrangeItems strong weak b ++
      seedItems weak (forked m b s ks cs) s.lastAxis (arrangeItems true true s)
  | linked m b s is cs =>
    arrangeItems strong weak b ++
      seedItems weak (linked m b s is cs) (groundOf b s) (arrangeItems true true s)
  | ordered _ b os _ _ =>
    (if strong then arrangeItems true false b ++ os else []) ++
      if weak then arrangeItems false true b else []
termination_by s => s.weight
decreasing_by
  all_goals simp only [weight]
  all_goals first
    | omega
    | have hf := lighter_family b
      rw [‹b.family = _›] at hf
      simp only [lighter] at hf
      omega

abbrev arrangeAt (p : Bool × Bool × Space) : List OrderItem := arrangeItems p.1 p.2.1 p.2.2

def toArranged (strong weak : Bool) :
    (s : Space) → Recall arrangeAt (ValueOf (arrangeItems strong weak) s)
  | root m => pure ⟨[], by rw [arrangeItems]⟩
  | scalar _ b | filtered _ b _ => .map id (toArranged strong weak b) (by rw [arrangeItems, id])
  | table m b t => .map (rowItems weak t (table m b t)) (toArranged strong weak b) (by rw [arrangeItems])
  | fiber m b j =>
    .map (rowItems (weak && !j.contracting) j.target (fiber m b j)) (toArranged strong weak b)
      (by rw [arrangeItems])
  | quotient m b s ks cs =>
    .map (· ++ if weak then kernelItems (quotient m b s ks cs) ks else []) (toArranged strong weak b)
      (by rw [arrangeItems])
  | complement m b cs => do
    let base ← toArranged strong weak b
    match h : b.family with
    | .quotient s g ks f => do
      let seed ← toArranged true true s
      return ⟨base.1 ++ seedItems weak (complement m b cs) g seed.1, by
        rw [base.2, seed.2, arrangeItems]
        split
        · simp_all
        · rename_i other
          exact (other s g ks f h).elim⟩
    | .scalar | .table _ => return ⟨base.1, by
        rw [base.2, arrangeItems]
        split <;> simp_all⟩
  | moniker m b s cs =>
    Recall.value (strong, weak, moniker m b s cs) fun () =>
      .map₂ (fun b' s' => b' ++ seedItems weak (moniker m b s cs) (monikerGround b s) s')
        (toArranged strong weak b) (toArranged true true s) (by rw [arrangeAt, arrangeItems])
  | forked m b s ks cs =>
    Recall.value (strong, weak, forked m b s ks cs) fun () =>
      .map₂ (fun b' s' => b' ++ seedItems weak (forked m b s ks cs) s.lastAxis s')
        (toArranged strong weak b) (toArranged true true s) (by rw [arrangeAt, arrangeItems])
  | linked m b s is cs =>
    Recall.value (strong, weak, linked m b s is cs) fun () =>
      .map₂ (fun b' s' => b' ++ seedItems weak (linked m b s is cs) (groundOf b s) s')
        (toArranged strong weak b) (toArranged true true s) (by rw [arrangeAt, arrangeItems])
  | ordered m b os l o =>
    Recall.value (strong, weak, ordered m b os l o) fun () =>
      .map₂ (fun f s => (if strong then f ++ os else []) ++ if weak then s else [])
        (toArranged true false b) (toArranged false true b) (by rw [arrangeAt, arrangeItems])
termination_by s => s.weight
decreasing_by
  all_goals simp only [weight]
  all_goals first
    | omega
    | have hf := lighter_family b
      rw [‹b.family = _›] at hf
      simp only [lighter] at hf
      omega

def arrange (s : Space) (strong weak : Bool) : List OrderItem :=
  distinctItems (toArranged strong weak s).run.1

theorem arrange_eq (s : Space) (strong weak : Bool) :
    s.arrange strong weak = distinctItems (arrangeItems strong weak s) :=
  congrArg distinctItems (toArranged strong weak s).run.2

end Space

end NavQuery
