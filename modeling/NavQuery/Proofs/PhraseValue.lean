import NavQuery.Phrase.Reduce
import NavQuery.Proofs.Interpretation
import NavQuery.Proofs.Outcomes

/-!
A phrase has a value in a scene: the row at hand, and the rows of its group for the aggregates.
`value_substitute` says that putting a selected phrase in place of a reference changes no value.
-/

namespace NavQuery

open List

variable {V : Type} {d : Domain} {n : Bool}

/-- A row of a table by its columns, or of a query by the items it selects. -/
structure Row (V : Type) where
  column : Column → V
  items : List V

/-- The rows and the values of subqueries in reach, by the tags of their frames. -/
structure Env (V : Type) where
  row : Tag → Row V
  answer : Tag → V

namespace Env

def bind (e : Env V) (t : Tag) (r : Row V) : Env V := { e with row := Function.update e.row t r }

def embed (e : Env V) (t : Tag) (v : V) : Env V :=
  { e with answer := Function.update e.answer t v }

@[simp] lemma bind_row_self (e : Env V) (t : Tag) (r : Row V) : (e.bind t r).row t = r := by
  simp [bind]

variable {t u : Tag}

lemma bind_row_of_ne (e : Env V) (r : Row V) (h : u ≠ t) : (e.bind t r).row u = e.row u := by
  simp [bind, h]

@[simp] lemma embed_answer_self (e : Env V) (t : Tag) (v : V) : (e.embed t v).answer t = v := by
  simp [embed]

lemma embed_answer_of_ne (e : Env V) (v : V) (h : u ≠ t) : (e.embed t v).answer u = e.answer u := by
  simp [embed, h]

lemma bind_embed (e : Env V) (t u : Tag) (r : Row V) (v : V) :
    (e.bind t r).embed u v = (e.embed u v).bind t r := rfl

end Env

structure Scene (V : Type) where
  env : Env V
  group : List (Env V)

def Scene.single (e : Env V) : Scene V := ⟨e, [e]⟩

namespace Value

mutual

lemma sameBy_mono {f g : Binary64 → Binary64 → Bool} (h : ∀ x y, f x y → g x y) :
    ∀ v w : Value, sameBy f v w → sameBy g v w = true
  | .null, w | .boolean _, w | .integer _, w | .decimal _, w | .text _, w | .date _, w | .time _, w
  | .dateTime _, w => by cases w <;> simp [sameBy]
  | .float x, w => by
    cases w with
    | float y => exact h x y
    | _ => simp [sameBy]
  | .list as, w => by
    cases w with
    | list bs => exact sameAllBy_mono h as bs
    | _ => simp [sameBy]

lemma sameAllBy_mono {f g : Binary64 → Binary64 → Bool} (h : ∀ x y, f x y → g x y) :
    ∀ vs ws : List Value, sameAllBy f vs ws → sameAllBy g vs ws = true
  | [], [] => fun _ => rfl
  | [], _ :: _ | _ :: _, [] => by simp [sameAllBy]
  | v :: vs, w :: ws => by
    simp only [sameAllBy, Bool.and_eq_true]
    exact fun hvw => ⟨sameBy_mono h v w hvw.1, sameAllBy_mono h vs ws hvw.2⟩

end

lemma alike_of_beq {v w : Value} (h : (v == w)) : v.alike w :=
  sameBy_mono (fun x y hxy => by simp [hxy]) v w h

end Value

namespace Phrase

@[elab_as_elim, induction_eliminator]
lemma induction {P : Phrase → Prop}
    (literal : ∀ d n v, P (literal d n v)) (parameter : ∀ d n, P (parameter d n))
    (cast : ∀ d n p, P p → P (cast d n p))
    (formula : ∀ d n f as, (∀ a ∈ as, P a) → P (formula d n f as))
    (column : ∀ n t c, P (column n t c)) (reference : ∀ d n t i, P (reference d n t i))
    (embedding : ∀ d t, P (embedding d t)) (p : Phrase) : P p := by
  refine @Phrase.rec P (fun as => ∀ a ∈ as, P a) literal parameter cast formula column
    reference embedding ?_ ?_ p
  · simp
  · intro a as ha has
    simpa using ⟨ha, has⟩

inductive Use
  | column (tag : Tag)
  | item (tag : Tag) (index : Nat)
  | answer (tag : Tag)

def Use.tag : Use → Tag
  | column t | item t _ | answer t => t

mutual

def uses : Phrase → List Use
  | literal _ _ _ | parameter _ _ => []
  | cast _ _ p => uses p
  | formula _ _ _ as => usesAll as
  | column _ t _ => [.column t]
  | reference _ _ t i => [.item t i]
  | embedding _ t => [.answer t]

def usesAll : List Phrase → List Use
  | [] => []
  | p :: ps => uses p ++ usesAll ps

end

lemma usesAll_eq (ps : List Phrase) : usesAll ps = ps.flatMap uses :=
  eq_flatMap_of_cons ps rfl fun _ _ => rfl

lemma mem_uses_formula {f : Operator} {as : List Phrase} {u : Use} :
    u ∈ (formula d n f as).uses ↔ ∃ a ∈ as, u ∈ a.uses := by
  rw [uses, usesAll_eq, mem_flatMap]

mutual

def hasAggregate : Phrase → Bool
  | formula _ _ f as => f.isAggregate || anyAggregate as
  | cast _ _ p => hasAggregate p
  | _ => false

def anyAggregate : List Phrase → Bool
  | [] => false
  | p :: ps => hasAggregate p || anyAggregate ps

end

lemma anyAggregate_eq (ps : List Phrase) : anyAggregate ps = ps.any hasAggregate := by
  induction ps with
  | nil => rfl
  | cons p ps ih => simp [anyAggregate, ih]

mutual

/-- The phrase with the selected phrases in place of the references to frames that are gone. -/
def substitute (s : Substitutes) : Phrase → Phrase
  | reference d n t i => ((List.lookup t s).bind (·[i]?)).getD (reference d n t i)
  | cast d n p => cast d n (substitute s p)
  | formula d n f as => formula d n f (substituteAll s as)
  | p => p

def substituteAll (s : Substitutes) : List Phrase → List Phrase
  | [] => []
  | p :: ps => substitute s p :: substituteAll s ps

end

lemma substituteAll_eq (s : Substitutes) (ps : List Phrase) :
    substituteAll s ps = ps.map (substitute s) := eq_map_of_cons ps rfl fun _ _ => rfl

/-- What frames offer to phrases: the columns of a table, a number of selected items, or the value of a
subquery. -/
inductive Export
  | columns (tag : Tag)
  | items (tag : Tag) (count : Nat)
  | answer (tag : Tag)

def Export.tag : Export → Tag
  | columns t | items t _ | answer t => t

def Export.offers : Export → Use → Bool
  | columns t, .column u | answer t, .answer u => t = u
  | items t n, .item u i => t = u && i < n
  | _, _ => false

lemma Export.tag_eq_of_offers {x : Export} {u : Use} (h : x.offers u) : x.tag = u.tag := by
  cases x <;> cases u <;> simp_all [offers, tag, Use.tag]

abbrev Reach := List Export

def Reach.tags (R : Reach) : List Tag := R.map Export.tag

def Within (R : Reach) (p : Phrase) : Prop := ∀ u ∈ p.uses, ∃ x ∈ R, x.offers u = true

instance (R : Reach) (p : Phrase) : Decidable (p.Within R) :=
  inferInstanceAs (Decidable (∀ u ∈ p.uses, ∃ x ∈ R, x.offers u))

variable {R : Reach} {p : Phrase}

lemma Within.mono {R' : Reach} (hR : R ⊆ R') (h : p.Within R) : p.Within R' :=
  fun u hu => (h u hu).imp fun _ hx => ⟨hR hx.1, hx.2⟩

lemma Within.tag_mem (h : p.Within R) {u : Use} (hu : u ∈ p.uses) : u.tag ∈ R.tags := by
  obtain ⟨x, hx, ho⟩ := h u hu
  exact Export.tag_eq_of_offers ho ▸ mem_map_of_mem hx

variable {t : Tag} {X : Reach}

lemma Within.tag_ne (h : p.Within R) (ht : t ∉ R.tags) : ∀ u ∈ p.uses, u.tag ≠ t :=
  fun _ hu heq => ht (heq ▸ h.tag_mem hu)

lemma Within.of_append (h : p.Within (X ++ R))
    (hX : ∀ x ∈ X, ∀ u ∈ p.uses, x.offers u ≠ true) : p.Within R := by
  intro u hu
  obtain ⟨x, hx, ho⟩ := h u hu
  rcases mem_append.1 hx with hx | hx
  · exact absurd ho (hX x hx u hu)
  · exact ⟨x, hx, ho⟩

def isExport : Phrase → Bool
  | column _ _ _ | reference _ _ _ _ | embedding _ _ => true
  | _ => false

lemma uses_of_isExport (hp : p.isExport) : ∃ u, p.uses = [u] := by
  cases p <;> simp_all [isExport, uses]

lemma Within.append_or (hp : p.isExport) (h : p.Within (X ++ R)) : p.Within X ∨ p.Within R := by
  obtain ⟨u, hu⟩ := uses_of_isExport hp
  obtain ⟨x, hx, ho⟩ := h u (by simp [hu])
  have hw : ∀ {R : Reach}, x ∈ R → p.Within R := by
    intro R hx v hv
    rw [hu, mem_singleton] at hv
    exact ⟨x, hx, hv ▸ ho⟩
  exact (mem_append.1 hx).imp hw hw

lemma Within.eq_reference {k : Nat} (hp : p.isExport)
    (h : p.Within [.items t k]) : ∃ d n i, p = reference d n t i ∧ i < k := by
  cases p with
  | literal | parameter | cast | formula => simp [isExport] at hp
  | column | embedding => simp [Within, uses, Export.offers] at h
  | reference d n u i =>
    obtain ⟨rfl, hi⟩ : t = u ∧ i < k := by simpa [Within, uses, Export.offers] using h
    exact ⟨d, n, i, rfl, hi⟩

lemma within_formula_iff {f : Operator} {as : List Phrase} :
    (formula d n f as).Within R ↔ ∀ a ∈ as, a.Within R := by
  simp only [Within, mem_uses_formula]
  exact ⟨fun h a ha u hu => h u ⟨a, ha, hu⟩, fun h u ⟨a, ha, hu⟩ => h a ha u hu⟩

lemma hasAggregate_formula (d : Domain) (n : Bool) (f : Operator) (as : List Phrase) :
    (formula d n f as).hasAggregate = (f.isAggregate || as.any hasAggregate) := by
  rw [hasAggregate, anyAggregate_eq]

lemma substitute_formula (s : Substitutes) (d : Domain) (n : Bool) (f : Operator) (as : List Phrase) :
    (formula d n f as).substitute s = formula d n f (as.map (substitute s)) := by
  rw [substitute, substituteAll_eq]

lemma substitute_reference (s : Substitutes) (d : Domain) (n : Bool) (t : Tag) (i : Nat) :
    (reference d n t i).substitute s = ((s.lookup t).bind (·[i]?)).getD (reference d n t i) := by
  rw [substitute]

lemma forall₂_of_sameAll {ps qs : List Phrase} (h : sameAll ps qs) :
    List.Forall₂ (fun p q => p.same q) ps qs := by
  induction ps generalizing qs with
  | nil =>
    cases qs with
    | nil => exact .nil
    | cons => simp [sameAll] at h
  | cons p ps ih =>
    cases qs with
    | nil => simp [sameAll] at h
    | cons q qs =>
      rw [sameAll, Bool.and_eq_true] at h
      exact .cons h.1 (ih h.2)

end Phrase

namespace Substitutes

open Phrase

/-- The tags of the frames that are gone and of those that their select lists read. -/
def tags (s : Substitutes) : List Tag :=
  s.flatMap fun x => x.1 :: x.2.flatMap fun p => p.uses.map Use.tag

def Plain (s : Substitutes) : Prop := ∀ x ∈ s, ∀ p ∈ x.2, p.hasAggregate = false

variable {s : Substitutes} {t : Tag} {p : Phrase}

lemma mem_of_lookup {select : List Phrase} (h : s.lookup t = some select) : (t, select) ∈ s := by
  obtain ⟨before, after, rfl, _⟩ := lookup_eq_some_iff.1 h
  simp

lemma lookup_eq_none (h : t ∉ s.tags) : s.lookup t = none := by
  cases hl : s.lookup t with
  | none => rfl
  | some select =>
    refine absurd ?_ h
    exact mem_flatMap.2 ⟨_, mem_of_lookup hl, mem_cons_self⟩

lemma substitute_reference_cases (s : Substitutes) (d : Domain) (n : Bool) (t : Tag) (i : Nat) :
    (reference d n t i).substitute s = reference d n t i ∨
      ∃ select, (t, select) ∈ s ∧ (reference d n t i).substitute s ∈ select := by
  rw [substitute_reference]
  cases hl : s.lookup t with
  | none => exact .inl rfl
  | some select =>
    cases hi : select[i]? with
    | none => simp [hi]
    | some p => exact .inr ⟨select, mem_of_lookup hl, by simpa [hi] using mem_of_getElem? hi⟩

lemma mem_uses_substitute {u : Use} (hu : u ∈ (p.substitute s).uses) : u ∈ p.uses ∨ u.tag ∈ s.tags := by
  induction p with
  | literal | parameter | column | embedding => exact .inl hu
  | cast d n p ih => exact ih hu
  | reference d n t i =>
    obtain h | ⟨select, hx, hp⟩ := substitute_reference_cases s d n t i
    · exact .inl (h ▸ hu)
    · refine .inr (mem_flatMap.2 ⟨_, hx, mem_cons_of_mem _ ?_⟩)
      exact mem_flatMap.2 ⟨_, hp, mem_map_of_mem hu⟩
  | formula d n f as ih =>
    rw [substitute_formula] at hu
    obtain ⟨_, hb, hu⟩ := mem_uses_formula.1 hu
    obtain ⟨a, ha, rfl⟩ := mem_map.1 hb
    exact (ih a ha hu).imp (fun h => mem_uses_formula.2 ⟨a, ha, h⟩) id

lemma hasAggregate_substitute (hs : s.Plain) (p : Phrase) :
    (p.substitute s).hasAggregate = p.hasAggregate := by
  induction p with
  | literal | parameter | column | embedding => rfl
  | cast d n p ih => exact ih
  | reference d n t i =>
    obtain h | ⟨select, hx, hp⟩ := substitute_reference_cases s d n t i
    · rw [h]
    · exact hs _ hx _ hp
  | formula d n f as ih =>
    rw [substitute_formula, hasAggregate_formula, any_map]
    refine congrArg (f.isAggregate || ·) ?_
    induction as with
    | nil => rfl
    | cons a as iha =>
      rw [any_cons, iha fun b hb => ih b (mem_cons_of_mem _ hb)]
      exact congrArg (· || _) (ih a mem_cons_self)

/-- Nothing is substituted in a phrase that reads none of the frames that are gone. -/
theorem substitute_eq_self (h : ∀ u ∈ p.uses, List.lookup u.tag s = none) : p.substitute s = p := by
  induction p with
  | literal | parameter | column | embedding => rfl
  | cast d n p ih => exact congrArg (cast d n) (ih h)
  | reference d n t i =>
    rw [substitute_reference, show s.lookup t = none from h (.item t i) (by simp [uses])]
    rfl
  | formula d n f as ih =>
    rw [substitute_formula]
    refine congrArg (formula d n f) ((map_congr_left fun a ha => ?_).trans (map_id as))
    exact ih a ha fun u hu => h u (mem_uses_formula.2 ⟨a, ha, hu⟩)

def Maps (s : Substitutes) (R R' : Reach) : Prop :=
  ∀ p : Phrase, p.isExport → p.Within R → (p.substitute s).Within R'

lemma maps_self {R : Reach} (h : ∀ t ∈ R.tags, s.lookup t = none) : s.Maps R R := by
  intro p _ hw
  rwa [substitute_eq_self fun u hu => h _ (hw.tag_mem hu)]

@[simp] lemma substitute_nil (p : Phrase) : p.substitute [] = p :=
  substitute_eq_self fun _ _ => rfl

end Substitutes

variable {α β S : Type}

variable {as : List α} {bs : List β} {P : α → β → Prop} {b : β} {s s' : S} {x : StateT S Result α}
  {f : α → StateT S Result β}

lemma all_eq_all_of_forall₂ {f : α → Bool} {g : β → Bool} (h : List.Forall₂ P as bs) (hfg : ∀ a b, P a b → f a = g b) :
    as.all f = bs.all g := by
  have hmap := map_eq_map_of_forall₂ h hfg
  simpa [all_map] using congrArg (List.all · id) hmap

lemma exists_of_run_bind_eq_ok (h : (x >>= f) s = .ok (b, s')) :
    ∃ a u, x s = .ok (a, u) ∧ f a u = .ok (b, s') := by
  obtain ⟨⟨a, u⟩, hx, hf⟩ := exists_of_bind_eq_ok h
  exact ⟨a, u, hx, hf⟩

lemma exists_of_lift_bind_eq_ok {x : Result α} (h : (liftM x >>= f) s = .ok (b, s')) : ∃ a, x = .ok a ∧ f a s = .ok (b, s') := by
  cases x with
  | error e => cases h
  | ok a => exact ⟨a, rfl, h⟩

lemma run_bind_eq_ok {u : S} {a : α} (h : x s = .ok (a, u)) : (x >>= f) s = f a u := by
  change (x s >>= fun p => f p.1 p.2) = _
  rw [h]
  rfl

lemma mapM_mono {f g : α → Result β} {l : List α}
    (h : ∀ a ∈ l, ∀ b, f a = .ok b → g a = .ok b) (hbs : l.mapM f = .ok bs) : l.mapM g = .ok bs := by
  induction l generalizing bs with
  | nil => exact hbs
  | cons a l ih =>
    rw [forall_mem_cons] at h
    rw [mapM_cons] at hbs ⊢
    obtain ⟨b, hb, hbs⟩ := exists_of_bind_eq_ok hbs
    obtain ⟨cs, hcs, hbs⟩ := exists_of_bind_eq_ok hbs
    rw [h.1 b hb, ih h.2 hcs]
    exact hbs

namespace Interpretation

open Phrase

variable (I : Interpretation V)

def item (r : Row V) (i : Nat) : V := r.items[i]?.getD I.null

/-- The row that an outer join puts where no row matches. -/
def missing : Row V := ⟨fun _ => I.null, []⟩

@[simp] lemma item_missing (i : Nat) : I.item I.missing i = I.null := rfl

variable [DecidableEq V]

mutual

def value : Phrase → Scene V → V
  | .literal _ _ v, _ => I.literal v
  | .parameter d n, _ => I.parameter d n
  | .cast d _ p, k => I.cast d (value p k)
  | .formula _ _ f as, k =>
    if f.isAggregate then I.aggregate f (k.group.map fun e => values as (.single e))
    else I.apply f (values as k)
  | .column _ t c, k => (k.env.row t).column c
  | .reference _ _ t i, k => I.item (k.env.row t) i
  | .embedding _ t, k => k.env.answer t

def values : List Phrase → Scene V → List V
  | [], _ => []
  | p :: ps, k => value p k :: values ps k

end

lemma values_eq (ps : List Phrase) (k : Scene V) : I.values ps k = ps.map (I.value · k) :=
  eq_map_of_cons (F := (I.values · k)) ps rfl fun _ _ => rfl

lemma value_formula (d : Domain) (n : Bool) (f : Operator) (as : List Phrase) (k : Scene V) :
    I.value (.formula d n f as) k =
      if f.isAggregate then
        I.aggregate f (k.group.map fun e => as.map (I.value · (.single e)))
      else I.apply f (as.map (I.value · k)) := by
  simp only [value, values_eq]

def holds (p : Option Phrase) (k : Scene V) : Bool := p.all fun p => I.isTrue (I.value p k)

@[simp] lemma holds_none : I.holds none = fun _ => true := rfl

variable {p : Phrase}

lemma value_of_not_hasAggregate (h : p.hasAggregate = false) (e : Env V)
    (g g' : List (Env V)) : I.value p ⟨e, g⟩ = I.value p ⟨e, g'⟩ := by
  induction p with
  | literal | parameter | column | reference | embedding => rfl
  | cast d n p ih => exact congrArg (I.cast d) (ih h)
  | formula d n f as ih =>
    rw [hasAggregate_formula, Bool.or_eq_false_iff, any_eq_false] at h
    rw [value_formula, value_formula, h.1]
    refine congrArg (I.apply f) (map_congr_left fun a ha => ih a ha ?_)
    simpa using h.2 a ha

lemma value_of_same {q : Phrase} (h : p.same q) (k : Scene V) : I.value p k = I.value q k := by
  induction p generalizing q k with
  | literal d n v =>
    cases q <;> simp only [Phrase.same, Bool.and_eq_true, Bool.or_eq_true, Bool.false_eq_true] at h
    exact I.literal_alike _ _ (h.2.elim Value.alike_of_beq (·.2))
  | parameter _ _ | column _ _ _ | reference _ _ _ _ | embedding _ _ =>
    cases q <;> simp_all [Phrase.same, value]
  | cast d n p ih =>
    cases q <;> simp only [Phrase.same, Bool.and_eq_true, beq_iff_eq, Bool.false_eq_true] at h
    rw [value, value, h.1, ih h.2]
  | formula d n f as ih =>
    cases q <;> simp only [Phrase.same, Bool.and_eq_true, beq_iff_eq, Bool.false_eq_true] at h
    rename_i e m g bs
    obtain ⟨⟨-, rfl⟩, hall⟩ := h
    have hvalues : List.Forall₂ (fun p q => ∀ k, I.value p k = I.value q k) as bs := by
      have hsame := forall₂_of_sameAll hall
      clear hall
      induction hsame with
      | nil => exact .nil
      | cons hpq _ ihs =>
        exact .cons (fun k => ih _ mem_cons_self hpq k) (ihs fun p hp => ih p (mem_cons_of_mem _ hp))
    have hmap : ∀ k, as.map (I.value · k) = bs.map (I.value · k) := fun k =>
      map_eq_map_of_forall₂ hvalues fun p q h => h k
    rw [value_formula, value_formula]
    simp only [hmap]

/-- Every export in reach has in an environment the value that its substitute has in a scene. -/
def Reads (s : Substitutes) (R : Reach) (e : Env V) (k : Scene V) : Prop :=
  ∀ p : Phrase, p.isExport → p.Within R → I.value p (.single e) = I.value (p.substitute s) k

/-- The environments of two lists read alike, place by place. -/
abbrev ReadsAll (s : Substitutes) (R : Reach) (es es' : List (Env V)) : Prop :=
  List.Forall₂ (fun e e' => I.Reads s R e (.single e')) es es'

/-- Putting selected phrases in place of references keeps the value. -/
theorem value_substitute {s : Substitutes} {R : Reach} {p : Phrase} {k k' : Scene V}
    (hp : p.Within R) (hr : I.Reads s R k.env k')
    (hg : p.hasAggregate → I.ReadsAll s R k.group k'.group) :
    I.value p k = I.value (p.substitute s) k' := by
  induction p generalizing k k' with
  | literal | parameter => rfl
  | cast d n p ih => exact congrArg (I.cast d) (ih hp hr hg)
  | column n t c => exact hr (.column n t c) rfl hp
  | reference d n t i => exact hr (.reference d n t i) rfl hp
  | embedding d t => exact hr (.embedding d t) rfl hp
  | formula d n f as ih =>
    rw [within_formula_iff] at hp
    rw [substitute_formula, value_formula, value_formula]
    rw [hasAggregate_formula] at hg
    split
    · rename_i hf
      -- each row of the group reads its partner
      have hgroup := hg (by simp [hf])
      refine congrArg (fun g : List (List V) => I.aggregate f g) ?_
      refine map_eq_map_of_forall₂ hgroup fun e e' he => ?_
      rw [map_map]
      exact map_congr_left fun a ha => ih a ha (hp a ha) he fun _ => .cons he .nil
    · refine congrArg (I.apply f) ?_
      rw [map_map]
      refine map_congr_left fun a ha => ih a ha (hp a ha) hr fun hagg => hg ?_
      rw [Bool.or_eq_true, any_eq_true]
      exact .inr ⟨a, ha, hagg⟩

lemma value_of_agree {p : Phrase} {e e' : Env V} (hrow : ∀ u ∈ p.uses, e.row u.tag = e'.row u.tag)
    (hanswer : ∀ t, Use.answer t ∈ p.uses → e.answer t = e'.answer t) :
    I.value p (.single e) = I.value p (.single e') := by
  induction p with
  | literal | parameter => rfl
  | cast d n p ih => exact congrArg (I.cast d) (ih hrow hanswer)
  | column n t c =>
    have h := hrow (.column t) (by simp [uses])
    exact congrArg (fun r : Row V => r.column c) h
  | reference d n t i =>
    have h := hrow (.item t i) (by simp [uses])
    exact congrArg (fun r : Row V => I.item r i) h
  | embedding d t => exact hanswer t (by simp [uses])
  | formula d n f as ih =>
    have hall : as.map (I.value · (.single e)) = as.map (I.value · (.single e')) := by
      refine map_congr_left fun a ha => ih a ha (fun u hu => hrow u ?_) fun t hu => hanswer t ?_
      all_goals exact mem_uses_formula.2 ⟨a, ha, hu⟩
    rw [value_formula, value_formula]
    simp only [Scene.single, map_cons] at hall ⊢
    rw [hall]

lemma value_bind {p : Phrase} {t : Tag} (h : ∀ u ∈ p.uses, u.tag ≠ t) (e : Env V) (r : Row V) :
    I.value p (.single (e.bind t r)) = I.value p (.single e) :=
  I.value_of_agree (fun u hu => e.bind_row_of_ne r (h u hu)) fun _ _ => rfl

lemma value_embed {p : Phrase} {t : Tag} (h : Use.answer t ∉ p.uses) (e : Env V) (v : V) :
    I.value p (.single (e.embed t v)) = I.value p (.single e) :=
  I.value_of_agree (fun _ _ => rfl) fun _ hu => e.embed_answer_of_ne v fun heq => h (heq ▸ hu)

namespace Reads

variable {I} {s : Substitutes} {R R' : Reach} {e e' : Env V}

lemma mono (hR : R ⊆ R') {k : Scene V} (h : I.Reads s R' e k) : I.Reads s R e k :=
  fun p hp hw => h p hp (hw.mono hR)

lemma refl (R : Reach) (e : Env V) : I.Reads [] R e (.single e) := by
  intro p _ _
  rw [Substitutes.substitute_nil]

lemma value_eq {p : Phrase} (h : I.Reads s R e (.single e')) (hp : p.Within R) :
    I.value p (.single e) = I.value (p.substitute s) (.single e') :=
  @value_substitute V I _ s R p (.single e) (.single e') hp h fun _ => .cons h .nil

lemma symm (h : I.Reads [] R e (.single e')) : I.Reads [] R e' (.single e) := by
  intro p hp hw
  have he := h p hp hw
  rw [Substitutes.substitute_nil] at he ⊢
  exact he.symm

lemma nil (e : Env V) (k : Scene V) : I.Reads s [] e k := by
  intro p hp hw
  obtain ⟨u, hu⟩ := uses_of_isExport hp
  obtain ⟨x, hx, -⟩ := hw u (by simp [hu])
  cases hx

lemma of_lookup_eq_none (h : ∀ t ∈ R.tags, s.lookup t = none) (e : Env V) :
    I.Reads s R e (.single e) := by
  intro p _ hw
  rw [Substitutes.substitute_eq_self fun u hu => h _ (hw.tag_mem hu)]

/-- Without aggregates in the select lists the group does not matter. -/
theorem scene (hs : s.Plain) (h : I.Reads s R e (.single e')) (g : List (Env V)) :
    I.Reads s R e ⟨e', g⟩ := by
  intro p hp hw
  rw [h p hp hw]
  refine I.value_of_not_hasAggregate ?_ _ _ _
  rw [Substitutes.hasAggregate_substitute hs]
  cases p <;> first | rfl | simp [isExport] at hp

variable {t : Tag} {X : Reach}

/-- A row bound on both sides stays in step, and is in reach from then on. -/
theorem bind (h : I.Reads s R e (.single e')) (ht : t ∉ s.tags)
    (hX : ∀ x ∈ X, x.tag = t ∧ x ≠ .answer t) (r : Row V) :
    I.Reads s (X ++ R) (e.bind t r) (.single (e'.bind t r)) := by
  intro p hp hw
  by_cases hne : ∀ u ∈ p.uses, u.tag ≠ t
  · have hwR : p.Within R := hw.of_append fun x hx u hu ho =>
      hne u hu ((Export.tag_eq_of_offers ho).symm.trans (hX x hx).1)
    rw [I.value_bind hne, h p hp hwR, I.value_bind]
    intro u hu hut
    exact (Substitutes.mem_uses_substitute hu).elim (hne u · hut) fun h => ht (hut ▸ h)
  · simp only [not_forall, not_not] at hne
    obtain ⟨u, hu, rfl⟩ := hne
    cases p with
    | literal | parameter | cast | formula => simp [isExport] at hp
    | column n t c =>
      obtain rfl : u = .column t := by simpa [uses] using hu
      simp [substitute, value, Scene.single, Use.tag]
    | reference d n t i =>
      obtain rfl : u = .item t i := by simpa [uses] using hu
      have hl : s.lookup t = none := Substitutes.lookup_eq_none ht
      simp [substitute_reference, hl, value, Scene.single, Use.tag]
    | embedding d t =>
      -- a row does not offer a value
      refine h (.embedding d t) rfl (hw.of_append fun x hx v hv ho => ?_)
      obtain rfl : v = .answer t := by simpa [uses] using hv
      have hxt := hX x hx
      cases x <;> simp_all [Export.offers, Export.tag, Use.tag]

/-- Two rows bound under tags that are out of reach before. -/
theorem bind_pair {t' : Tag} {r r' : Row V} (h : I.Reads s R e (.single e'))
    (hs : s.Maps R R') (ht : t ∉ R.tags) (ht' : t' ∉ R'.tags)
    (hX : I.Reads s X (e.bind t r) (.single (e'.bind t' r'))) :
    I.Reads s (X ++ R) (e.bind t r) (.single (e'.bind t' r')) := by
  intro p hp hw
  rcases hw.append_or hp with hw | hw
  · exact hX p hp hw
  · rw [I.value_bind (hw.tag_ne ht), h p hp hw, I.value_bind ((hs p hp hw).tag_ne ht')]

lemma bind_right (h : I.Reads [] R e (.single e')) (ht : t ∉ R.tags) (r : Row V) :
    I.Reads [] R e (.single (e'.bind t r)) := by
  intro p hp hw
  rw [Substitutes.substitute_nil, I.value_bind (hw.tag_ne ht), h p hp hw, Substitutes.substitute_nil]

lemma embed (h : I.Reads s R e (.single e')) (ht : t ∉ s.tags) (v : V) :
    I.Reads s (.answer t :: R) (e.embed t v) (.single (e'.embed t v)) := by
  intro p hp hw
  by_cases hu : Use.answer t ∈ p.uses
  · cases p <;> simp_all [isExport, uses, substitute, value, Scene.single]
  · have hwR : p.Within R := hw.of_append (X := [.answer t]) fun x hx u hv ho => hu (by
      cases u <;> simp_all [Export.offers])
    rw [I.value_embed hu, h p hp hwR, I.value_embed]
    exact fun hv => (Substitutes.mem_uses_substitute hv).elim hu ht

/-- Values that differ do not matter if what has their tag is out of reach. -/
theorem hide (h : I.Reads s R e (.single e')) (ht : t ∉ s.tags) (v w : V) :
    I.Reads s (R.filter (·.tag ≠ t)) (e.embed t v) (.single (e'.embed t w)) := by
  intro p hp hw
  have hu : Use.answer t ∉ p.uses := fun hu => by
    obtain ⟨x, hx, ho⟩ := hw _ hu
    exact of_decide_eq_true (mem_filter.1 hx).2 (Export.tag_eq_of_offers ho)
  rw [I.value_embed hu, h p hp (hw.mono (filter_subset_self _)), I.value_embed]
  exact fun hv => (Substitutes.mem_uses_substitute hv).elim hu ht

end Reads

end Interpretation

end NavQuery
