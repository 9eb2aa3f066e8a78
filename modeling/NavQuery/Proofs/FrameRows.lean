import Mathlib.Data.List.Dedup
import Mathlib.Data.List.Perm.Basic
import NavQuery.Frame
import NavQuery.Proofs.PhraseValue

/-!
Frames read as SQL over a database: the anchors are joined from left to right, then come the filter, the
groups, the select list, the order and the range. Equal answers are lists that are permutations of each
other.
-/

namespace NavQuery

variable {V : Type}

abbrev Database (V : Type) := Table → List (Column → V)

structure Relation (V : Type) where
  tag : Tag
  rows : List (Row V)

structure Candidate (V : Type) where
  keys : List V
  items : List V

def Scene.ofRows? : List (Env V) → Option (Scene V)
  | [] => none
  | e :: es => some ⟨e, e :: es⟩

namespace Clauses

def outputPhrases (c : Clauses) : List Phrase :=
  c.select ++ c.having.toList ++ c.order.map (·.1)

lemma mem_outputPhrases {c : Clauses} {p : Phrase} :
    p ∈ c.outputPhrases ↔ p ∈ c.select ∨ c.having = some p ∨ ∃ i ∈ c.order, i.1 = p := by
  simp [outputPhrases]

def isSummary (c : Clauses) : Bool :=
  c.group.isEmpty && (c.having.isSome || c.outputPhrases.any (·.hasAggregate))

/-- The part of the rows that is asked for. A negative count is none. -/
def slice {α : Type} (c : Clauses) (l : List α) : List α :=
  let rest := c.offset.elim l fun n => l.drop n.toNat
  c.limit.elim rest fun n => rest.take n.toNat

end Clauses

namespace Interpretation

variable (I : Interpretation V) [DecidableEq V]

/-- The row with a matching row of a relation added, in all ways. -/
def matching (settle : Env V → Env V) (a : Anchor (Relation V)) (e : Env V) : List (Env V) :=
  (a.frame.rows.map (e.bind a.frame.tag)).filter fun e' => I.holds a.condition (.single (settle e'))

def unmatched (settle : Env V → Env V) (es : List (Env V)) (a : Anchor (Relation V)) :
    List (Row V) :=
  a.frame.rows.filter fun r =>
    es.all fun e => !I.holds a.condition (.single (settle (e.bind a.frame.tag r)))

/-- The row with the matching rows of a relation, or the row alone if a left join keeps it. -/
def extensions (settle : Env V → Env V) (a : Anchor (Relation V)) (e : Env V) : List (Env V) :=
  if a.left && (I.matching settle a e).isEmpty then [e.bind a.frame.tag I.missing]
  else I.matching settle a e

def join (settle : Env V → Env V) (blank : Env V) (es : List (Env V)) (a : Anchor (Relation V)) :
    List (Env V) :=
  es.flatMap (I.extensions settle a) ++
    if a.right then (I.unmatched settle es a).map (blank.bind a.frame.tag) else []

lemma join_of_condition_eq_none {a : Anchor (Relation V)} (h : a.condition = none)
    (hright : a.right = false) (settle : Env V → Env V) (blank : Env V) (es : List (Env V)) :
    I.join settle blank es a = es.flatMap fun e =>
      (if a.left && a.frame.rows.isEmpty then [I.missing] else a.frame.rows).map
        (e.bind a.frame.tag) := by
  simp only [join, hright, Bool.false_eq_true, if_false, List.append_nil]
  refine congrArg (List.flatMap · es) (funext fun e => ?_)
  simp only [extensions, matching, h, holds_none, List.filter_true, List.isEmpty_map]
  split <;> rfl

def blank (as : List (Anchor (Relation V))) (e : Env V) : Env V :=
  as.foldl (fun e a => e.bind a.frame.tag I.missing) e

def joinAll (settle : Env V → Env V) (outer : Env V) : List (Anchor (Relation V)) → List (Env V)
  | [] => [outer]
  | a :: as =>
    as.foldl (I.join settle (I.blank (a :: as) outer)) (a.frame.rows.map (outer.bind a.frame.tag))

def key (group : List Phrase) (e : Env V) : List V := group.map (I.value · (.single e))

def groupOf (group : List Phrase) (es : List (Env V)) (k : List V) : Option (Scene V) :=
  Scene.ofRows? (es.filter fun e => I.key group e = k)

def groups (group : List Phrase) (es : List (Env V)) : List (Scene V) :=
  (es.map (I.key group)).dedup.filterMap (I.groupOf group es)

def scenes (c : Clauses) (outer : Env V) (es : List (Env V)) : List (Scene V) :=
  if c.isSummary then [⟨es.head?.getD outer, es⟩]
  else if c.group.isEmpty then es.map .single
  else I.groups c.group es

def candidate (c : Clauses) (k : Scene V) : Candidate V :=
  ⟨c.order.map fun i => I.value i.1 k, c.select.map (I.value · k)⟩

def candidates (c : Clauses) (ks : List (Scene V)) : List (Candidate V) :=
  (ks.filter (I.holds c.having)).map (I.candidate c)

def compareDirected (d : Direction) (v w : V) : Ordering :=
  if d.isDescending then I.compare w v else I.compare v w

def compareKeys : List Direction → List V → List V → Ordering
  | [], _, _ => .eq
  | d :: ds, vs, ws =>
    (I.compareDirected d (vs.headD I.null) (ws.headD I.null)).then (compareKeys ds vs.tail ws.tail)

def compareCandidates (c : Clauses) (a b : Candidate V) : Ordering :=
  I.compareKeys (c.order.map (·.2)) a.keys b.keys

def arrange (c : Clauses) (as : List (Candidate V)) : List (Candidate V) :=
  as.mergeSort fun a b => (I.compareCandidates c a b).isLE

omit [DecidableEq V] in
lemma arrange_of_order_eq_nil {c : Clauses} (h : c.order = []) (as : List (Candidate V)) :
    I.arrange c as = as := by
  refine List.mergeSort_of_pairwise (List.pairwise_of_forall fun a b => ?_)
  rw [compareCandidates, h]
  rfl

def drafts (c : Clauses) (outer : Env V) (es : List (Env V)) : List (Candidate V) :=
  I.candidates c (I.scenes c outer (es.filter fun e => I.holds c.filter (.single e)))

def answers (c : Clauses) (outer : Env V) (es : List (Env V)) : List (List V) :=
  (c.slice (I.arrange c (I.drafts c outer es))).map Candidate.items

def rowOf (items : List V) : Row V := ⟨fun _ => I.null, items⟩

mutual

def rows (db : Database V) : Frame → Env V → List (Row V)
  | .scalar _, _ => [I.missing]
  | .table _ t, _ => (db t).map fun r => ⟨r, []⟩
  | .query c anchors embedded, e =>
    (I.answers c e ((I.joinAll (settle db embedded) e (relations db anchors e)).map
      (settle db embedded))).map I.rowOf

def relations (db : Database V) : List (Anchor Frame) → Env V → List (Anchor (Relation V))
  | [], _ => []
  | a :: as, e => relation db a e :: relations db as e

def relation (db : Database V) : Anchor Frame → Env V → Anchor (Relation V)
  | ⟨f, condition, left, right⟩, e => ⟨⟨f.tag, rows db f e⟩, condition, left, right⟩

def settle (db : Database V) : List Frame → Env V → Env V
  | [], e => e
  | f :: fs, e => settle db fs (e.embed f.tag (I.subquery ((rows db f e).map Row.items)))

end

variable (db : Database V)

lemma relation_eq (a : Anchor Frame) (e : Env V) :
    I.relation db a e = ⟨⟨a.frame.tag, I.rows db a.frame e⟩, a.condition, a.left, a.right⟩ := by
  cases a
  rfl

lemma relations_eq (as : List (Anchor Frame)) (e : Env V) :
    I.relations db as e = as.map fun a => I.relation db a e :=
  eq_map_of_cons (F := (I.relations db · e)) as rfl fun _ _ => rfl

lemma relations_append (as bs : List (Anchor Frame)) (e : Env V) :
    I.relations db (as ++ bs) e = I.relations db as e ++ I.relations db bs e := by
  simp [relations_eq]

lemma forall_mem_relations {as : List (Anchor Frame)} {e : Env V} {P : Anchor (Relation V) → Prop} :
    (∀ b ∈ I.relations db as e, P b) ↔
      ∀ a ∈ as, P ⟨⟨a.frame.tag, I.rows db a.frame e⟩, a.condition, a.left, a.right⟩ := by
  simp only [relations_eq, List.forall_mem_map, relation_eq]

lemma settle_append (fs gs : List Frame) (e : Env V) :
    I.settle db (fs ++ gs) e = I.settle db gs (I.settle db fs e) := by
  induction fs generalizing e with
  | nil => rfl
  | cons f fs ih => exact ih _

lemma joinAll_append (settle : Env V → Env V) (outer : Env V) (a : Anchor (Relation V))
    (as bs : List (Anchor (Relation V))) :
    I.joinAll settle outer (a :: as ++ bs) = bs.foldl (I.join settle (I.blank (a :: as ++ bs) outer))
        (as.foldl (I.join settle (I.blank (a :: as ++ bs) outer))
          (a.frame.rows.map (outer.bind a.frame.tag))) := by
  exact List.foldl_append

end Interpretation

namespace Frame

/-- Follows the anchors and the embedded frames of queries as lists. -/
@[elab_as_elim, induction_eliminator]
theorem induction {P : Frame → Prop} (scalar : ∀ t, P (scalar t)) (table : ∀ n t, P (table n t))
    (query : ∀ c anchors embedded, (∀ a ∈ anchors, P a.frame) → (∀ f ∈ embedded, P f) →
      P (query c anchors embedded)) (f : Frame) : P f := by
  refine @Frame.rec P (fun as => ∀ a ∈ as, P a.frame) (fun fs => ∀ f ∈ fs, P f)
    (fun a => P a.frame) scalar table query
    ?_ ?_ ?_ ?_ ?_ f
  · simp
  · intro a as ha has
    simpa using ⟨ha, has⟩
  · simp
  · intro f fs hf hfs
    simpa using ⟨hf, hfs⟩
  · exact fun _ _ _ _ h => h

end Frame

end NavQuery
