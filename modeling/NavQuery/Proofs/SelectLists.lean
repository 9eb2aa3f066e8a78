import NavQuery.Proofs.Outcomes
import NavQuery.Statement.OfFrame

/-!
A statement starts with its select list: an item for each phrase of the frame, separated by commas, up to
the end of the line or of the text.
-/

namespace NavQuery

-- errors do not matter here, as only the texts that are written are looked at
attribute [local instance] Discipline.anything

def Phrase.Written (dialect : Dialect) (p : Phrase) (t : Text) : Prop :=
  ∃ (s : Statement.Style) (before after : Statement.Draft), s.dialect = dialect ∧
    p.write s 0 false before = .ok (t, after)

namespace Statement

def StartsLine (t : Text) : Prop := t = [] ∨ ∃ more : Text, t = "\n" ++ more

lemma StartsLine.append {t u : Text} (ht : StartsLine t) (hu : StartsLine u) : StartsLine (t ++ u) := by
  rcases ht with rfl | ⟨more, rfl⟩
  · exact hu
  · exact .inr ⟨more ++ u, List.append_assoc _ _ _⟩

lemma startsLine_newline (depth : Nat) (t : Text) : StartsLine (Frame.newline depth ++ t) :=
  .inr ⟨_, List.append_assoc _ _ _⟩

lemma startsLine_words (depth : Nat) (t u : Text) : StartsLine (Frame.newline depth ++ t ++ u) :=
  List.append_assoc _ t u ▸ startsLine_newline depth _

def Selects (dialect : Dialect) (ps : List Phrase) (sql : Text) : Prop :=
  ∃ (items : List Text) (rest : Text), sql = "SELECT " ++ Text.join ", " items ++ rest ∧ StartsLine rest ∧
    List.Forall₂ (Phrase.Written dialect) ps items

def Writing.Gives {α : Type} (P : α → Prop) (w : Writing α) : Prop :=
  ∀ d, Ensures (fun r => P r.1) (w d)

namespace Writing.Gives

variable {α β : Type} {P : α → Prop} {Q : β → Prop} {w : Writing α}

lemma pure {a : α} (h : P a) : Gives P (Pure.pure a : Writing α) := fun _ => h

lemma any (w : Writing α) : w.Gives fun _ => True := fun d => by
  cases w d <;> exact trivial

lemma bind {f : α → Writing β} (h : w.Gives P) (hf : ∀ a, P a → (f a).Gives Q) : Gives Q (w >>= f) :=
  fun d => (h d).run_bind fun a d ha => hf a ha d

lemma line {f : α → Text} (h : ∀ a, StartsLine (f a)) : Gives StartsLine (do return f (← w)) :=
  (any w).bind fun a _ => .pure (h a)

end Writing.Gives

end Statement

namespace Frame

open Statement

variable {s : Style} {depth : Nat}

lemma startsLine_writeRange (dialect : Dialect) (limit offset : Option Int) :
    StartsLine (writeRange dialect depth limit offset) := by
  have hskip (o : Option Int) (f : Int → Text) :
      StartsLine (o.elim ([] : Text) fun n => newline depth ++ f n) := by
    cases o with
    | none => exact .inl rfl
    | some n => exact startsLine_newline depth _
  unfold writeRange
  split
  · exact (hskip offset _).append (hskip limit _)
  · exact (startsLine_newline depth _).append (hskip offset _)
  · split
    · exact (startsLine_newline depth _).append (hskip offset _)
    · exact .inl rfl
  · exact hskip offset _

variable {word : Text} {ps : List Phrase} {c : Clauses}

lemma startsLine_writeClause {p : Option Phrase} : (writeClause s depth word p).Gives StartsLine := by
  cases p with
  | none => exact .pure (.inl rfl)
  | some p => exact .line fun t => startsLine_words depth _ t

lemma startsLine_writeList : (writeList s depth word ps).Gives StartsLine := by
  unfold writeList
  split
  · exact .pure (.inl rfl)
  · exact .line fun _ => startsLine_words depth _ _

lemma startsLine_writeOrder {items : List SortItem} : (writeOrder s depth items).Gives StartsLine := by
  unfold writeOrder
  split
  · exact .pure (.inl rfl)
  · exact .line fun _ => startsLine_words depth _ _

lemma startsLine_writeClauses : (writeClauses s depth c).Gives StartsLine :=
  startsLine_writeClause.bind fun _ hfilter => startsLine_writeList.bind fun _ hgroup =>
    startsLine_writeClause.bind fun _ hhaving => startsLine_writeOrder.bind fun _ horder =>
      .pure ((((hfilter.append hgroup).append hhaving).append horder).append (startsLine_writeRange _ _ _))

lemma startsLine_writeJoin {a : Anchor Frame} {target : Text} :
    (writeJoin s depth a target).Gives StartsLine := by
  unfold writeJoin
  split
  · exact .pure (startsLine_words depth _ _)
  · have hline (t : Text) :
        StartsLine (newline depth ++ joinWords a ++ target ++ Text.ofString " ON " ++ t) := by
      simp only [List.append_assoc]
      exact startsLine_newline depth _
    split <;> exact .line hline

lemma startsLine_writeAnchors {as : List (Anchor Frame)} {isFirst : Bool} :
    (writeAnchors s as depth isFirst).Gives StartsLine := by
  induction as generalizing isFirst with
  | nil => exact .pure (.inl rfl)
  | cons a as ih =>
    refine Writing.Gives.bind (P := StartsLine) ?_ fun _ ha => ih.bind fun _ has => .pure (ha.append has)
    rw [writeAnchor]
    refine (Writing.Gives.any _).bind fun target _ => ?_
    split
    · exact .pure (startsLine_words depth _ _)
    · exact startsLine_writeJoin

lemma written_writeItems {tag : Tag} {i : Nat} :
    (writeItems s 0 tag false ps i).Gives (List.Forall₂ (Phrase.Written s.dialect) ps) := by
  induction ps generalizing i with
  | nil => exact .pure .nil
  | cons p ps ih =>
    have hitem : (p.write s 0 false).Gives (p.Written s.dialect) := fun d => by
      cases hp : p.write s 0 false d with
      | ok r => exact ⟨s, d, r.2, rfl, hp⟩
      | error e => exact trivial
    exact hitem.bind fun t ht => ih.bind fun ts hts => .pure (.cons ht hts)

lemma selects_of_statement {anchors : List (Anchor Frame)} {embedded : List Frame}
    {dialect : Dialect} {st : Statement} (h : (Frame.query c anchors embedded).statement dialect = .ok st) :
    Selects dialect c.select st.sql := by
  suffices hs : Ensures (fun st : Statement => Selects dialect c.select st.sql)
      ((Frame.query c anchors embedded).statement dialect) from hs.of_ok h
  refine (Passes.any _).bind fun _ => (Passes.any _).bind fun names => ?_
  have hquery (s : Style) (hs : s.dialect = dialect) :
      (writeSelect s 0 (Frame.query c anchors embedded)).Gives (Selects dialect c.select) := by
    refine written_writeItems.bind fun items hitems => startsLine_writeAnchors.bind fun joined hjoined => ?_
    refine startsLine_writeClauses.bind fun clauses hclauses => .pure ⟨items, joined ++ clauses, ?_, ?_, ?_⟩
    · exact List.append_assoc _ _ _
    · exact hjoined.append hclauses
    · exact hs ▸ hitems
  exact (hquery ⟨dialect, names, embedTo dialect names names.embedded.length⟩ rfl _).bind fun r hr => .pure hr

end Frame

end NavQuery
