import NavQuery.Proofs.Numerals
import NavQuery.Proofs.PhraseValue
import NavQuery.Statement.OfFrame

/-!
Outside of quotes `?` is a marker, and `$` begins one that is numbered. `Fills` tells the slots that the
markers of a part of a statement stand for. It is stated with all that may follow, since a digit behind a
numbered marker would belong to the number.
-/

namespace NavQuery

open List Byte

namespace Statement

inductive Piece
  | byte (b : Byte)
  | marker (number : Option Nat)

def Piece.marker? : Piece → Option (Option Nat)
  | byte _ => none
  | marker n => some n

inductive Place
  | plain
  | quoted (quote : Byte)
  | number (n : Nat)

def enter (b : Byte) : List Piece × Place :=
  if b = '?' then ([.marker none], .plain)
  else if b = '$' then ([], .number 0)
  else ([.byte b], if b = '"' ∨ b = '\'' then .quoted b else .plain)

def step : Place → Byte → List Piece × Place
  | .plain, b => enter b
  | .quoted q, b => ([.byte b], if b = q then .plain else .quoted q)
  | .number n, b =>
    if Byte.isDigit b then ([], .number (10 * n + Byte.digitValue b))
    else (.marker (some n) :: (enter b).1, (enter b).2)

def read : Place → Text → List Piece
  | .number n, [] => [.marker (some n)]
  | _, [] => []
  | p, b :: t => (step p b).1 ++ read (step p b).2 t

def markers (t : Text) : List (Option Nat) := (read .plain t).filterMap Piece.marker?

def fillPieces : List Piece → List Text → Text
  | [], _ => []
  | .byte b :: ps, ts => b :: fillPieces ps ts
  | .marker _ :: ps, t :: ts => t ++ fillPieces ps ts
  | .marker _ :: ps, [] => fillPieces ps []

def fill (t : Text) (ts : List Text) : Text := fillPieces (read .plain t) ts

lemma read_cons (p : Place) (b : Byte) (t : Text) :
    read p (b :: t) = (step p b).1 ++ read (step p b).2 t := by
  cases p <;> rfl

section Quiet

/-- Bytes that neither are part of a marker nor open a quoted text. -/
def isQuiet (b : Byte) : Bool := !(b == '?' || b == '$' || b == '"' || b == '\'')

def Quiet (t : Text) : Prop := ∀ rest, read .plain (t ++ rest) = t.map .byte ++ read .plain rest

variable {t : Text}

lemma Quiet.append {u : Text} (ht : Quiet t) (hu : Quiet u) : Quiet (t ++ u) := fun rest => by
  rw [append_assoc, ht, hu, map_append, append_assoc]

lemma quiet_nil : Quiet [] := fun _ => rfl

lemma quiet_of_forall (h : ∀ b ∈ t, isQuiet b) : Quiet t := by
  induction t with
  | nil => exact quiet_nil
  | cons b t ih =>
    rw [forall_mem_cons] at h
    have hb : enter b = ([.byte b], .plain) := by
      have hne : ¬b = '?' ∧ ¬b = '$' ∧ ¬b = '"' ∧ ¬b = '\'' := by
        simpa [isQuiet, and_assoc] using h.1
      simp [enter, hne]
    intro rest
    rw [cons_append, read_cons, step, hb, ih h.2 rest]
    rfl

lemma quiet_of_all (h : t.all isQuiet) : Quiet t :=
  quiet_of_forall (all_eq_true.1 h)

variable {q : Byte} (hq : q = '"' ∨ q = '\'')

include hq

lemma enter_quote : enter q = ([.byte q], .quoted q) := by
  rcases hq with rfl | rfl <;> rfl

lemma read_escape (t rest : Text) : read (.quoted q) (Text.Quoted.escape q t ++ q :: rest) =
      (Text.Quoted.escape q t ++ [q]).map .byte ++ read .plain rest := by
  induction t with
  | nil => simp [Text.Quoted.escape, read_cons, step]
  | cons b t ih =>
    rw [Text.Quoted.escape]
    split
    · -- the first of two quotes ends the quoted text and the second one opens it again
      simp [read_cons, step, enter_quote hq, ih]
    · rename_i hb
      simp [read_cons, step, hb, ih]

lemma quiet_encode (t : Text) : Quiet (Text.Quoted.encode q t) := fun rest => by
  have hread := read_escape hq t rest
  simp only [Text.Quoted.encode, cons_append, append_assoc, nil_append, read_cons, step,
    enter_quote hq, hread]
  simp

end Quiet

lemma quiet_quoteName (t : Text) : Quiet (quoteName t) := quiet_encode (.inl rfl) t

lemma quiet_quoteText (t : Text) : Quiet (quoteText t) := quiet_encode (.inr rfl) t

section Numerals

lemma isQuiet_of_isDigit {b : Byte} (h : isDigit b) : isQuiet b := by
  unfold isQuiet
  rw [Bool.not_eq_true', ← Bool.not_eq_true]
  intro hb
  simp only [Bool.or_eq_true, beq_iff_eq, or_assoc] at hb
  rcases hb with rfl | rfl | rfl | rfl <;> exact absurd h (by decide)

def Calm (t : Text) : Prop := ∀ b ∈ t, isQuiet b = true

variable {t u : Text}

lemma Calm.of_subset (h : Calm u) (hs : t ⊆ u) : Calm t := fun b hb => h b (hs hb)

lemma calm_of_all (h : t.all isQuiet) : Calm t := all_eq_true.1 h

@[simp] lemma calm_cons {b : Byte} : Calm (b :: t) ↔ isQuiet b ∧ Calm t :=
  forall_mem_cons

@[simp] lemma calm_append : Calm (t ++ u) ↔ Calm t ∧ Calm u :=
  forall_mem_append

@[simp] lemma calm_replicate (n : Nat) : Calm (List.replicate n 48) := fun b hb => by
  rw [eq_of_mem_replicate hb]
  decide

@[simp] lemma calm_ofNat (n : Nat) : Calm (Text.ofNat n) := fun _ hb =>
  isQuiet_of_isDigit (isDigit_of_mem_ofNat hb)

lemma calm_ofInt (n : Int) : Calm (Text.ofInt n) := by
  cases n with
  | ofNat n => exact calm_ofNat n
  | negSucc n => exact calm_cons.2 ⟨by decide, calm_ofNat _⟩

lemma calm_decimal (d : Decimal) : Calm d.write := by
  have hsign : isQuiet (ofChar '-') := by decide
  have hpoint : isQuiet (ofChar '.') := by decide
  have hpadded : ∀ n, Calm (List.replicate n 48 ++ Text.ofNat d.unscaled.natAbs) := by simp
  have htake := fun n k => (hpadded n).of_subset (take_subset k _)
  have hdrop := fun n k => (hpadded n).of_subset (drop_subset k _)
  unfold Decimal.write
  dsimp only
  split_ifs <;> simp only [calm_cons, calm_append, calm_ofNat, hsign, hpoint, htake, hdrop, and_self]

lemma calm_dropTrailingZeros (h : Calm t) : Calm (Binary64.dropTrailingZeros t) :=
  h.of_subset fun b hb => by
    have hb' := (dropWhile_suffix _).subset (mem_reverse.1 hb)
    exact mem_reverse.1 hb'

lemma calm_withFraction (ht : Calm t) (hu : Calm u) : Calm (Binary64.withFraction t u) := by
  unfold Binary64.withFraction
  split
  · exact ht
  · exact calm_append.2 ⟨ht, calm_cons.2 ⟨by decide, hu⟩⟩

lemma calm_writeRatio (digits num den : Nat) : Calm (Binary64.writeRatio digits num den) := by
  have htake := fun n k => (calm_ofNat n).of_subset (take_subset k _)
  have hdrop := fun n k => (calm_ofNat n).of_subset (drop_subset k _)
  unfold Binary64.writeRatio
  generalize Binary64.significant digits num den = r
  obtain ⟨value, exponent⟩ := r
  dsimp only
  split
  · have hsign : isQuiet (if exponent < 0 then ofChar '-' else ofChar '+') := by
      split <;> decide
    refine calm_append.2 ⟨calm_withFraction (htake _ _) (calm_dropTrailingZeros (hdrop _ _)), ?_⟩
    exact calm_cons.2 ⟨by decide, calm_cons.2 ⟨hsign, calm_append.2 ⟨calm_replicate _, calm_ofNat _⟩⟩⟩
  · split
    · refine calm_withFraction (calm_of_all (by decide)) (calm_dropTrailingZeros ?_)
      exact calm_append.2 ⟨calm_replicate _, calm_ofNat _⟩
    · exact calm_withFraction (htake _ _) (calm_dropTrailingZeros (hdrop _ _))

lemma calm_float (digits : Nat) (x : Binary64) : Calm (x.write digits) := by
  have hsign : isQuiet (ofChar '-') := by decide
  have hnan : Calm (Text.ofString "nan") := calm_of_all (by decide)
  have hinf : Calm (Text.ofString "inf") := calm_of_all (by decide)
  have hzero : Calm [48] := calm_of_all (by decide)
  unfold Binary64.write
  split_ifs <;> simp only [calm_cons, hsign, true_and, calm_writeRatio, hnan, hinf, hzero]

end Numerals

section Constants

lemma quiet_writeBool (dialect : Dialect) (b : Bool) : Quiet (writeBool dialect b) := by
  unfold writeBool
  split <;> exact quiet_of_all (by decide)

variable {d : Domain} {dialect : Dialect} {t : Text}

lemma quiet_writeType (h : writeType dialect d = .ok t) : Quiet t := by
  cases d <;> cases dialect <;> cases h <;> exact quiet_of_all (by decide)

lemma calm_write_decimal {x : Decimal} (h : d.write (.decimal x) = .ok t) : Calm t := by
  cases d <;> cases h
  exact calm_decimal x

lemma quiet_writeMoment {word : Text} (hword : Calm word) {v : Value} (h : writeMoment dialect word d v = .ok t) : Quiet t := by
  obtain ⟨u, -, h⟩ := exists_of_bind_eq_ok h
  cases h
  split
  · exact quiet_quoteText u
  · exact (quiet_of_forall hword).append (quiet_quoteText u)

lemma quiet_writeLiteral {v : Value} (h : writeLiteral dialect d v = .ok t) : Quiet t := by
  cases v with
  | null => cases h; exact quiet_of_all (by decide)
  | boolean b => cases h; exact quiet_writeBool dialect b
  | integer n =>
    rw [writeLiteral, writeInteger] at h
    split at h <;> cases h
    exact quiet_of_forall (calm_ofInt n)
  | float x =>
    rw [writeLiteral, writeFloat] at h
    split at h <;> cases h
    split
    · exact quiet_of_forall (calm_float 17 x)
    · exact quiet_of_forall (calm_append.2 ⟨calm_float 17 x, calm_of_all (by decide)⟩)
  | decimal x => exact quiet_of_forall (calm_write_decimal h)
  | text u => cases h; exact quiet_quoteText u
  | date | time | dateTime => exact quiet_writeMoment (calm_of_all (by decide)) h
  | list => cases h

end Constants

structure Slot where
  domain : Domain
  name : Text

/-- Whether a text begins with a byte that does not belong to a number before it. -/
def separates (t : Text) : Bool := t.head?.any fun b => !isDigit b

def isFree (t : Text) : Bool := t.head?.all fun b => !isDigit b

lemma isFree_append {t u : Text} (ht : isFree t) (hu : isFree u) : isFree (t ++ u) := by
  cases t with
  | nil => exact hu
  | cons b t => exact ht

lemma isFree_of_separates {t : Text} (h : separates t) (u : Text) : isFree (t ++ u) := by
  cases t with
  | nil => cases h
  | cons b t => exact h

lemma read_digits {ds : Text} (h : ∀ b ∈ ds, isDigit b) (n : Nat) (rest : Text) :
    read (.number n) (ds ++ rest) =
      read (.number (ds.foldl (fun m b => 10 * m + digitValue b) n)) rest := by
  induction ds generalizing n with
  | nil => rfl
  | cons b ds ih =>
    rw [forall_mem_cons] at h
    rw [cons_append, read_cons, step, if_pos h.1, nil_append, ih h.2, foldl_cons]

lemma read_number {rest : Text} (h : isFree rest) (n : Nat) :
    read (.number n) rest = .marker (some n) :: read .plain rest := by
  cases rest with
  | nil => rfl
  | cons b rest =>
    have hb : ¬isDigit b := by simpa [isFree] using h
    have hstep : step (.number n) b = (.marker (some n) :: (enter b).1, (enter b).2) := if_neg hb
    rw [read_cons, hstep]
    rfl

variable (mark : Slot → Option Nat) (lit : Slot → Text)

/-- The markers of the first text stand for the slots, and the second text has literals in their
places. -/
structure Fills (slots : List Slot) (t t' : Text) : Prop where
  markers_append : ∀ rest, isFree rest → markers (t ++ rest) = slots.map mark ++ markers rest
  fill_append : ∀ rest, isFree rest → ∀ ts, fill (t ++ rest) (slots.map lit ++ ts) = t' ++ fill rest ts

inductive FillsEach : List (List Slot) → List Text → List Text → Prop
  | nil : FillsEach [] [] []
  | cons {S : List Slot} {t t' : Text} {Ss : List (List Slot)} {ts ts' : List Text}
      (head : Fills mark lit S t t') (tail : FillsEach Ss ts ts') :
      FillsEach (S :: Ss) (t :: ts) (t' :: ts')

variable {mark lit} {S U : List Slot} {q t t' u u' : Text}

lemma Fills.markers_eq (h : Fills mark lit S t t') : markers t = S.map mark := by
  have hmarkers := h.markers_append [] rfl
  rw [append_nil] at hmarkers
  exact hmarkers.trans (append_nil _)

lemma Fills.fill_eq (h : Fills mark lit S t t') : fill t (S.map lit) = t' := by
  have hfill := h.fill_append [] rfl []
  rw [append_nil, append_nil] at hfill
  exact hfill.trans (append_nil _)

lemma fillPieces_quiet (q : Text) (ps : List Piece) (ts : List Text) :
    fillPieces (q.map .byte ++ ps) ts = q ++ fillPieces ps ts := by
  induction q with
  | nil => rfl
  | cons b q ih => exact congrArg (b :: ·) ih

lemma Quiet.markers_append (hq : Quiet q) (rest : Text) : markers (q ++ rest) = markers rest := by
  rw [markers, hq, filterMap_append, filterMap_map]
  exact congrArg (· ++ markers rest) (filterMap_eq_nil_iff.2 fun _ _ => rfl)

lemma Quiet.fill_append (hq : Quiet q) (rest : Text) (ts : List Text) :
    fill (q ++ rest) ts = q ++ fill rest ts := by
  rw [fill, hq, fillPieces_quiet, fill]

lemma fills_quiet (hq : Quiet q) : Fills mark lit [] q q :=
  ⟨fun rest _ => hq.markers_append rest, fun rest _ ts => hq.fill_append rest ts⟩

lemma Fills.quiet_append (hq : Quiet q) (h : Fills mark lit S t t') :
    Fills mark lit S (q ++ t) (q ++ t') := by
  refine ⟨fun rest hrest => ?_, fun rest hrest ts => ?_⟩
  · rw [append_assoc, hq.markers_append, h.markers_append rest hrest]
  · rw [append_assoc, hq.fill_append, h.fill_append rest hrest, append_assoc]

lemma Fills.append (ht : Fills mark lit S t t') (hu : Fills mark lit U u u') (hfree : isFree u) :
    Fills mark lit (S ++ U) (t ++ u) (t' ++ u') := by
  refine ⟨fun rest hrest => ?_, fun rest hrest ts => ?_⟩
  · rw [append_assoc, ht.markers_append _ (isFree_append hfree hrest), hu.markers_append rest hrest,
      map_append, append_assoc]
  · rw [append_assoc, map_append, append_assoc,
      ht.fill_append _ (isFree_append hfree hrest), hu.fill_append rest hrest, append_assoc]

lemma Fills.append_quiet (ht : Fills mark lit S t t') (hq : Quiet q) (hfree : isFree q) :
    Fills mark lit S (t ++ q) (t' ++ q) :=
  append_nil S ▸ ht.append (fills_quiet hq) hfree

lemma Fills.between (ht : Fills mark lit S t t') (hq : Quiet q) (hsep : separates q)
    (hu : Fills mark lit U u u') : Fills mark lit (S ++ U) (t ++ q ++ u) (t' ++ q ++ u') := by
  rw [append_assoc, append_assoc]
  exact ht.append (hu.quiet_append hq) (isFree_of_separates hsep u)

lemma Fills.wrap (h : Fills mark lit S t t') (nested : Bool) :
    Fills mark lit S (wrap nested t) (wrap nested t') := by
  cases nested with
  | false => exact h
  | true => exact (h.quiet_append (quiet_of_all (by decide))).append_quiet (quiet_of_all (by decide)) (by decide)

lemma fills_join {Ss : List (List Slot)} {ts ts' : List Text} (h : FillsEach mark lit Ss ts ts')
    (hq : Quiet q) (hsep : separates q) :
    Fills mark lit Ss.flatten (Text.join q ts) (Text.join q ts') := by
  induction h with
  | nil => exact fills_quiet quiet_nil
  | @cons S t t' Ss ts ts' head tail ih =>
    cases tail with
    | nil => simpa [Text.join] using head
    | cons head' tail' =>
      rw [Text.join, Text.join, ← append_assoc, ← append_assoc]
      exact head.between hq hsep ih

lemma fills_marker {s : Slot} (hmark : mark s = none) : Fills mark lit [s] "?" (lit s) := by
  refine ⟨fun rest _ => ?_, fun rest _ ts => ?_⟩
  · rw [map_singleton, hmark]
    rfl
  · rfl

lemma fills_numbered {s : Slot} {n : Nat} (hmark : mark s = some n) :
    Fills mark lit [s] ("$" ++ Text.ofNat n) (lit s) := by
  have hread : ∀ rest, isFree rest →
      read .plain (Text.ofString "$" ++ Text.ofNat n ++ rest) = .marker (some n) :: read .plain rest := by
    intro rest hrest
    change read (.number 0) (Text.ofNat n ++ rest) = _
    rw [read_digits (fun _ => isDigit_of_mem_ofNat), foldl_ofNat, read_number hrest]
  refine ⟨fun rest hrest => ?_, fun rest hrest ts => ?_⟩
  · rw [markers, hread rest hrest, map_singleton, hmark]
    rfl
  · rw [fill, hread rest hrest]
    rfl

end Statement

end NavQuery
