import NavQuery.Domain.Literal
import NavQuery.Proofs.Decimals

/-!
`Domain.Ranges` tells the values of a domain. What a text spells in a domain is one of them, and every
value of a domain without floating-point numbers is read back from its text.
-/

namespace NavQuery

open List Text Byte

namespace Text.Quoted

lemma scan_escape {q : Byte} (t : Text) {r : Text} (h : ∀ b ∈ r.head?, b ≠ q) :
    scan q (escape q t ++ q :: r) = (t, some r) := by
  induction t with
  | nil =>
    cases r with
    | nil => simp [escape, scan]
    | cons b r => simp [escape, scan, h b rfl]
  | cons b t ih =>
    rw [escape]
    split
    next hb =>
      rw [hb, cons_append, cons_append, scan, if_pos rfl, if_pos rfl, ih]
    next hb =>
      obtain ⟨c, s, hs⟩ : ∃ c s, escape q t ++ q :: r = c :: s := by
        cases escape q t with
        | nil | cons _ _ => exact ⟨_, _, rfl⟩
      rw [cons_append, hs, scan, if_neg hb, ← hs, ih]

end Text.Quoted

namespace Items

def spell : Item → Text
  | none => ofString "null"
  | some content => Text.Quoted.encode '\'' content

lemma write_eq (opening close : Byte) (items : List Item) :
    write opening close items = opening :: (join ", " (items.map spell) ++ [close]) := rfl

variable {rest t : Text}

lemma scanItem_spell (i : Item) (h : ∀ b ∈ rest.head?, b ≠ ofChar '\'') :
    scanItem (spell i ++ rest) = .ok (i, rest) := by
  cases i with
  | none => rfl
  | some content =>
    have hscan := Text.Quoted.scan_escape content h
    rw [spell, Text.Quoted.encode, cons_append, append_assoc, scanItem, if_neg (by rintro ⟨⟩),
      singleton_append]
    simp only [if_pos, hscan]

/-- A bracket that closes a sequence of items. -/
structure Closes (close : Byte) : Prop where
  space : isSpace close = false
  comma : close ≠ ofChar ','
  start : ∀ i, ∀ b ∈ (spell i).head?, b ≠ close

variable {close : Byte}

lemma Closes.quote (h : Closes close) : close ≠ ofChar '\'' :=
  (h.start (some []) _ rfl).symm

lemma exists_join_spell (i : Item) (items : List Item) (rest : Text) :
    ∃ tail, join ", " ((i :: items).map spell) ++ rest = spell i ++ tail := by
  cases items with
  | nil => exact ⟨_, rfl⟩
  | cons j items => exact ⟨_, by rw [map_cons, map_cons, join, append_assoc]⟩

lemma skipSpaces_spell (i : Item) (items : List Item) (rest : Text) :
    skipSpaces (join ", " ((i :: items).map spell) ++ rest) =
      join ", " ((i :: items).map spell) ++ rest := by
  obtain ⟨tail, htail⟩ := exists_join_spell i items rest
  rw [htail]
  cases i <;> rfl

lemma scanSequence_of_item {b : Byte} {i : Item} {r : Text}
    (h : scanItem (skipSpaces t) = .ok (i, rest)) (hr : skipSpaces rest = b :: r) :
    scanSequence close t = if b = ofChar ',' then (i :: (scanSequence close r).1, (scanSequence close r).2)
      else if b = close then ([i], .closed r) else ([i], .badSeparator) := by
  rw [scanSequence]
  split
  next heq => rw [h] at heq; cases heq
  next heq =>
    rw [h] at heq
    cases heq
    split
    next heq => rw [hr] at heq; cases heq
    next heq =>
      rw [hr] at heq
      cases heq
      rfl

lemma scanSequence_spell (hclose : Closes close) (i : Item) (items : List Item)
    (ht : skipSpaces t = join ", " ((i :: items).map spell) ++ [close]) :
    scanSequence close t = (i :: items, .closed []) := by
  induction items generalizing i t with
  | nil =>
    have hscan : scanItem (skipSpaces t) = .ok (i, [close]) :=
      ht ▸ scanItem_spell i fun b hb => Option.mem_some.1 hb ▸ hclose.quote
    have hskip : skipSpaces [close] = [close] :=
      skipSpaces_eq_self fun b hb => Option.mem_some.1 hb ▸ hclose.space
    rw [scanSequence_of_item hscan hskip, if_neg hclose.comma, if_pos rfl]
  | cons j items ih =>
    let rest := join ", " ((j :: items).map spell) ++ [close]
    have hscan : scanItem (skipSpaces t) = .ok (i, ofString ", " ++ rest) := by
      rw [ht, map_cons, map_cons, join, append_assoc]
      exact scanItem_spell i fun b hb => Option.mem_some.1 hb ▸ by decide
    have hskip : skipSpaces (ofString ", " ++ rest) = ofChar ',' :: ofChar ' ' :: rest := rfl
    have hrest : skipSpaces (ofChar ' ' :: rest) = rest := skipSpaces_spell j items [close]
    rw [scanSequence_of_item hscan hskip, if_pos rfl, ih j hrest]

lemma scan_spell (hclose : Closes close) (items : List Item) :
    scan close (join ", " (items.map spell) ++ [close]) = (items, .closed []) := by
  cases items with
  | nil =>
    have hskip : skipSpaces [close] = [close] :=
      skipSpaces_eq_self fun b hb => Option.mem_some.1 hb ▸ hclose.space
    simp [scan, join, hskip]
  | cons i items =>
    have hskip := skipSpaces_spell i items [close]
    have hsequence := scanSequence_spell hclose i items hskip
    obtain ⟨b, r, hb⟩ : ∃ b r, spell i = b :: r := by cases i <;> exact ⟨_, _, rfl⟩
    obtain ⟨tail, htail⟩ := exists_join_spell i items [close]
    unfold scan
    rw [hskip]
    rw [htail, hb] at hsequence ⊢
    exact (if_neg (hclose.start i b (hb ▸ rfl))).trans hsequence

end Items

namespace Domain

mutual

/-- The values of a domain other than null. The items of lists and records may be null, the parts of
identities may not. -/
def Ranges : Domain → Value → Prop
  | untyped, .text _ | text, .text _ | external _, .text _ | boolean, .boolean _ | integer, .integer _
  | float, .float _ => True
  | decimal, .decimal d => 0 ≤ d.scale
  | enum labels, .text t => t ∈ labels
  | date, .date d => d.Valid
  | time, .time t => t.Valid
  | dateTime, .dateTime t => t.date.Valid ∧ t.time.Valid
  | list item, .list vs => ∀ v ∈ vs, v = .null ∨ item.Ranges v
  | record fields, .list vs => FieldsRange fields vs
  | identity parts, .list vs => PartsRange parts vs
  | _, _ => False

def FieldsRange : List (Text × Domain) → List Value → Prop
  | [], [] => True
  | f :: fs, v :: vs => FieldRange f v ∧ FieldsRange fs vs
  | _, _ => False

def FieldRange : Text × Domain → Value → Prop
  | (_, d), v => v = .null ∨ d.Ranges v

def PartsRange : List Domain → List Value → Prop
  | [], [] => True
  | d :: ds, v :: vs => d.Ranges v ∧ PartsRange ds vs
  | _, _ => False

end

variable {v : Value}

lemma eq_of_finish {w : Value} {rest : Text} {fault : Fault} (h : finish v rest fault = .ok w) :
    w = v := by
  unfold finish at h
  split at h
  · exact (Except.ok.inj h).symm
  · cases h

lemma exists_of_mapError {ε ε' α : Type} {f : ε → ε'} {x : Except ε α} {a : α}
    (h : x.mapError f = .ok a) : x = .ok a := by
  cases x with
  | error e => cases h
  | ok b => cases h; rfl

lemma ranges_of_readDateTime {t : Text} (h : readDateTime t = .ok v) : dateTime.Ranges v := by
  obtain ⟨⟨d, rest⟩, hd, h⟩ := exists_of_bind_eq_ok h
  have hdate := Date.valid_of_read (exists_of_mapError hd)
  have hmidnight : Time.midnight.Valid := by constructor <;> decide
  dsimp only at h
  split at h
  next => exact eq_of_finish h ▸ ⟨hdate, hmidnight⟩
  next =>
    split at h
    · obtain ⟨⟨c, rest⟩, hc, h⟩ := exists_of_bind_eq_ok h
      exact eq_of_finish h ▸ ⟨hdate, Time.valid_of_read (exists_of_mapError hc)⟩
    · exact eq_of_finish h ▸ ⟨hdate, hmidnight⟩

lemma eq_or_of_readItem {reader : Reader} {P : Value → Prop} {i : Items.Item}
    (h : readItem reader i = .ok v) (hP : ∀ t v, reader t = .ok v → P v) : v = .null ∨ P v := by
  cases i with
  | none => cases h; exact .inl rfl
  | some content => exact .inr (hP content v h)

lemma readParts_cons (d : Domain) (ds : List Domain) (first : Bool) (t : Text) :
    readParts (d :: ds) first t =
      ((if first then .ok (skipSpaces t) else skipSpaces <$> readByte '.' (skipSpaces t)) >>=
        fun t => readPart (fun s => read d s) d.nestedParts t >>= fun r => readParts ds false r.2 >>=
          fun q => .ok (r.1 :: q.1, q.2)) := by
  cases first <;> rfl

lemma nestedParts_cases (d : Domain) : d.nestedParts = none ∨ ∃ parts, d = identity parts ∧
    d.nestedParts = some (decide (1 < parts.length), fun t => readParts parts true t) := by
  cases d with
  | identity parts => exact .inr ⟨parts, rfl, by rw [nestedParts]⟩
  | _ => exact .inl (by rw [nestedParts]; exact nofun)

mutual

/-- What a text spells in a domain is a value of the domain. -/
theorem ranges_of_read : ∀ (d : Domain) {t : Text} {v : Value}, d.read t = .ok v → d.Ranges v
  | unknown, _, _, h | void, _, _, h | entity _, _, _, h => by rw [read] at h; cases h
  | untyped, _, _, h | text, _, _, h | external _, _, _, h => by rw [read] at h; cases h; trivial
  | boolean, _, _, h => by
    rw [read, readBoolean] at h
    split_ifs at h <;> cases h <;> trivial
  | integer, _, _, h => by
    rw [read, readInteger] at h
    dsimp only at h
    split at h <;> cases h
    trivial
  | float, _, _, h => by
    rw [read] at h
    unfold readFloat at h
    repeat' split at h
    all_goals cases h
    trivial
  | decimal, _, _, h => by
    rw [read, readDecimal] at h
    split at h
    next hd => cases h; exact scale_nonneg_of_read hd
    next => cases h
  | enum labels, _, _, h => by
    rw [read, readEnum] at h
    split at h
    next hmem => cases h; exact contains_iff_mem.1 hmem
    next => cases h
  | date, _, _, h => by
    obtain ⟨⟨d, rest⟩, hd, h⟩ := exists_of_bind_eq_ok h
    exact eq_of_finish h ▸ Date.valid_of_read (exists_of_mapError hd)
  | time, _, _, h => by
    obtain ⟨⟨c, rest⟩, hc, h⟩ := exists_of_bind_eq_ok h
    exact eq_of_finish h ▸ Time.valid_of_read (exists_of_mapError hc)
  | dateTime, _, _, h => ranges_of_readDateTime (by rwa [read] at h)
  | list item, _, _, h => by
    obtain ⟨body, -, h⟩ := exists_of_bind_eq_ok h
    obtain ⟨values, hvalues, h⟩ := exists_of_bind_eq_ok h
    obtain ⟨rest, -, h⟩ := exists_of_bind_eq_ok h
    refine eq_of_finish h ▸ forall_of_mapM_eq_ok hvalues fun i v hv => ?_
    exact eq_or_of_readItem hv fun t v => ranges_of_read item
  | record fields, _, _, h => by
    obtain ⟨body, -, h⟩ := exists_of_bind_eq_ok h
    obtain ⟨⟨values, left⟩, hvalues, h⟩ := exists_of_bind_eq_ok h
    obtain ⟨rest, -, h⟩ := exists_of_bind_eq_ok h
    obtain ⟨value, hvalue, h⟩ := exists_of_bind_eq_ok h
    split at h
    next hleft =>
      cases h
      exact eq_of_finish hvalue ▸ fieldsRange_of_readItems fields (isEmpty_iff.1 hleft ▸ hvalues)
    next => cases h
  | identity parts, _, _, h => by
    obtain ⟨⟨values, rest⟩, hvalues, h⟩ := exists_of_bind_eq_ok h
    exact eq_of_finish h ▸ partsRange_of_readParts parts hvalues
termination_by d => (sizeOf d, 0)

lemma fieldsRange_of_readItems : ∀ (fs : List (Text × Domain)) {items : List Items.Item} {vs : List Value},
    readItems (fieldReaders fs) items = .ok (vs, []) → FieldsRange fs vs
  | [], items, _, h => by
    cases items <;> rw [fieldReaders, readItems] at h <;> cases h
    trivial
  | (name, d) :: fs, items, _, h => by
    cases items with
    | nil => cases h
    | cons i items =>
      obtain ⟨v, hv, h⟩ := exists_of_bind_eq_ok h
      obtain ⟨⟨vs, left⟩, hvs, h⟩ := exists_of_bind_eq_ok h
      cases h
      exact ⟨eq_or_of_readItem hv fun t v => ranges_of_read d, fieldsRange_of_readItems fs hvs⟩
termination_by fs => (sizeOf fs, 0)

lemma partsRange_of_readParts : ∀ (ds : List Domain) {first : Bool} {t rest : Text} {vs : List Value},
    readParts ds first t = .ok (vs, rest) → PartsRange ds vs
  | [], _, _, _, _, h => by rw [readParts] at h; cases h; trivial
  | d :: ds, _, _, _, _, h => by
    rw [readParts_cons] at h
    obtain ⟨t, -, h⟩ := exists_of_bind_eq_ok h
    obtain ⟨⟨v, t⟩, hv, h⟩ := exists_of_bind_eq_ok h
    obtain ⟨⟨vs, rest⟩, hvs, h⟩ := exists_of_bind_eq_ok h
    cases h
    exact ⟨ranges_of_readPart d hv, partsRange_of_readParts ds hvs⟩
termination_by ds => (sizeOf ds, 0)

lemma ranges_of_readPart : ∀ (d : Domain) {t rest : Text} {v : Value},
    readPart (fun s => read d s) d.nestedParts t = .ok (v, rest) → d.Ranges v
  | d, _, _, _, h => by
    obtain hnone | ⟨parts, rfl, hparts⟩ := d.nestedParts_cases
    · rw [hnone] at h
      obtain ⟨⟨label, t⟩, -, h⟩ := exists_of_bind_eq_ok h
      obtain ⟨v, hv, h⟩ := exists_of_bind_eq_ok h
      cases h
      exact ranges_of_read d hv
    · rw [hparts] at h
      cases hseveral : decide (1 < parts.length) with
      | false =>
        rw [hseveral] at h
        obtain ⟨⟨vs, t⟩, hvs, h⟩ := exists_of_bind_eq_ok h
        cases h
        exact partsRange_of_readParts parts hvs
      | true =>
        rw [hseveral] at h
        obtain ⟨t, -, h⟩ := exists_of_bind_eq_ok h
        obtain ⟨⟨vs, t⟩, hvs, h⟩ := exists_of_bind_eq_ok h
        obtain ⟨rest, -, h⟩ := exists_of_bind_eq_ok h
        cases h
        exact partsRange_of_readParts parts hvs
termination_by d => (sizeOf d, 1)

end

section Writing

lemma readInteger_ofInt (n : Int) : readInteger (ofInt n) = .ok (.integer n) := by
  have hdigits : ∀ b ∈ ofNat n.natAbs, isDigit b := fun _ => isDigit_of_mem_ofNat
  have hsign := readSign_signed (n < 0) hdigits
  have hempty : (ofNat n.natAbs).isEmpty = false := by simpa using ofNat_ne_nil n.natAbs
  unfold readInteger
  rw [ofInt_eq_signed, hsign]
  dsimp only
  rw [hempty, all_eq_true.2 hdigits, Text.toNat, foldl_ofNat, sign_natAbs]
  rfl

lemma readDate_write {d : Date} (h : d.Valid) : readDate d.write = .ok (.date d) := by
  have hskip := h.skipSpaces_write []
  have hread := h.read_write []
  rw [append_nil] at hskip hread
  rw [readDate, hskip, hread]
  rfl

lemma readTime_write {t : Time} (h : t.Valid) : readTime t.write = .ok (.time t) := by
  rw [readTime, h.skipSpaces_write, h.read_write]
  rfl

lemma readDateTime_write {t : DateTime} (hd : t.date.Valid) (ht : t.time.Valid) :
    readDateTime t.write = .ok (.dateTime t) := by
  rw [readDateTime, DateTime.write, append_assoc, hd.skipSpaces_write, hd.read_write]
  change (Time.read (skipSpaces t.time.write)).mapError _ >>= _ = _
  rw [ht.skipSpaces_write, ht.read_write]
  rfl

lemma closes_square : Items.Closes (ofChar ']') :=
  ⟨by decide, by decide, fun i => by cases i <;> exact fun b hb => Option.mem_some.1 hb ▸ by decide⟩

lemma closes_round : Items.Closes (ofChar ')') :=
  ⟨by decide, by decide, fun i => by cases i <;> exact fun b hb => Option.mem_some.1 hb ▸ by decide⟩

/-- An item that is written, and read back if its domain is exact. -/
def ReadsBack (exact : Prop) (writer : Writer) (reader : Reader) (v : Value) : Prop :=
  ∃ i, writeItem writer v = .ok i ∧ (exact → readItem reader i = .ok v)

variable {exact : Prop} {v : Value} {reader : Reader} {writer : Writer} {vs : List Value} {ts : List Text}

lemma readsBack_of {P : Prop} (h : v = .null ∨ P)
    (hP : P → v.isNull = false ∧ ∃ t, writer v = .ok t ∧ (exact → reader t = .ok v)) :
    ReadsBack exact writer reader v := by
  obtain rfl | h := h
  · exact ⟨none, rfl, fun _ => rfl⟩
  · obtain ⟨hnull, t, hw, hr⟩ := hP h
    refine ⟨some t, ?_, hr⟩
    cases v with
    | null => cases hnull
    | _ => simp only [writeItem, hw]; rfl

lemma exists_readList (h : ∀ v ∈ vs, ReadsBack exact writer reader v) :
    ∃ t, writeList writer (.list vs) = .ok t ∧ (exact → readList reader t = .ok (.list vs)) := by
  obtain ⟨items, hwrite, hread⟩ : ∃ items, vs.mapM (writeItem writer) = .ok items ∧
      (exact → items.mapM (readItem reader) = .ok vs) := by
    induction vs with
    | nil => exact ⟨[], rfl, fun _ => rfl⟩
    | cons v vs ih =>
      rw [forall_mem_cons] at h
      obtain ⟨i, hi, hv⟩ := h.1
      obtain ⟨items, hitems, hvs⟩ := ih h.2
      exact ⟨i :: items, by rw [mapM_cons, hi, ok_bind, hitems]; rfl, fun hexact => by
        rw [mapM_cons, hv hexact, hvs hexact]; rfl⟩
  refine ⟨Items.write '[' ']' items, by rw [writeList, hwrite]; rfl, fun hexact => ?_⟩
  have hopen (body : Text) : readOpening '[' (ofChar '[' :: body) = .ok body := rfl
  rw [readList, Items.write_eq, hopen, ok_bind, Items.scan_spell closes_square]
  dsimp only
  rw [hread hexact]
  rfl

variable {writers : List Writer} {rest : Text} {d : Domain}

lemma exists_readRecord {readers : List Reader}
    {items : List Items.Item} (hlength : vs.length = writers.length) (hwrite : writeItems writers vs = .ok items)
    (hread : exact → readItems readers items = .ok (vs, [])) :
    ∃ t, writeRecord writers (.list vs) = .ok t ∧ (exact → readRecord readers t = .ok (.list vs)) := by
  refine ⟨Items.write '(' ')' items, by rw [writeRecord, if_neg (not_not.2 hlength), hwrite]; rfl,
    fun hexact => ?_⟩
  have hopen (body : Text) : readOpening '(' (ofChar '(' :: body) = .ok body := rfl
  rw [readRecord, Items.write_eq, hopen, ok_bind, Items.scan_spell closes_round]
  dsimp only
  rw [hread hexact]
  rfl

/-- What may stand behind a part of an identity. -/
def Follows (rest : Text) : Prop := ∀ b ∈ rest.head?, b = ofChar '.' ∨ b = ofChar ')'

lemma Follows.skipSpaces (h : Follows rest) : skipSpaces rest = rest :=
  skipSpaces_eq_self fun b hb => by obtain rfl | rfl := h b hb <;> decide

/-- A part that is written and read back in front of what may stand behind it. -/
structure PartReadsBack (read : Text → Except Fault (Value × Text)) (t : Text) (v : Value) : Prop where
  skip : ∀ rest, Follows rest → skipSpaces (t ++ rest) = t ++ rest
  read : ∀ rest, Follows rest → read (t ++ rest) = .ok (v, rest)

lemma isSpace_of_isLabelByte {b : Byte} (h : isLabelByte b) : isSpace b = false ∧ b ≠ ofChar '\'' := by
  have hall : ∀ n : Fin 256, isLabelByte (.ofFin n) →
      isSpace (.ofFin n) = false ∧ UInt8.ofFin n ≠ ofChar '\'' := by decide +kernel
  exact hall b.toFin h

lemma readsBack_label {label : Text} (hw : writer v = .ok label) : ∃ t, writeLabel writer v = .ok t ∧
    (reader label = .ok v → PartReadsBack (readPart reader none) t v) := by
  rw [writeLabel, hw]
  refine ⟨_, rfl, fun hr => ?_⟩
  have hread {t : Text} {rest : Text} (h : readLabel (t ++ rest) = .ok (label, rest)) :
      readPart reader none (t ++ rest) = .ok (v, rest) := by
    rw [readPart, h, ok_bind]
    dsimp only
    rw [hr]
    rfl
  split
  next hplain =>
    obtain ⟨hne, hall⟩ := Bool.and_eq_true_iff.1 hplain
    cases label with
    | nil => cases hne
    | cons b r =>
      have hbytes := all_eq_true.1 hall
      obtain ⟨hspace, hquote⟩ := isSpace_of_isLabelByte (hbytes b mem_cons_self)
      refine ⟨fun rest _ => skipSpaces_eq_self fun c hc => Option.mem_some.1 hc ▸ hspace, fun rest hrest => hread ?_⟩
      have hspan := takeWhile_append_of_all hbytes (r := rest) fun c hc => by
        obtain rfl | rfl := hrest c hc <;> decide
      rw [cons_append, readLabel, if_neg hquote, if_pos (hbytes b mem_cons_self), ← cons_append,
        hspan.1, hspan.2]
  next =>
    refine ⟨fun rest _ => rfl, fun rest hrest => hread ?_⟩
    have hscan := Text.Quoted.scan_escape label (r := rest) (q := '\'') fun c hc => by
      obtain rfl | rfl := hrest c hc <;> decide
    rw [Text.Quoted.encode, cons_append, append_assoc, singleton_append, readLabel, if_pos rfl, hscan]

/-- The texts of the parts, each behind a point. -/
def pointed (ts : List Text) : Text := ts.flatMap (ofChar '.' :: ·)

lemma join_cons (t : Text) (ts : List Text) : join "." (t :: ts) = t ++ pointed ts := by
  induction ts generalizing t with
  | nil => exact (append_nil t).symm
  | cons u ts ih =>
    rw [join, ih]
    rfl

lemma follows_pointed (h : Follows rest) (ts : List Text) : Follows (pointed ts ++ rest) := by
  cases ts with
  | nil => exact h
  | cons t ts => exact fun b hb => .inl (Option.mem_some.1 hb).symm

/-- Parts that are read back, with a point in front unless they are the first. -/
structure PartsReadBack (ds : List Domain) (ts : List Text) (vs : List Value) : Prop where
  skip : ∀ rest, Follows rest → skipSpaces (join "." ts ++ rest) = join "." ts ++ rest
  first : ∀ rest, Follows rest → readParts ds true (join "." ts ++ rest) = .ok (vs, rest)
  later : ∀ rest, Follows rest → readParts ds false (pointed ts ++ rest) = .ok (vs, rest)

lemma PartsReadBack.cons {ds : List Domain} {t : Text}
    (hs : PartsReadBack ds ts vs) (h : PartReadsBack (readPart (fun s => read d s) d.nestedParts) t v) :
    PartsReadBack (d :: ds) (t :: ts) (v :: vs) where
  skip rest hrest := by
    rw [join_cons, append_assoc]
    exact h.skip _ (follows_pointed hrest ts)
  first rest hrest := by
    have hfollows := follows_pointed hrest ts
    rw [join_cons, append_assoc, readParts_cons, if_pos rfl, h.skip _ hfollows, ok_bind, h.read _ hfollows,
      ok_bind, hs.later _ hrest]
    rfl
  later rest hrest := by
    have hfollows := follows_pointed hrest ts
    have hpoint (u : Text) : readByte '.' (skipSpaces (ofChar '.' :: u)) = .ok u := rfl
    rw [pointed, flatMap_cons, cons_append, cons_append, append_assoc, readParts_cons, if_neg nofun,
      hpoint]
    change (Except.ok (skipSpaces (t ++ (pointed ts ++ rest))) >>= _) = _
    rw [ok_bind, h.skip _ hfollows, h.read _ hfollows, ok_bind, hs.later _ hrest]
    rfl

lemma readsBack_nested {parts : List Domain} {nested : Writer} {several : Bool}
    (hw : nested (.list vs) = .ok (join "." ts)) (writer : Writer) (reader : Reader) :
    ∃ t, writePart writer (some (several, nested)) (.list vs) = .ok t ∧ (PartsReadBack parts ts vs →
      PartReadsBack (readPart reader (some (several, fun t => readParts parts true t))) t (.list vs)) := by
  cases several with
  | false =>
    refine ⟨_, hw, fun h => ⟨h.skip, fun rest hrest => ?_⟩⟩
    rw [readPart, h.first rest hrest]
    rfl
  | true =>
    refine ⟨"(" ++ join "." ts ++ ")", ?_, fun h => ⟨fun rest _ => rfl, fun rest _ => ?_⟩⟩
    · change (nested (.list vs) >>= _) = _
      rw [hw]
      rfl
    have hclose : Follows (ofString ")" ++ rest) := fun b hb => .inr (Option.mem_some.1 hb).symm
    have hopen (u : Text) : readByte '(' (ofString "(" ++ u) = .ok u := rfl
    rw [append_assoc, append_assoc, readPart, hopen, ok_bind, h.first _ hclose]
    rfl

lemma writeIdentity_eq (hlength : vs.length = writers.length) (h : writeParts writers vs = .ok ts) :
    writeIdentity writers (.list vs) = .ok (join "." ts) := by
  rw [writeIdentity, if_neg (not_not.2 hlength), h]
  rfl

lemma nestedWriter_of_nestedParts (h : d.nestedParts = none) : d.nestedWriter = none := by
  cases d with
  | identity parts => rw [nestedParts] at h; cases h
  | _ => rw [nestedWriter]; exact nofun

end Writing

mutual

/-- No floating-point numbers anywhere. -/
def isExact : Domain → Bool
  | float => false
  | list item => item.isExact
  | record fields => fieldsExact fields
  | identity parts => partsExact parts
  | _ => true

def fieldsExact : List (Text × Domain) → Bool
  | [] => true
  | f :: fs => fieldExact f && fieldsExact fs

def fieldExact : Text × Domain → Bool
  | (_, d) => d.isExact

def partsExact : List Domain → Bool
  | [] => true
  | d :: ds => d.isExact && partsExact ds

end

variable {d : Domain}

lemma isNull_of_ranges (h : d.Ranges v) : v.isNull = false := by
  cases v with
  | null => cases d <;> rw [Ranges] at h <;> exact h.elim
  | _ => rfl

lemma exists_write_readScalar (h : d.Ranges v) (hv : ∀ vs, v ≠ .list vs) :
    ∃ t, d.write v = .ok t ∧ (d.isExact → d.read t = .ok v) := by
  cases v with
  | null => cases isNull_of_ranges h
  | list vs => exact absurd rfl (hv vs)
  | boolean b =>
    cases d with
    | boolean => exact ⟨_, rfl, fun _ => by rw [read]; cases b <;> rfl⟩
    | _ => exact h.elim
  | integer n =>
    cases d with
    | integer => exact ⟨_, rfl, fun _ => by rw [read, readInteger_ofInt]⟩
    | _ => exact h.elim
  | float x =>
    cases d with
    | float => exact ⟨_, rfl, nofun⟩
    | _ => exact h.elim
  | decimal x =>
    cases d with
    | decimal => exact ⟨_, rfl, fun _ => by rw [read, readDecimal, Decimal.read_write h]⟩
    | _ => exact h.elim
  | text t =>
    cases d with
    | untyped | text | external => exact ⟨t, rfl, fun _ => by rw [read]⟩
    | enum labels => exact ⟨t, rfl, fun _ => by rw [read, readEnum, if_pos (contains_iff_mem.2 h)]⟩
    | _ => exact h.elim
  | date x =>
    cases d with
    | date => exact ⟨_, rfl, fun _ => by rw [read, readDate_write h]⟩
    | _ => exact h.elim
  | time t =>
    cases d with
    | time => exact ⟨_, rfl, fun _ => by rw [read, readTime_write h]⟩
    | _ => exact h.elim
  | dateTime t =>
    cases d with
    | dateTime => exact ⟨_, rfl, fun _ => by rw [read, readDateTime_write h.1 h.2]⟩
    | _ => exact h.elim

mutual

/-- Every value of a domain has a text, which is read back if the domain is exact. -/
theorem exists_write_read : ∀ (d : Domain) {v : Value}, d.Ranges v →
    ∃ t, d.write v = .ok t ∧ (d.isExact → d.read t = .ok v)
  | d, .list vs, h => by
    cases d with
    | list item =>
      obtain ⟨t, hw, hr⟩ := exists_readList fun v hv => readsBack_of (h v hv)
        fun h => ⟨isNull_of_ranges h, exists_write_read item h⟩
      exact ⟨t, hw, fun hd => by rw [read, hr hd]⟩
    | record fields =>
      obtain ⟨items, hlength, hwrite, hread⟩ := exists_readItems fields h
      obtain ⟨t, hw, hr⟩ := exists_readRecord hlength hwrite hread
      exact ⟨t, hw, fun hd => by rw [read, hr hd]⟩
    | identity parts =>
      obtain ⟨ts, hlength, hts, hreads⟩ := exists_readParts parts h
      refine ⟨_, writeIdentity_eq hlength hts, fun hd => ?_⟩
      have hread := (hreads hd).first [] nofun
      rw [append_nil] at hread
      rw [read, hread]
      rfl
    | _ => exact h.elim
  | _, .null, h | _, .boolean _, h | _, .integer _, h | _, .float _, h | _, .decimal _, h
  | _, .text _, h | _, .date _, h | _, .time _, h | _, .dateTime _, h => exists_write_readScalar h nofun
termination_by d => (sizeOf d, 0)

lemma exists_readItems : ∀ (fs : List (Text × Domain)) {vs : List Value}, FieldsRange fs vs →
    ∃ items, vs.length = (fieldWriters fs).length ∧ writeItems (fieldWriters fs) vs = .ok items ∧
      (fieldsExact fs → readItems (fieldReaders fs) items = .ok (vs, []))
  | [], [], _ => ⟨[], rfl, rfl, fun _ => rfl⟩
  | [], _ :: _, h | _ :: _, [], h => h.elim
  | (name, d) :: fs, v :: vs, h => by
    obtain ⟨i, hi, hv⟩ := readsBack_of h.1 fun h => ⟨isNull_of_ranges h, exists_write_read d h⟩
    obtain ⟨items, hlength, hwrite, hread⟩ := exists_readItems fs h.2
    rw [fieldWriters, fieldReaders, fieldWriter, fieldReader]
    refine ⟨i :: items, congrArg (· + 1) hlength, ?_, fun hd => ?_⟩
    · rw [writeItems, hi, ok_bind, hwrite]
      rfl
    · obtain ⟨hd, hfs⟩ := Bool.and_eq_true_iff.1 hd
      rw [readItems, hv hd, ok_bind, hread hfs]
      rfl
termination_by fs => (sizeOf fs, 0)

lemma exists_readParts : ∀ (ds : List Domain) {vs : List Value}, PartsRange ds vs →
    ∃ ts, vs.length = (partWriters ds).length ∧ writeParts (partWriters ds) vs = .ok ts ∧
      (partsExact ds → PartsReadBack ds ts vs)
  | [], [], _ => ⟨[], rfl, rfl, fun _ => ⟨fun _ h => h.skipSpaces, fun _ _ => by rw [readParts]; rfl,
    fun _ _ => by rw [readParts]; rfl⟩⟩
  | [], _ :: _, h | _ :: _, [], h => h.elim
  | d :: ds, v :: vs, h => by
    obtain ⟨t, ht, hread⟩ := exists_readPart d h.1
    obtain ⟨ts, hlength, hts, hreads⟩ := exists_readParts ds h.2
    rw [partWriters]
    refine ⟨t :: ts, congrArg (· + 1) hlength, ?_, fun hd => ?_⟩
    · rw [writeParts, ht, ok_bind, hts]
      rfl
    · obtain ⟨hd, hds⟩ := Bool.and_eq_true_iff.1 hd
      exact (hreads hds).cons (hread hd)
termination_by ds => (sizeOf ds, 0)

lemma exists_readPart : ∀ (d : Domain) {v : Value}, d.Ranges v →
    ∃ t, writePart (fun v => write d v) d.nestedWriter v = .ok t ∧
      (d.isExact → PartReadsBack (readPart (fun s => read d s) d.nestedParts) t v)
  | d, v, h => by
    obtain hnone | ⟨parts, rfl, hparts⟩ := d.nestedParts_cases
    · obtain ⟨label, hw, hr⟩ := exists_write_read d h
      obtain ⟨t, ht, hread⟩ := readsBack_label hw
      rw [hnone, nestedWriter_of_nestedParts hnone]
      exact ⟨t, ht, fun hd => hread (hr hd)⟩
    · cases v with
      | list vs =>
        obtain ⟨ts, hlength, hts, hreads⟩ := exists_readParts parts h
        obtain ⟨t, ht, hread⟩ := readsBack_nested (writeIdentity_eq hlength hts) _ _
        exact ⟨t, ht, fun hd => hread (hreads hd)⟩
      | _ => exact h.elim
termination_by d => (sizeOf d, 1)

end

lemma exists_read_write (d : Domain) {v : Value} (hd : d.isExact) (h : d.Ranges v) :
    ∃ t, d.write v = .ok t ∧ d.read t = .ok v :=
  (exists_write_read d h).imp fun _ ht => ⟨ht.1, ht.2 hd⟩

/-- Every value of a domain without floating-point numbers is read back from its text, and so is every value
that a text spells. -/
theorem write_read_round_trip {d : Domain} (hd : d.isExact = true) :
    (∀ v, d.Ranges v → ∃ t, d.write v = .ok t ∧ d.read t = .ok v) ∧
      ∀ t v, d.read t = .ok v → ∃ u, d.write v = .ok u ∧ d.read u = .ok v :=
  ⟨fun _ => exists_read_write d hd, fun _ _ h => exists_read_write d hd (ranges_of_read d h)⟩

/-- A record with a nested identity and a list of nullable decimals. -/
theorem write_read_round_trip_nested :
    let d : Domain := .record [("key", .identity [.text, .identity [.integer, .date]]), ("rest", .list .decimal)]
    let v : Value := .list [.list [.text "it's", .list [.integer (-7), .date ⟨2024, 2, 29⟩]],
      .list [.decimal ⟨-5, 3⟩, .null]]
    d.isExact = true ∧ ∃ t, d.write v = .ok t ∧ d.read t = .ok v := by
  refine ⟨rfl, (write_read_round_trip rfl).1 _ ?_⟩
  refine ⟨.inr ⟨trivial, ⟨trivial, ⟨by decide, by decide, by decide⟩, trivial⟩, trivial⟩, .inr ?_, trivial⟩
  exact forall_mem_cons.2 ⟨.inr (show 0 ≤ (3 : Int) by decide), forall_mem_singleton.2 (.inl rfl)⟩

end Domain

end NavQuery
