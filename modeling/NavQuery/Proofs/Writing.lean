import NavQuery.Proofs.Slots

/-!
A statement is compared with the one in which literals stand in place of the parameters: `Agrees` runs a
writer for each of the two side by side.
-/

namespace NavQuery

namespace Statement

def Draft.bare (d : Draft) : Draft := { d with placeholders := [] }

def register (dialect : Dialect) (l : List Placeholder) (s : Slot) : List Placeholder :=
  if dialect = .pgsql ∧ (l.find? (·.name == s.name)).isSome = true then l
  else l ++ [⟨l.length, s.name, s.domain⟩]

def registerAll (dialect : Dialect) (l : List Placeholder) (slots : List Slot) : List Placeholder :=
  slots.foldl (register dialect) l

def number (dialect : Dialect) (l : List Placeholder) (s : Slot) : Option Nat :=
  match dialect with
  | .pgsql => (l.find? (·.name == s.name)).map (·.index + 1)
  | _ => none

lemma prefix_register (dialect : Dialect) (l : List Placeholder) (s : Slot) :
    l <+: register dialect l s := by
  unfold register
  split
  · exact List.prefix_rfl
  · exact List.prefix_append l _

lemma prefix_registerAll (dialect : Dialect) (l : List Placeholder) (slots : List Slot) :
    l <+: registerAll dialect l slots := by
  induction slots generalizing l with
  | nil => exact List.prefix_rfl
  | cons s slots ih => exact (prefix_register dialect l s).trans (ih _)

def Agrees {α β : Type} (dialect : Dialect) (w : Writing α) (w' : Writing β) (written : List Slot)
    (R : (Slot → Option Nat) → α → β → Prop) : Prop :=
  ∀ d a d', w d = .ok (a, d') → d'.placeholders = registerAll dialect d.placeholders written ∧
    ∃ b, w' d.bare = .ok (b, d'.bare) ∧ ∀ l, d'.placeholders <+: l → R (number dialect l) a b

section Agrees

variable {α β γ δ : Type} {dialect : Dialect} {S U : List Slot}
  {R : (Slot → Option Nat) → α → β → Prop} {Q : (Slot → Option Nat) → γ → δ → Prop}

lemma agrees_pure {a : α} {b : β} (h : ∀ mark, R mark a b) : Agrees dialect (pure a) (pure b) [] R := by
  rintro d _ _ ⟨⟩
  exact ⟨rfl, b, rfl, fun l _ => h _⟩

lemma agrees_throw (e : Error) (w' : Writing β) : Agrees dialect (throw e : Writing α) w' S R := nofun

lemma agrees_lift {x : Result α} {R : (Slot → Option Nat) → α → α → Prop}
    (h : ∀ a, x = .ok a → ∀ mark, R mark a a) :
    Agrees dialect (liftM x : Writing α) (liftM x : Writing α) [] R := by
  intro d a d' hx
  cases x with
  | error => cases hx
  | ok a =>
    cases hx
    exact ⟨rfl, _, rfl, fun l _ => h _ rfl _⟩

variable {w : Writing α} {k' : β → Writing δ} {k : α → Writing γ} {w' : Writing β}

lemma Agrees.bind (hw : Agrees dialect w w' S R)
    (hk : ∀ a b, Agrees dialect (k a) (k' b) U fun mark c c' => R mark a b → Q mark c c') :
    Agrees dialect (w >>= k) (w' >>= k') (S ++ U) Q := by
  intro d c d' h
  obtain ⟨a, e, ha, h⟩ := exists_of_run_bind_eq_ok h
  obtain ⟨hS, b, hb, hR⟩ := hw d a e ha
  obtain ⟨hU, c', hc', hQ⟩ := hk a b e c d' h
  refine ⟨by rw [hU, hS, registerAll, registerAll, registerAll, List.foldl_append], c', ?_, fun l hl => ?_⟩
  · rw [run_bind_eq_ok hb, hc']
  · exact hQ l hl (hR l ((hU ▸ prefix_registerAll dialect e.placeholders U).trans hl))

lemma Agrees.nil_bind (hw : Agrees dialect w w' [] R)
    (hk : ∀ a b, Agrees dialect (k a) (k' b) U fun mark c c' => R mark a b → Q mark c c') :
    Agrees dialect (w >>= k) (w' >>= k') U Q :=
  hw.bind hk

lemma Agrees.bind_nil (hw : Agrees dialect w w' S R)
    (hk : ∀ a b, Agrees dialect (k a) (k' b) [] fun mark c c' => R mark a b → Q mark c c') :
    Agrees dialect (w >>= k) (w' >>= k') S Q :=
  List.append_nil S ▸ hw.bind hk

lemma Agrees.map {f : α → γ} {f' : β → δ}
    (hw : Agrees dialect w w' S R) (h : ∀ mark a b, R mark a b → Q mark (f a) (f' b)) :
    Agrees dialect (do return f (← w)) (do return f' (← w')) S Q :=
  hw.bind_nil fun a b => agrees_pure fun mark => h mark a b

end Agrees

variable (dialect : Dialect) (lit : Slot → Text)

/-- The first writer writes markers for the slots, the second one literals. -/
def Writes (w w' : Writing Text) (S : Pass → List Slot) : Prop :=
  Agrees dialect w w' (S .writing) fun mark => Fills mark lit (S .reading)

def WritesEach (w w' : Writing (List Text)) (S : Pass → List (List Slot)) : Prop :=
  Agrees dialect w w' (S .writing).flatten fun mark => FillsEach mark lit (S .reading)

variable {dialect lit}

lemma find?_register (dialect : Dialect) (l : List Placeholder) (s : Slot) :
    ∃ p, (register dialect l s).find? (·.name == s.name) = some p := by
  rw [← Option.isSome_iff_exists, register]
  split
  · rename_i h
    exact h.2
  · simp

variable {s : Slot}

lemma number_of_prefix {l m : List Placeholder} (h : register dialect l s <+: m) :
    number dialect m s = number dialect (register dialect l s) s := by
  cases dialect with
  | ansi | sqlite => rfl
  | pgsql =>
    obtain ⟨p, hp⟩ := find?_register .pgsql l s
    obtain ⟨r, rfl⟩ := h
    rw [number, number, List.find?_append, hp]
    rfl

def markerText : Option Nat → Text
  | none => "?"
  | some n => "$" ++ Text.ofNat n

lemma run_writePlaceholder (dialect : Dialect) (s : Slot) (d : Draft) :
    writePlaceholder dialect s.domain s.name d =
      .ok (markerText (number dialect (register dialect d.placeholders s) s),
        { d with placeholders := register dialect d.placeholders s }) := by
  cases dialect with
  | ansi | sqlite => simp [register, number, markerText]; rfl
  | pgsql =>
    cases hp : d.placeholders.find? (·.name == s.name) with
    | none =>
      simp [writePlaceholder, bind, StateT.bind, Except.bind, pure, Except.pure, get, getThe,
        MonadStateOf.get, StateT.get, hp, register, number, markerText]
      rfl
    | some p =>
      simp [writePlaceholder, bind, StateT.bind, Except.bind, pure, Except.pure, get, getThe,
        MonadStateOf.get, StateT.get, hp, register, number, markerText]
      rfl

lemma fills_markerText {mark : Slot → Option Nat} : Fills mark lit [s] (markerText (mark s)) (lit s) := by
  cases h : mark s with
  | none => exact fills_marker h
  | some n => exact fills_numbered h

lemma writes_placeholder {v : Value} (hlit : writeLiteral dialect s.domain v = .ok (lit s)) :
    Writes dialect lit (writePlaceholder dialect s.domain s.name) (liftM (writeLiteral dialect s.domain v))
      fun _ => [s] := by
  intro d a d' h
  rw [run_writePlaceholder] at h
  cases h
  refine ⟨rfl, lit s, by rw [hlit]; rfl, fun l hl => ?_⟩
  rw [← number_of_prefix hl]
  exact fills_markerText

section Texts

variable {w w' v v' : Writing Text} {S U : Pass → List Slot} {q r : Text}

lemma Writes.congr (h : Writes dialect lit w w' S) (hS : ∀ pass, U pass = S pass) :
    Writes dialect lit w w' U :=
  funext hS ▸ h

lemma writes_quiet (hq : Quiet q) : Writes dialect lit (pure q) (pure q) fun _ => [] :=
  agrees_pure fun _ => fills_quiet hq

lemma Writes.map {f : Text → Text} (h : Writes dialect lit w w' S)
    (hf : ∀ mark t t', Fills mark lit (S .reading) t t' → Fills mark lit (S .reading) (f t) (f t')) :
    Writes dialect lit (do return f (← w)) (do return f (← w')) S :=
  Agrees.map h hf

lemma Writes.pair {f : Text → Text → Text} (h : Writes dialect lit w w' S) (h' : Writes dialect lit v v' U)
    (hf : ∀ mark t t' u u', Fills mark lit (S .reading) t t' → Fills mark lit (U .reading) u u' →
      Fills mark lit (S .reading ++ U .reading) (f t u) (f t' u')) :
    Writes dialect lit (do return f (← w) (← v)) (do return f (← w') (← v')) fun pass => S pass ++ U pass :=
  h.bind fun t t' => Agrees.map h' fun mark u u' hu ht => hf mark t t' u u' ht hu

lemma Writes.enclose (h : Writes dialect lit w w' S) (hq : Quiet q) (hr : Quiet r) (hfree : isFree r) :
    Writes dialect lit (do return q ++ (← w) ++ r) (do return q ++ (← w') ++ r) S :=
  h.map fun _ _ _ ht => (ht.quiet_append hq).append_quiet hr hfree

end Texts

section Operands

variable {α : Type} {w v : α → Operand} {S : α → Pass → List Slot} {as : List α}
  (h : ∀ a ∈ as, ∀ nested, Writes dialect lit (w a nested) (v a nested) (S a)) {q : Text}

include h

lemma writesEach_operands (nested : Bool) :
    WritesEach dialect lit (writeEach nested (as.map w)) (writeEach nested (as.map v))
      fun pass => as.map (S · pass) := by
  induction as with
  | nil => exact agrees_pure fun _ => .nil
  | cons a as ih =>
    rw [List.forall_mem_cons] at h
    exact (h.1 nested).bind fun t t' => (ih h.2).map fun mark ts ts' hts ht => .cons ht hts

lemma writes_infix (nested : Bool) (hq : Quiet q) (hsep : separates q) :
    Writes dialect lit (writeInfix nested q (as.map w)) (writeInfix nested q (as.map v))
      fun pass => ((as.map (S · pass)).take 2).flatten := by
  match as with
  | [] | [_] => exact agrees_throw _ _
  | a :: b :: as =>
    have hpair := (h a (by simp) true).pair (h b (by simp) true) fun mark t t' u u' ht hu =>
      (ht.between hq hsep hu).wrap nested
    exact hpair.congr fun pass => by simp

lemma writes_joined {f : Text → Text} (nested : Bool) (hq : Quiet q) (hsep : separates q)
    (hf : ∀ mark S t t', Fills mark lit S t t' → Fills mark lit S (f t) (f t')) :
    Writes dialect lit (do return f (Text.join q (← writeEach nested (as.map w))))
      (do return f (Text.join q (← writeEach nested (as.map v)))) fun pass => (as.map (S · pass)).flatten :=
  (writesEach_operands h nested).map fun mark _ _ hts => hf mark _ _ _ (fills_join hts hq hsep)

lemma writes_call {name : Text} (hname : Calm name) :
    Writes dialect lit (writeCall name (as.map w)) (writeCall name (as.map v))
      fun pass => (as.map (S · pass)).flatten :=
  writes_joined h false (quiet_of_all (by decide)) (by decide) fun mark S t t' ht =>
    (ht.quiet_append ((quiet_of_forall hname).append (quiet_of_all (by decide)))).append_quiet
      (quiet_of_all (by decide)) (by decide)

lemma writes_membership {f : Operator} (hkind : f.kind = .isIn) (nested positive : Bool) :
    Writes dialect lit (writeMembership nested positive (as.map w))
      (writeMembership nested positive (as.map v)) fun pass =>
        (f.written pass (as.map (S · pass))).flatten := by
  match as with
  | [] => exact agrees_throw _ _
  | a :: as =>
    rw [List.forall_mem_cons] at h
    let word : Text := if positive then " IN (" else " NOT IN ("
    have hword : Quiet word ∧ separates word := by
      cases positive <;> exact ⟨quiet_of_all (by decide), by decide⟩
    have hwritten : (f.written .writing ((a :: as).map (S · .writing))).flatten =
        (as.map (S · .writing)).flatten ++ S a .writing := by simp [Operator.written, hkind]
    have hread : (f.written .reading ((a :: as).map (S · .reading))).flatten =
        S a .reading ++ (as.map (S · .reading)).flatten := by simp [Operator.written, hkind]
    unfold Writes
    beta_reduce
    rw [hwritten, hread]
    refine (writesEach_operands h.2 false).bind fun ts ts' => Agrees.map (h.1 true) fun mark t t' ht hts => ?_
    have hitems := fills_join hts (q := ", ") (quiet_of_all (by decide)) (by decide)
    exact ((ht.between hword.1 hword.2 hitems).append_quiet (quiet_of_all (by decide)) (by decide)).wrap nested

lemma writes_prefixed (nested : Bool) (hq : Quiet q) :
    Writes dialect lit (writePrefixed nested q (as.map w)) (writePrefixed nested q (as.map v))
      fun pass => ((as.map (S · pass)).take 1).flatten := by
  match as with
  | [] => exact agrees_throw _ _
  | a :: as =>
    have hmap := (h a (by simp) true).map fun mark t t' ht => (ht.quiet_append hq).wrap nested
    exact hmap.congr fun pass => by simp

lemma writes_nullTest (nested positive : Bool) :
    Writes dialect lit (writeNullTest nested positive (as.map w)) (writeNullTest nested positive (as.map v))
      fun pass => ((as.map (S · pass)).take 1).flatten := by
  match as with
  | [] => exact agrees_throw _ _
  | a :: as =>
    let word : Text := if positive then " IS NULL" else " IS NOT NULL"
    have hword : Quiet word ∧ isFree word := by
      cases positive <;> exact ⟨quiet_of_all (by decide), by decide⟩
    have hmap := (h a (by simp) true).map fun mark t t' ht => (ht.append_quiet hword.1 hword.2).wrap nested
    exact hmap.congr fun pass => by simp

lemma writes_like (nested positive : Bool) :
    Writes dialect lit (writeLike dialect nested positive (as.map w))
      (writeLike dialect nested positive (as.map v)) fun pass => ((as.map (S · pass)).take 2).flatten := by
  match as with
  | [] | [_] => exact agrees_throw _ _
  | a :: b :: as =>
    let negation : Text := if positive then " " else " NOT "
    let escape : Text := " ESCAPE " ++ quoteText "\\"
    have hnegation : Quiet negation ∧ separates negation := by
      cases positive <;> exact ⟨quiet_of_all (by decide), by decide⟩
    have hescape : Quiet escape := (quiet_of_all (by decide)).append (quiet_quoteText _)
    have hpair : ∀ isNested (f : Text → Text → Text), (∀ mark S U t t' u u', Fills mark lit S t t' →
        Fills mark lit U u u' → Fills mark lit (S ++ U) (f t u) (f t' u')) →
        Writes dialect lit (do return wrap nested (f (← w a isNested) (← w b isNested)))
          (do return wrap nested (f (← v a isNested) (← v b isNested))) fun pass =>
            (((a :: b :: as).map (S · pass)).take 2).flatten := by
      intro isNested f hf
      have hpair := (h a (by simp) isNested).pair (h b (by simp) isNested) fun mark t t' u u' ht hu =>
        (hf mark _ _ _ _ _ _ ht hu).wrap nested
      exact hpair.congr fun pass => by simp
    cases dialect with
    | ansi =>
      refine hpair false (fun t u => "LOWER(" ++ t ++ ")" ++ negation ++ "LIKE LOWER(" ++ u ++ ")" ++ escape)
        fun mark S U t t' u u' ht hu => ?_
      have hleft := (ht.quiet_append (q := "LOWER(") (quiet_of_all (by decide))).append_quiet (q := ")")
        (quiet_of_all (by decide)) (by decide)
      have hright := (hu.quiet_append (q := "LIKE LOWER(") (quiet_of_all (by decide))).append_quiet
        (q := ")" ++ escape) ((quiet_of_all (by decide)).append hescape) (by decide)
      simpa only [List.append_assoc] using hleft.between hnegation.1 hnegation.2 hright
    | pgsql =>
      refine hpair true (fun t u => t ++ negation ++ "ILIKE " ++ u ++ escape)
        fun mark S U t t' u u' ht hu => ?_
      have hright := (hu.quiet_append (q := "ILIKE ") (quiet_of_all (by decide))).append_quiet hescape (by decide)
      simpa only [List.append_assoc] using ht.between hnegation.1 hnegation.2 hright
    | sqlite =>
      refine hpair true (fun t u => t ++ negation ++ "LIKE " ++ u ++ escape)
        fun mark S U t t' u u' ht hu => ?_
      have hright := (hu.quiet_append (q := "LIKE ") (quiet_of_all (by decide))).append_quiet hescape (by decide)
      simpa only [List.append_assoc] using ht.between hnegation.1 hnegation.2 hright

lemma writes_formula {f : Operator} (hsymbol : f.kind = .compare → Calm f.symbol)
    (nested isSubquery : Bool) :
    Writes dialect lit (writeFormula dialect f nested isSubquery (as.map w))
      (writeFormula dialect f nested isSubquery (as.map v)) fun pass =>
        (f.written pass (as.map (S · pass))).flatten := by
  have hcall := fun (name : Text) (hname : name.all isQuiet) => writes_call h (calm_of_all hname)
  have hinfix := fun (q : Text) (hq : Quiet q ∧ separates q) => writes_infix h nested hq.1 hq.2
  have hplain := fun (q : Text) (hq : q.all isQuiet) (hsep : separates q) =>
    hinfix q ⟨quiet_of_all hq, hsep⟩
  have hsigned : ∀ x y : Text, x.all isQuiet → separates x → y.all isQuiet →
      separates y → Quiet (if !f.isNegative then x else y) ∧
        separates (if !f.isNegative then x else y) := by
    intro x y hx hx' hy hy'
    cases f.isNegative <;> exact ⟨quiet_of_all (by assumption), by assumption⟩
  unfold writeFormula
  cases hkind : f.kind <;> simp only [Operator.written, hkind]
  case isEqual => exact hinfix _ (hsigned _ _ (by decide) (by decide) (by decide) (by decide))
  case isTotallyEqual =>
    refine hinfix _ ?_
    unfold totalSymbol
    split <;> exact ⟨quiet_of_all (by decide), by decide⟩
  case isIn =>
    exact (writes_membership h hkind nested _).congr fun pass => by simp only [Operator.written, hkind]
  case isNull => exact writes_nullTest h nested _
  case compare =>
    have hblank : Quiet (Text.ofString " ") := quiet_of_all (by decide)
    exact hinfix _ ⟨(hblank.append (quiet_of_forall (hsymbol hkind))).append hblank, rfl⟩
  case and | or =>
    exact writes_joined h true (quiet_of_all (by decide)) (by decide) fun _ _ _ _ ht => ht.wrap nested
  case not | negate => exact writes_prefixed h nested (quiet_of_all (by decide))
  case add | subtract | multiply | divide | concat => exact hplain _ (by decide) (by decide)
  case like => exact writes_like h nested _
  case nullIf | ifNull | replace | count | sum | min | max | avg => exact hcall _ (by decide)
  case «exists» =>
    refine Agrees.nil_bind (R := fun _ _ _ => True) (agrees_lift fun _ _ _ => trivial) fun _ _ => ?_
    match as with
    | [] => exact agrees_throw _ _
    | a :: as =>
      have hword : Quiet (Text.ofString (if !f.isNegative then "EXISTS " else "NOT EXISTS ")) := by
        cases f.isNegative <;> exact quiet_of_all (by decide)
      simp only [List.map_cons, List.take_succ_cons, List.take_zero, List.flatten_singleton]
      exact Agrees.map (h a List.mem_cons_self false) fun mark t t' ht _ => ht.quiet_append hword
  case toPredicate | fromPredicate =>
    match as with
    | [] => exact agrees_throw _ _
    | a :: as => exact (h a (by simp) nested).congr fun pass => by simp

end Operands

end Statement

end NavQuery
