import Mathlib.Data.List.Infix
import NavQuery.Binding.OfExpr
import NavQuery.Frame.OfTerm
import NavQuery.Proofs.PhraseReduction
import NavQuery.Segment.Denotation

/-!
The pattern of a containment test matches the texts that have the operand in them, whether it is made at
once or by the engine. A parameter without a value is reduced to the empty text there, while the literal
null makes the test null.
-/

namespace NavQuery

open List Code Phrase Operator Byte Binding

namespace Text

def specials : List Byte := ['\\', '%', '_']

/-- Whether a text matches a pattern of LIKE, with the backslash as escape character; `escaped` says
whether a backslash stands in front of the pattern. -/
def like (escaped : Bool) : Text → Text → Bool
  | [], x => !escaped && x.isEmpty
  | b :: p, x =>
    if escaped || b ∉ specials then x.head? == some b && like false p x.tail
    else if b = '\\' then like true p x
    else if b = '%' then x.tails.any (like false p)
    else !x.isEmpty && like false p x.tail

/-- A text with each occurrence of another one replaced, from left to right. -/
def replace (old new : Text) : Text → Text
  | [] => []
  | b :: x =>
    if old ≠ [] ∧ old <+: b :: x then new ++ replace old new (x.drop (old.length - 1))
    else b :: replace old new x
termination_by x => x.length

lemma replace_singleton (c : Byte) (new x : Text) :
    replace [c] new x = x.flatMap fun b => if b = c then new else [b] := by
  induction x with
  | nil => rw [replace, flatMap_nil]
  | cons b x ih =>
    rw [replace, flatMap_cons, ← ih]
    by_cases h : c = b
    · simp [h]
    · simp [h, Ne.symm h]

def escapeByte (b : Byte) : Text :=
  if b ∈ specials then [ofChar '\\', b] else [b]

lemma containsPattern_eq (s : Text) :
    containsPattern s = ofChar '%' :: (s.flatMap escapeByte ++ [ofChar '%']) := by
  have hescape : (fun b : Byte => if specials.contains b then [ofChar '\\', b] else [b]) = escapeByte :=
    funext fun b => by simp [escapeByte]
  exact hescape ▸ rfl

lemma replace_replace_replace (s : Text) :
    replace [ofChar '_'] [ofChar '\\', ofChar '_'] (replace [ofChar '%'] [ofChar '\\', ofChar '%']
      (replace [ofChar '\\'] [ofChar '\\', ofChar '\\'] s)) = s.flatMap escapeByte := by
  simp only [replace_singleton, flatMap_assoc]
  refine congrArg (flatMap · s) (funext fun b => ?_)
  by_cases hslash : b = ofChar '\\'
  · subst hslash; decide
  · by_cases hpercent : b = ofChar '%'
    · subst hpercent; decide
    · by_cases hunder : b = ofChar '_'
      · subst hunder; decide
      · simp [escapeByte, specials, hslash, hpercent, hunder]

lemma like_percent {p x : Text} : like false (ofChar '%' :: p) x ↔ ∃ y, y <:+ x ∧ like false p y := by
  rw [like, if_neg (by decide), if_neg (by decide), if_pos rfl, any_eq_true]
  simp only [mem_tails]

lemma like_escapeByte (b : Byte) (p x : Text) :
    like false (escapeByte b ++ p) x = (x.head? == some b && like false p x.tail) := by
  unfold escapeByte
  split
  · next h =>
    rfl
  · next h => rw [singleton_append, like, if_pos (by simp [h])]

lemma like_escape_append {s p x : Text} :
    like false (s.flatMap escapeByte ++ p) x ↔ ∃ y, x = s ++ y ∧ like false p y := by
  induction s generalizing x with
  | nil => simp
  | cons b s ih =>
    rw [flatMap_cons, append_assoc, like_escapeByte]
    cases x with
    | nil => simp
    | cons c x =>
      grind

lemma like_containsPattern_iff (s x : Text) : like false (containsPattern s) x ↔ s <:+: x := by
  have hrest (y : Text) : like false [ofChar '%'] y :=
    like_percent.2 ⟨[], nil_suffix, rfl⟩
  rw [containsPattern_eq, like_percent]
  simp only [like_escape_append, hrest, and_true, infix_iff_prefix_suffix]
  constructor
  · rintro ⟨z, hz, y, rfl⟩
    exact ⟨s ++ y, prefix_append s y, hz⟩
  · rintro ⟨z, ⟨y, rfl⟩, hz⟩
    exact ⟨_, hz, y, rfl⟩

end Text

namespace Phrase

/-- A text with a backslash in front of each occurrence of another one, which REPLACE computes. -/
def escaped (d : Domain) (p : Phrase) (t : Text) : Phrase :=
  .ofFormula d (.plain .replace) [p, .ofValue d (.text t), .ofValue d (.text ("\\" ++ t))]

def pattern (d : Domain) (p : Phrase) : Phrase :=
  let percent : Phrase := .ofValue d (.text "%")
  let opened : Phrase :=
    .ofFormula d (.plain .concat) [percent, escaped d (escaped d (escaped d p "\\") "%") "_"]
  .ofFormula d (.plain .concat) [opened, percent]

end Phrase

lemma Code.evaluate_patternOf (mark : Mark) {c : Code} (hc : ∀ m d v, c ≠ .literal m d v) :
    ∃ p, patternOf mark c = .ok p ∧ ∀ g l q, c.evaluate g l = .ok q →
      p.evaluate g l = .ok (Phrase.pattern c.domain q) := by
  cases c with
  | literal m d v => exact absurd rfl (hc m d v)
  | _ =>
    refine ⟨_, rfl, fun g l q hq => ?_⟩
    simp only [evaluate, evaluateAll] at hq ⊢
    rw [hq]
    rfl

namespace Interpretation

variable {V : Type}

/-- An engine with the REPLACE and the concatenation of SQL. -/
structure Textual (I : Interpretation V) : Prop where
  replace : ∀ s old new : Text,
    I.operate (.plain .replace) [I.literal (.text s), I.literal (.text old), I.literal (.text new)] =
      I.literal (.text (Text.replace old new s))
  replace_null : ∀ v w, I.operate (.plain .replace) [I.null, v, w] = I.null
  concat : ∀ s t : Text, I.concat [I.literal (.text s), I.literal (.text t)] = I.literal (.text (s ++ t))

variable [DecidableEq V] {I : Interpretation V} {p : Phrase} {k : Scene V}

lemma filled_text (t : Text) : I.filled (I.literal (.text t)) = I.literal (.text t) :=
  if_neg fun h => by cases I.literal_eq_null _ h

lemma value_escaped (d : Domain) (t : Text) : I.value (p.escaped d t) k = I.operate (.plain .replace)
      [I.value p k, I.literal (.text t), I.literal (.text ("\\" ++ t))] := by
  simp [Phrase.escaped, Phrase.ofFormula, value_formula, plain, isAggregate, apply,
    isNullRegular, ofValue, value]

lemma value_concat (d : Domain) (n : Bool) (p q : Phrase) :
    I.value (.formula d n (.plain .concat) [p, q]) k =
      I.concat [I.filled (I.value p k), I.filled (I.value q k)] := by
  simp [value_formula, plain, isAggregate, apply]

namespace Textual

variable (hI : I.Textual) {s : Text}
include hI

lemma value_escaped (h : I.value p k = I.literal (.text s)) (d : Domain) :
    I.value (((p.escaped d "\\").escaped d "%").escaped d "_") k =
      I.literal (.text (s.flatMap Text.escapeByte)) := by
  simp only [Interpretation.value_escaped, h, hI.replace]
  exact congrArg (fun t => I.literal (.text t)) (Text.replace_replace_replace s)

lemma value_enclosed (d d' : Domain) (n n' : Bool)
    (h : I.filled (I.value p k) = I.literal (.text (s.flatMap Text.escapeByte))) :
    I.value (.formula d n (.plain .concat)
      [.formula d n' (.plain .concat) [.ofValue d' (.text "%"), p], .ofValue d' (.text "%")]) k =
        I.literal (.text (containsPattern s)) := by
  have hpercent : I.value (.ofValue d' (.text "%")) k = I.literal (.text "%") := rfl
  rw [value_concat, value_concat, hpercent, h]
  simp only [filled_text, hI.concat]
  rw [Text.containsPattern_eq]
  rfl

lemma value_pattern (h : I.value p k = I.literal (.text s)) (d : Domain) :
    I.value (p.pattern d) k = I.literal (.text (containsPattern s)) := by
  refine hI.value_enclosed d d _ _ ?_
  rw [hI.value_escaped h, filled_text]

end Textual

/-- Reducing puts a default behind what the REPLACE of a parameter gives, so that the pattern of a
parameter without a value is that of the empty text. -/
theorem exists_reduce_pattern_parameter (s : Substitutes) (n : Text) :
    ∃ q, s.reduce (Phrase.pattern .text (.parameter .text n)) = .ok q ∧
      ∀ (I : Interpretation V), I.Textual → ∀ (k : Scene V) (t : Text),
        (I.parameter .text n = I.literal (.text t) ∨ I.parameter .text n = I.null ∧ t = []) →
          I.value q k = I.literal (.text (containsPattern t)) := by
  let percent : Phrase := .ofValue .text (.text "%")
  let guarded : Phrase := .formula .text false (.plain .ifNull)
    [(((Phrase.parameter .text n).escaped .text "\\").escaped .text "%").escaped .text "_",
      .ofValue .text (.text [])]
  refine ⟨.formula .text false (.plain .concat)
    [.formula .text false (.plain .concat) [percent, guarded], percent], rfl, fun I hI k t h => ?_⟩
  have hguarded : I.value guarded k = I.literal (.text (t.flatMap Text.escapeByte)) := by
    rw [value_guarded]
    obtain h | ⟨h, rfl⟩ := h
    · rw [hI.value_escaped (p := .parameter .text n) h, filled_text]
    · simp only [Interpretation.value_escaped, value, h, hI.replace_null]
      exact if_pos rfl
  refine hI.value_enclosed .text .text false false ?_
  rw [hguarded, filled_text]

lemma value_fromPredicate_regular {f : Operator} (hf : f.kind = .like) (d : Domain) (m n : Bool)
    (as : List Phrase) :
    I.value (reduceFormula d n (.plain .fromPredicate) [regular d m f as]) k =
      I.value (.formula d m f as) k := by
  have hunder : (regular d m f as).under? .toPredicate = none := by
    refine Option.eq_none_iff_forall_ne_some.2 fun a ha => ?_
    obtain ⟨_, _, g, _, h, hg⟩ := exists_of_under? ha
    unfold regular at h
    split at h <;> cases h
    simp [hf] at hg
  have hvalue : I.value (regular d m f as) k = I.value (.formula d m f as) k :=
    value_regular (by simp [hf])
  simp only [reduceFormula, plain, reduceConversion, hunder]
  split
  · exact hvalue
  · rw [value_regular (by simp), value_conversion (.inr rfl), hvalue]

lemma exists_reduce_like {f : Operator} (hf : f.kind = .like) {s : Substitutes} {p q p' q' : Phrase}
    (hp : s.reduce p = .ok p') (hq : s.reduce q = .ok q') (d : Domain) :
    ∃ r, s.reduce (.ofFormula d f [p, q]) = .ok r ∧ ∀ (I : Interpretation V) (k : Scene V),
      I.value r k = I.apply f [I.value p' k, I.value q' k] := by
  have hrule (m : Bool) (as : List Phrase) : reduceFormula d m f as = regular d m f as := by
    simp [reduceFormula, hf]
  unfold Substitutes.reduce at hp hq ⊢
  simp only [Phrase.ofFormula, hf, fromPredicate, reduceWith, reduceAllWith, hp, hq, hrule]
  refine ⟨_, rfl, fun I k => (value_fromPredicate_regular hf d _ _ _).trans ?_⟩
  simp [value_formula, isAggregate, hf]

lemma apply_like_eq_null_iff {polarity : Int} {v w : V} :
    I.apply (.polar .like polarity) [v, w] = I.null ↔ v = I.null ∨ w = I.null := by
  have happly : I.apply (.polar .like polarity) [v, w] =
      if I.null ∈ [v, w] then I.null else I.operate (.polar .like polarity) [v, w] := by
    simp [apply, polar, isNullRegular]
  rw [happly]
  split
  · next h => simpa [eq_comm] using h
  · next h =>
    refine iff_of_false (I.operate_ne_null _ _ h) ?_
    simpa [eq_comm] using h

lemma encode_containmentOf {x y scope : Binding} {c b q : Code}
    (hx : (x.inDomain .text).encode = .ok c) (hy : (y.inDomain .text).encode = .ok b) {mark : Mark}
    (hq : b.patternOf mark = .ok q) (polarity : Int) (title : Text) :
    (containmentOf polarity x y scope mark title).encode =
      .ok (.formula mark .boolean (.polar .like polarity) [c, q]) := by
  simp only [containmentOf, formulaOf, encode, encodeAll, hx, hy]
  exact congrArg (fun r : Result Code => do
    return Code.formula mark .boolean (.polar .like polarity) [c, ← r]) hq

theorem value_containmentOf_parameter_iff {x scope : Binding} {c : Code}
    (hx : (x.inDomain .text).encode = .ok c) {d : Domain} (hd : d = .text ∨ d = .untyped) {v : Value}
    (hv : v = .null ∨ ∃ t, v = .text t) (polarity : Int) (n title title' : Text) (m m' mark : Mark) :
    ∃ asked written,
      (containmentOf polarity x (.parameter ⟨d, title, m⟩ n) scope mark title').encode = .ok asked ∧
      (containmentOf polarity x (literalOf v .untyped m' title) scope mark title').encode = .ok written ∧
      ∀ (g : Gate) (l : Ledger) (s : Substitutes) (p p' : Phrase), c.evaluate g l = .ok p →
        s.reduce p = .ok p' → ∃ q r, asked.evaluate g l >>= s.reduce = .ok q ∧
          written.evaluate g l >>= s.reduce = .ok r ∧
          ∀ (I : Interpretation V), I.Textual → I.parameter .text n = I.literal v → ∀ k : Scene V,
            I.value q k = I.value r k ↔ (v = .null → I.value p' k = I.null) := by
  obtain ⟨m₁, hparameter⟩ : ∃ m₁, ((Binding.parameter ⟨d, title, m⟩ n).inDomain .text).encode =
      .ok (.parameter m₁ .text n) := by
    obtain rfl | rfl := hd <;> exact ⟨_, rfl⟩
  obtain ⟨a, ha, hevaluate⟩ := evaluate_patternOf mark (c := .parameter m₁ .text n) (by simp)
  obtain ⟨b, m₂, w, hb, hw, hvw⟩ : ∃ b m₂ w,
      ((literalOf v .untyped m' title).inDomain .text).encode = .ok b ∧
      b.patternOf mark = .ok (.literal m₂ .text w) ∧
      (v = .null ∧ w = .null ∨ ∃ t, v = .text t ∧ w = .text (containsPattern t)) := by
    obtain rfl | ⟨t, rfl⟩ := hv
    · exact ⟨_, _, _, rfl, rfl, .inl ⟨rfl, rfl⟩⟩
    · exact ⟨_, _, _, rfl, rfl, .inr ⟨t, rfl, rfl⟩⟩
  refine ⟨_, _, encode_containmentOf hx hparameter ha polarity title',
    encode_containmentOf hx hb hw polarity title', fun g l s p p' hp hp' => ?_⟩
  obtain ⟨q, hq, hpattern⟩ := exists_reduce_pattern_parameter (V := V) s n
  obtain ⟨r, hr, hasked⟩ := exists_reduce_like (V := V) (f := .polar .like polarity) rfl hp' hq .boolean
  obtain ⟨r', hr', hwritten⟩ := exists_reduce_like (V := V) (f := .polar .like polarity) rfl hp'
    (q := .ofValue .text w) rfl .boolean
  refine ⟨r, r', ?_, ?_, fun I hI hn k => ?_⟩
  · simp only [evaluate, evaluateAll, hp, hevaluate g l _ rfl]
    exact hr
  · simp only [evaluate, evaluateAll, hp]
    exact hr'
  rw [hasked, hwritten, value]
  obtain ⟨rfl, rfl⟩ | ⟨t, rfl, rfl⟩ := hvw
  · rw [hpattern I hI k [] (.inr ⟨hn, rfl⟩), ← null, apply_like_eq_null_iff.2 (.inr rfl), apply_like_eq_null_iff]
    simp [literal_eq_null_iff, Value.isNull]
  · rw [hpattern I hI k t (.inl hn)]
    simp

theorem value_patternOf (mark : Mark) {c : Code} (hc : ∀ m d v, c ≠ .literal m d v) :
    (∀ s x, Text.like false (containsPattern s) x ↔ s <:+: x) ∧
      ∃ p, c.patternOf mark = .ok p ∧ ∀ g l q, c.evaluate g l = .ok q →
        ∃ r, p.evaluate g l = .ok r ∧ ∀ (I : Interpretation V), I.Textual → ∀ (k : Scene V) (s : Text),
          I.value q k = I.literal (.text s) → I.value r k = I.literal (.text (containsPattern s)) := by
  obtain ⟨p, hp, hevaluate⟩ := evaluate_patternOf mark hc
  exact ⟨Text.like_containsPattern_iff, p, hp, fun g l q hq =>
    ⟨_, hevaluate g l q hq, fun I hI k s h => hI.value_pattern h c.domain⟩⟩

/-- Values known only as null, as truth values or as texts, with one value of all parameters. -/
def wordy (v : Option (Bool ⊕ Text)) : Interpretation (Option (Bool ⊕ Text)) where
  literal
    | .null => none
    | .boolean b => some (.inl b)
    | .text t => some (.inr t)
    | _ => some (.inr [])
  parameter _ _ := v
  cast _ v := v
  equal v w := v == w
  concat vs := some (.inr (vs.flatMap fun v => v.elim [] (Sum.elim (fun _ => []) id)))
  operate f vs :=
    match f.kind, vs with
    | .replace, [some (.inr s), some (.inr old), some (.inr new)] => some (.inr (Text.replace old new s))
    | .replace, none :: _ => none
    | _, _ => some (.inr [])
  aggregate _ _ := some (.inr [])
  subquery _ := none
  compare := compareOn fun _ => 0
  literal_eq_null v h := by cases v <;> simp_all
  literal_boolean_inj a b h := by simpa using h
  literal_alike v w h := by cases v <;> cases w <;> simp_all [Value.alike, Value.sameBy]
  cast_eq_null_iff _ _ := Iff.rfl
  equal_boolean a b := by cases a <;> cases b <;> rfl
  concat_ne_null _ := by simp
  operate_ne_null f vs h := by split <;> simp_all
  compare_trans := inferInstance

lemma textual_wordy (v : Option (Bool ⊕ Text)) : (wordy v).Textual where
  replace _ _ _ := rfl
  replace_null _ _ := rfl
  concat s t := by simp [wordy]

theorem value_patternOf_parameter :
    let hidden : Code := .parameter .nowhere .text "p"
    let g : Gate := ⟨false, .scalar ⟨0, .root .nowhere, .root .nowhere, .empty⟩, .empty, []⟩
    let k : Scene (Option (Bool ⊕ Text)) := .single ⟨fun _ => ⟨fun _ => none, []⟩, fun _ => none⟩
    ∃ p r, hidden.patternOf .nowhere = .ok p ∧ p.evaluate g .empty = .ok r ∧
      (wordy (some (.inr "5%"))).value r k = some (.inr "%5\\%%") := by
  intro hidden g k
  obtain ⟨-, p, hp, h⟩ := value_patternOf (V := Option (Bool ⊕ Text)) .nowhere (c := hidden) (by simp [hidden])
  obtain ⟨r, hr, hvalue⟩ := h g .empty _ rfl
  exact ⟨p, r, hp, hr, hvalue _ (textual_wordy _) k _ rfl⟩

theorem value_containmentOf_parameter_null :
    let name : Binding := .literalOf (.text "art") .text .nowhere []
    let g : Gate := ⟨false, .scalar ⟨0, .root .nowhere, .root .nowhere, .empty⟩, .empty, []⟩
    let k : Scene (Option (Bool ⊕ Text)) := .single ⟨fun _ => ⟨fun _ => none, []⟩, fun _ => none⟩
    let test (b : Binding) : Binding := .containmentOf 1 name b name .nowhere []
    ∃ asked written q r, (test (.parameter ⟨.text, [], .nowhere⟩ "p")).encode = .ok asked ∧
      (test (.literalOf .null .untyped .nowhere [])).encode = .ok written ∧
      asked.evaluate g .empty >>= Substitutes.reduce [] = .ok q ∧
      written.evaluate g .empty >>= Substitutes.reduce [] = .ok r ∧
      (wordy none).value q k ≠ (wordy none).value r k := by
  intro name g k test
  obtain ⟨asked, written, hasked, hwritten, h⟩ := @value_containmentOf_parameter_iff
    (Option (Bool ⊕ Text)) _ name name _ rfl .text (.inl rfl) .null (.inl rfl) 1 "p" [] [] .nowhere
    .nowhere .nowhere
  obtain ⟨q, r, hq, hr, hvalue⟩ := h g .empty [] _ _ rfl rfl
  refine ⟨asked, written, q, r, hasked, hwritten, hq, hr, fun heq => ?_⟩
  cases (hvalue (wordy none) (textual_wordy none) rfl k).1 heq rfl

end Interpretation

end NavQuery
