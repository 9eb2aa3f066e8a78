import Mathlib.Algebra.Order.Field.Power
import Mathlib.Data.Rat.Cast.Order
import NavQuery.Proofs.Numerals
import NavQuery.Value

/-!
A decimal means what it spells: its sign, its digits and a power of ten. Two decimals are equal when they
mean the same. Decimals are read back from their texts.
-/

namespace NavQuery

open List Text Byte

namespace Decimal

def value (d : Decimal) : ℚ := d.unscaled * 10 ^ (-d.scale)

/-- A sign that may be left out. -/
def signText : Option Bool → Text
  | none => []
  | some true => [ofChar '-']
  | some false => [ofChar '+']

def signedBy (sign : Option Bool) (n : Nat) : Int := if sign.getD false then -n else n

lemma readSign_signText (sign : Option Bool) {t : Text} (h : ∀ b ∈ t.head?, b ≠ ofChar '-' ∧ b ≠ ofChar '+') :
    readSign (signText sign ++ t) = (sign.getD false, t) := by
  match sign with
  | some true | some false => rfl
  | none =>
    cases t with
    | nil => rfl
    | cons b r => exact (if_neg (h b rfl).1).trans (if_neg (h b rfl).2)

lemma of_readSign {t r : Text} {negative : Bool} (h : readSign t = (negative, r)) :
    ∃ sign : Option Bool, t = signText sign ++ r ∧ negative = sign.getD false := by
  unfold readSign at h
  split at h
  next => cases h; exact ⟨none, rfl, rfl⟩
  next b r =>
    split at h
    next hb => cases h; exact ⟨some true, by rw [hb]; rfl, rfl⟩
    next =>
      split at h
      next hb => cases h; exact ⟨some false, by rw [hb]; rfl, rfl⟩
      next => cases h; exact ⟨none, rfl, rfl⟩

/-- A decimal exponent of at most six digits. -/
structure Exponent where
  mark : Byte
  sign : Option Bool
  digits : Text
  marked : mark = ofChar 'e' ∨ mark = ofChar 'E'
  numeral : Numeral digits
  length : 1 ≤ digits.length ∧ digits.length ≤ 6

namespace Exponent

def text (x : Exponent) : Text := x.mark :: (signText x.sign ++ x.digits)

def value (x : Exponent) : Int := signedBy x.sign (toNat x.digits)

end Exponent

/-- The parts of a decimal's text. -/
structure Spelling where
  sign : Option Bool
  whole : Text
  fraction : Option Text
  exponent : Option Exponent
  numeral : Numeral (whole ++ fraction.getD [])
  digits : whole ++ fraction.getD [] ≠ []

namespace Spelling

def body (s : Spelling) : Text :=
  s.whole ++ (s.fraction.elim [] (ofChar '.' :: ·) ++ s.exponent.elim [] Exponent.text)

def text (s : Spelling) : Text := signText s.sign ++ s.body

def power (s : Spelling) : Int := s.exponent.elim 0 Exponent.value - (s.fraction.getD []).length

end Spelling

lemma numeral_head {t : Text} (h : Numeral t) : ∀ b ∈ t.head?, b ≠ ofChar '-' ∧ b ≠ ofChar '+' := by
  intro b hb
  have hdigit := h b (mem_of_mem_head? hb)
  constructor <;> rintro rfl <;> cases hdigit

lemma readExponent_text (x : Option Exponent) : readExponent (x.elim [] Exponent.text) = some (x.elim 0 Exponent.value) := by
  cases x with
  | none => rfl
  | some x =>
    have hdigits : (x.digits.all isDigit && decide (1 ≤ x.digits.length) && decide (x.digits.length ≤ 6)) = true := by
      simpa [x.length] using fun b => x.numeral b
    rw [Option.elim_some, Exponent.text, readExponent, if_pos x.marked, readSign_signText _ (numeral_head x.numeral)]
    dsimp only
    rw [if_pos hdigits]
    simp [Exponent.value, signedBy]

lemma of_readExponent {t : Text} {e : Int} (h : readExponent t = some e) :
    ∃ x : Option Exponent, t = x.elim [] Exponent.text ∧ e = x.elim 0 Exponent.value := by
  cases t with
  | nil => exact ⟨none, rfl, (Option.some.inj h).symm⟩
  | cons b r =>
    rw [readExponent] at h
    split at h
    next hb =>
      cases hsign : readSign r with | mk negative digits =>
      obtain ⟨sign, rfl, rfl⟩ := of_readSign hsign
      rw [hsign] at h
      dsimp only at h
      split at h
      next hdigits =>
        simp only [Bool.and_eq_true, decide_eq_true_eq, all_eq_true] at hdigits
        obtain ⟨⟨hnumeral, hone⟩, hsix⟩ := hdigits
        refine ⟨some ⟨b, sign, digits, hb, hnumeral, hone, hsix⟩, rfl, ?_⟩
        simpa [Exponent.value, signedBy] using h.symm
      next => cases h
    next => cases h

namespace Spelling

variable (s : Spelling)

lemma body_head : ∀ b ∈ s.body.head?, b ≠ ofChar '-' ∧ b ≠ ofChar '+' := by
  cases hwhole : s.whole with
  | cons b r =>
    rw [body, hwhole]
    exact numeral_head (t := b :: r) fun c hc => s.numeral c (mem_append_left _ (hwhole ▸ hc))
  | nil =>
    have hdigits := s.digits
    rw [hwhole] at hdigits
    cases hfraction : s.fraction with
    | none => simp [hfraction] at hdigits
    | some F =>
      rw [body, hwhole, hfraction]
      rintro _ ⟨⟩
      decide

lemma read_text : read? s.text = some (ofScientific (s.sign.getD false) (toNat (s.whole ++ s.fraction.getD [])) s.power) := by
  have hexponent : ∀ b ∈ (s.exponent.elim [] Exponent.text).head?, isDigit b = false ∧ b ≠ ofChar '.' := by
    cases s.exponent with
    | none => exact nofun
    | some x =>
      rintro _ ⟨⟩
      obtain h | h := x.marked <;> rw [h] <;> decide
  have hrest : ∀ b ∈ (s.fraction.elim [] (ofChar '.' :: ·) ++ s.exponent.elim [] Exponent.text).head?, isDigit b = false := by
    cases s.fraction with
    | none => exact fun b hb => (hexponent b hb).1
    | some F => rintro _ ⟨⟩; decide
  have hwhole := takeWhile_append_of_all (fun b hb => s.numeral b (mem_append_left _ hb)) hrest
  have hfraction := takeWhile_append_of_all (fun b hb => s.numeral b (mem_append_right _ hb)) fun b hb => (hexponent b hb).1
  have hdigits : ¬(s.whole = [] ∧ s.fraction.getD [] = []) := fun h => s.digits (append_eq_nil_iff.2 h)
  have hread := readExponent_text s.exponent
  rw [read?, text, readSign_signText _ s.body_head]
  dsimp only
  rw [body, power, hwhole.1, hwhole.2]
  clear hwhole
  generalize s.exponent.elim [] Exponent.text = t at *
  cases hpoint : s.fraction with
  | some F => simp_all
  | none =>
    cases t with
    | nil => simp_all
    | cons b r => simp_all

lemma exists_of_read {t : Text} {d : Decimal} (h : read? t = some d) : ∃ s : Spelling, s.text = t := by
  cases hsign : readSign t with | mk negative body =>
  obtain ⟨sign, rfl, -⟩ := of_readSign hsign
  have hall {r : Text} : Numeral (r.takeWhile isDigit) := all_eq_true.1 all_takeWhile
  have hspell (fraction : Option Text) {rest : Text} {e : Int} (hnumeral : Numeral (fraction.getD []))
      (hdigits : ¬((body.takeWhile isDigit).isEmpty && (fraction.getD []).isEmpty) = true)
      (hexponent : readExponent rest = some e)
      (hrest : body.dropWhile isDigit = fraction.elim [] (ofChar '.' :: ·) ++ rest) :
      ∃ s : Spelling, s.text = signText sign ++ body := by
    obtain ⟨x, rfl, -⟩ := of_readExponent hexponent
    refine ⟨⟨sign, body.takeWhile isDigit, fraction, x, forall_mem_append.2 ⟨hall, hnumeral⟩, ?_⟩, ?_⟩
    · simpa [append_eq_nil_iff] using hdigits
    · rw [text, Spelling.body, ← hrest, takeWhile_append_dropWhile]
  rw [read?, hsign] at h
  dsimp only at h
  split at h
  next b r hbr =>
    split at h
    next hb =>
      split at h
      next => cases h
      next hdigits =>
        obtain ⟨e, he, -⟩ := Option.bind_eq_some_iff.1 h
        exact hspell (some _) hall hdigits he (by rw [hbr, hb]; simp [takeWhile_append_dropWhile])
    next =>
      split at h
      next => cases h
      next hdigits =>
        obtain ⟨e, he, -⟩ := Option.bind_eq_some_iff.1 h
        exact hspell none nofun hdigits he hbr
  next hnil =>
    split at h
    next => cases h
    next hdigits =>
      obtain ⟨e, he, -⟩ := Option.bind_eq_some_iff.1 h
      exact hspell none nofun hdigits he hnil

end Spelling

lemma value_ofScientific (sign : Option Bool) (n : Nat) (e : Int) :
    (ofScientific (sign.getD false) n e).value = signedBy sign n * 10 ^ e := by
  by_cases he : e < 0
  · simp [ofScientific, value, signedBy, he, max_eq_right (show (0 : Int) ≤ -e by omega)]
  · obtain ⟨k, rfl⟩ := Int.eq_ofNat_of_zero_le (Int.not_lt.1 he)
    simp only [ofScientific, value, signedBy, tenTo]
    cases sign.getD false <;> simp

lemma value_eq_iff (a b : Int) (m n : Nat) :
    (⟨a, m⟩ : Decimal).value = (⟨b, n⟩ : Decimal).value ↔ a * 10 ^ n = b * 10 ^ m := by
  simp only [value, zpow_neg, ← div_eq_mul_inv]
  rw [div_eq_div_iff (by positivity) (by positivity)]
  exact_mod_cast Iff.rfl

/-- No zero can be dropped behind the point. -/
def IsShort (d : Decimal) : Prop := ∃ n : Nat, d.scale = n ∧ (n = 0 ∨ d.unscaled % 10 ≠ 0)

lemma strip_spec (u : Int) (s : Nat) : (strip u s).IsShort ∧ (strip u s).value = (⟨u, s⟩ : Decimal).value := by
  induction s generalizing u with
  | zero => exact ⟨⟨0, rfl, .inl rfl⟩, rfl⟩
  | succ s ih =>
    rw [strip]
    split
    next hu =>
      obtain ⟨hshort, hvalue⟩ := ih (u / 10)
      refine ⟨hshort, hvalue.trans ((value_eq_iff _ _ s (s + 1)).2 ?_)⟩
      rw [pow_succ, ← mul_assoc, mul_right_comm, Int.ediv_mul_cancel (Int.dvd_of_emod_eq_zero hu)]
    next hu => exact ⟨⟨s + 1, by simp, .inr hu⟩, by simp⟩

lemma eq_of_mul_pow_eq {u v : Int} {m n : Nat} (hu : m = 0 ∨ u % 10 ≠ 0) (hv : n = 0 ∨ v % 10 ≠ 0)
    (h : u * 10 ^ n = v * 10 ^ m) : u = v ∧ m = n := by
  wlog hle : m ≤ n generalizing u v m n
  · obtain ⟨rfl, rfl⟩ := this hv hu h.symm (Nat.le_of_not_le hle)
    exact ⟨rfl, rfl⟩
  obtain ⟨k, rfl⟩ := Nat.exists_eq_add_of_le hle
  rw [pow_add, mul_comm (10 ^ m), ← mul_assoc, mul_left_inj' (by positivity)] at h
  subst h
  cases k with
  | zero => simp
  | succ k =>
    -- the number with more places would end in a zero
    rw [pow_succ, ← mul_assoc] at hv
    simp at hv

lemma IsShort.eq_of_value_eq {a b : Decimal} (ha : a.IsShort) (hb : b.IsShort) (h : a.value = b.value) : a = b := by
  obtain ⟨u, _⟩ := a
  obtain ⟨v, _⟩ := b
  obtain ⟨m, rfl, ha⟩ := ha
  obtain ⟨n, rfl, hb⟩ := hb
  obtain ⟨rfl, rfl⟩ := eq_of_mul_pow_eq ha hb ((value_eq_iff u v m n).1 h)
  rfl

lemma same_iff {a b : Decimal} (ha : 0 ≤ a.scale) (hb : 0 ≤ b.scale) :
    a.same b = true ↔ a.unscaled * 10 ^ b.scale.toNat = b.unscaled * 10 ^ a.scale.toNat := by
  obtain ⟨u, m⟩ := a
  obtain ⟨v, n⟩ := b
  lift m to ℕ using ha
  lift n to ℕ using hb
  obtain ⟨hu, hm⟩ := strip_spec u m
  obtain ⟨hv, hn⟩ := strip_spec v n
  simp only [same, Int.toNat_natCast, beq_iff_eq]
  rw [← value_eq_iff, ← hm, ← hn]
  exact ⟨congrArg value, hu.eq_of_value_eq hv⟩

/-- A decimal is read from its sign, digits, point and exponent, and from nothing else; it is their value,
and equality of decimals is that of values. -/
theorem read_spelling : (∀ s : Spelling, ∃ d, read? s.text = some d ∧ 0 ≤ d.scale ∧
      d.value = signedBy s.sign (toNat (s.whole ++ s.fraction.getD [])) *
        10 ^ (s.exponent.elim 0 Exponent.value - (s.fraction.getD []).length)) ∧
    (∀ t d, read? t = some d → ∃ s : Spelling, s.text = t) ∧
    ∀ a b : Decimal, 0 ≤ a.scale → 0 ≤ b.scale → ((Value.decimal a).same (.decimal b) = true ↔
      a.unscaled * 10 ^ b.scale.toNat = b.unscaled * 10 ^ a.scale.toNat) := by
  refine ⟨fun s => ⟨_, s.read_text, le_max_left _ _, value_ofScientific _ _ _⟩, fun t d => Spelling.exists_of_read,
    fun a b ha hb => ?_⟩
  rw [Value.same, Value.sameBy, same_iff ha hb]

theorem read_spelling_trailing_zero : (∃ s : Spelling, s.text = ofString "-01.50e2") ∧
    (Value.decimal ⟨150, 2⟩).same (.decimal ⟨15, 1⟩) = true :=
  ⟨read_spelling.2.1 _ ⟨-150, 0⟩ (by decide), (read_spelling.2.2 _ _ (by decide) (by decide)).2 (by decide)⟩

end Decimal

section Writing

/-- A text with a sign in front if it stands for a negative number. -/
def signed (negative : Bool) (t : Text) : Text := if negative then ofChar '-' :: t else t

lemma signed_eq (negative : Bool) (t : Text) :
    signed negative t = Decimal.signText (if negative then some true else none) ++ t := by
  cases negative <;> rfl

lemma readSign_signed (negative : Bool) {t : Text} (h : Numeral t) :
    Decimal.readSign (signed negative t) = (negative, t) := by
  rw [signed_eq, Decimal.readSign_signText _ (Decimal.numeral_head h)]
  cases negative <;> rfl

lemma ofInt_eq_signed (n : Int) : ofInt n = signed (n < 0) (Text.ofNat n.natAbs) := by
  cases n with
  | ofNat n => exact (if_neg (by simp)).symm
  | negSucc n => exact (if_pos (by simp)).symm

lemma sign_natAbs (n : Int) : (if decide (n < 0) = true then -(n.natAbs : Int) else n.natAbs) = n := by
  split
  next h => have := of_decide_eq_true h; omega
  next h => have : ¬n < 0 := fun hn => h (decide_eq_true hn); omega

lemma ofNat_ne_nil (n : Nat) : Text.ofNat n ≠ [] := by
  intro h
  have := Nat.toDigits_ne_nil (b := 10) (n := n)
  exact this (map_eq_nil_iff.1 h)

/-- Digits in front of a point and behind it, or without a point. -/
theorem read_signed_point (negative : Bool) {W F p : Text} (hW : Numeral W) (hF : Numeral F) (hne : W ≠ [])
    (hp : p = [] ∧ F = [] ∨ p = ofChar '.' :: F) : Decimal.read? (signed negative (W ++ p)) =
      some (.ofScientific negative (Text.toNat (W ++ F)) (0 - F.length)) := by
  obtain ⟨fraction, rfl, rfl⟩ : ∃ f : Option Text, F = f.getD [] ∧ p = f.elim [] (ofChar '.' :: ·) := by
    obtain ⟨rfl, rfl⟩ | rfl := hp
    · exact ⟨none, rfl, rfl⟩
    · exact ⟨some F, rfl, rfl⟩
  have hread := Decimal.Spelling.read_text ⟨if negative then some true else none, W, fraction, none,
    forall_mem_append.2 ⟨hW, hF⟩, append_ne_nil_of_left_ne_nil hne _⟩
  rw [Decimal.Spelling.text, Decimal.Spelling.body, Option.elim_none, append_nil, ← signed_eq] at hread
  rw [hread]
  cases negative <;> rfl

lemma ofScientific_natAbs (u : Int) (k : Nat) :
    Decimal.ofScientific (u < 0) u.natAbs (0 - k) = ⟨u, k⟩ := by
  have hmagnitude : (if (0 - k : Int) < 0 then (u.natAbs : Int) else
      u.natAbs * tenTo (0 - k : Int).toNat) = u.natAbs := by
    split
    next => rfl
    next h =>
      obtain rfl : k = 0 := by omega
      exact Int.mul_one _
  unfold Decimal.ofScientific
  dsimp only
  rw [hmagnitude, sign_natAbs]
  congr 1
  omega

lemma Decimal.read_ofInt (n : Int) : Decimal.read? (ofInt n) = some ⟨n, 0⟩ := by
  have hread := read_signed_point (n < 0) (F := []) (p := []) (fun _ => isDigit_of_mem_ofNat)
    nofun (ofNat_ne_nil n.natAbs) (.inl ⟨rfl, rfl⟩)
  rw [append_nil, Text.toNat, foldl_ofNat] at hread
  rw [ofInt_eq_signed, hread]
  exact congrArg some (ofScientific_natAbs n 0)

lemma read_signed_digits {u : Int} {digits : Text} {k : Nat} (h : Numeral digits) (hk : k < digits.length)
    (hu : Text.toNat digits = u.natAbs) : Decimal.read? (signed (u < 0)
      (digits.take (digits.length - k) ++ ofChar '.' :: digits.drop (digits.length - k))) = some ⟨u, k⟩ := by
  have hne : digits.take (digits.length - k) ≠ [] := List.ne_nil_of_length_pos (by rw [length_take]; omega)
  have hlength : digits.length - (digits.length - k) = k := by omega
  rw [read_signed_point _ (fun b hb => h b (mem_of_mem_take hb)) (fun b hb => h b (mem_of_mem_drop hb))
    hne (.inr rfl), take_append_drop, hu, length_drop, hlength, ofScientific_natAbs]

lemma Decimal.read_write {d : Decimal} (h : 0 ≤ d.scale) : Decimal.read? d.write = some d := by
  obtain ⟨u, scale⟩ := d
  lift scale to ℕ using h
  have hsigned (body : Text) : (if u < 0 then ofChar '-' :: body else body) = signed (u < 0) body := by
    simp [signed]
  unfold Decimal.write
  rw [hsigned]
  split
  next hzero =>
    subst hzero
    rw [← ofInt_eq_signed]
    exact Decimal.read_ofInt u
  next =>
    refine read_signed_digits (numeral_zeroPadded _ _) ?_ (toNat_zeroPadded _ _)
    rw [length_append, length_replicate]
    omega

lemma scale_nonneg_of_read {t : Text} {d : Decimal} (h : Decimal.read? t = some d) : 0 ≤ d.scale := by
  obtain ⟨s, rfl⟩ := Decimal.Spelling.exists_of_read h
  rw [s.read_text] at h
  cases h
  exact le_max_left _ _

end Writing

end NavQuery
