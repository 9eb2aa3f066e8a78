import Mathlib.Data.List.Basic
import Mathlib.Data.List.Induction
import Mathlib.Data.Nat.Digits.Defs
import Mathlib.Tactic.IntervalCases
import Mathlib.Tactic.Lift
import NavQuery.Proofs.Outcomes

/-!
The numeral of a number spells it. So dates and times are read back from their texts.
-/

namespace NavQuery

open List Text Byte

section Digits

lemma isDigit_ofChar {c : Char} (h : c.isDigit) :
    isDigit (ofChar c) ∧ digitValue (ofChar c) = c.toNat - '0'.toNat := by
  have hc : 48 ≤ c.toNat ∧ c.toNat ≤ 57 := by
    simp only [Char.isDigit, Bool.and_eq_true, decide_eq_true_eq] at h
    exact h
  unfold ofChar
  generalize c.toNat = n at hc
  obtain ⟨hlo, hhi⟩ := hc
  interval_cases n <;> decide

lemma isDigit_of_mem_ofNat {n : Nat} {b : Byte} (h : b ∈ Text.ofNat n) : isDigit b := by
  obtain ⟨c, hc, rfl⟩ := mem_map.1 h
  exact (isDigit_ofChar (Nat.isDigit_of_mem_toDigits (by decide) (by decide) hc)).1

lemma foldl_ofNat (n : Nat) : (Text.ofNat n).foldl (fun m b => 10 * m + digitValue b) 0 = n := by
  have hdigits : ∀ c ∈ Nat.toDigits 10 n, digitValue (ofChar c) = c.toNat - '0'.toNat :=
    fun c hc => (isDigit_ofChar (Nat.isDigit_of_mem_toDigits (by decide) (by decide) hc)).2
  calc (Text.ofNat n).foldl (fun m b => 10 * m + digitValue b) 0
      = (Nat.toDigits 10 n).foldl (fun m c => 10 * m + (c.toNat - '0'.toNat)) 0 := by
        rw [Text.ofNat, foldl_map]
        refine foldl_ext _ _ _ fun m c hc => ?_
        rw [hdigits c hc]
    _ = n := by rw [← Nat.ofDigitChars_eq_foldl, Nat.ofDigitChars_ten_toDigits]

/-- Nothing but digits. -/
def Numeral (t : Text) : Prop := ∀ b ∈ t, isDigit b = true

/-- Zeros in front of the digits of a number. -/
def zeroPadded (k n : Nat) : Text := List.replicate k 48 ++ Text.ofNat n

lemma numeral_zeroPadded (k n : Nat) : Numeral (zeroPadded k n) :=
  forall_mem_append.2 ⟨fun b hb => eq_of_mem_replicate hb ▸ by decide, fun _ => isDigit_of_mem_ofNat⟩

lemma toNat_zeroPadded (k n : Nat) : Text.toNat (zeroPadded k n) = n := by
  have hzeros : (List.replicate k (48 : Byte)).foldl (fun m b => 10 * m + digitValue b) 0 = 0 := by
    induction k with
    | zero => rfl
    | succ k ih => exact ih
  rw [Text.toNat, zeroPadded, foldl_append, hzeros, foldl_ofNat]

variable {t : Text}

lemma toNat_lt_of_numeral (h : Numeral t) : Text.toNat t < 10 ^ t.length := by
  induction t using List.reverseRecOn with
  | nil => decide
  | append_singleton t b ih =>
    obtain ⟨ht, hb⟩ := forall_mem_append.1 h
    have hdigit : digitValue b < 10 := by
      have hb := hb b (mem_singleton_self b)
      simp only [isDigit, Bool.and_eq_true, decide_eq_true_eq] at hb
      have : b.toNat ≤ 57 := hb.2
      unfold digitValue
      omega
    have := ih ht
    rw [Text.toNat, foldl_append, length_append, length_singleton]
    rw [Text.toNat] at this
    simp only [foldl_cons, foldl_nil]
    omega

lemma takeWhile_append_of_all {p : Byte → Bool} {r : Text} (ht : ∀ b ∈ t, p b)
    (hr : ∀ b ∈ r.head?, p b = false) : (t ++ r).takeWhile p = t ∧ (t ++ r).dropWhile p = r := by
  rw [takeWhile_append_of_pos ht, dropWhile_append_of_pos ht]
  cases r with
  | nil => simp
  | cons b r => simp [hr b rfl]

lemma skipSpaces_eq_self (h : ∀ b ∈ t.head?, isSpace b = false) : skipSpaces t = t :=
  (takeWhile_append_of_all (t := []) nofun h).2

end Digits

section Calendar

variable {n k : Nat} {d : Date} {t rest : Text}

/-- A number of at most as many digits as are asked for. -/
theorem padInt_eq (hk : 0 < k) (hn : n < 10 ^ k) :
    ∃ z, padInt k n = zeroPadded z n ∧ (zeroPadded z n).length = k := by
  refine ⟨k - (Text.ofNat n).length, rfl, ?_⟩
  have hle : (Text.ofNat n).length ≤ k := by
    rw [Text.ofNat, length_map]
    exact Nat.toDigits_length 10 n k hk hn
  rw [zeroPadded, length_append, length_replicate]
  omega

lemma readDigits_padInt (hk : 0 < k) (hn : n < 10 ^ k) (rest : Text) :
    Date.readDigits k (padInt k n ++ rest) = .ok (n, rest) := by
  obtain ⟨z, heq, hlength⟩ := padInt_eq hk hn
  have hall : (zeroPadded z n).all isDigit := all_eq_true.2 (numeral_zeroPadded z n)
  unfold Date.readDigits
  dsimp only
  rw [heq, List.take_left' hlength, drop_left' hlength, toNat_zeroPadded, if_pos ⟨hlength, hall⟩]

/-- A date of the Gregorian calendar in the years 1 to 9999. -/
structure Date.Valid (d : Date) : Prop where
  year : 1 ≤ d.year ∧ d.year ≤ 9999
  month : 1 ≤ d.month ∧ d.month ≤ 12
  day : 1 ≤ d.day ∧ d.day ≤ daysInMonth d.year.toNat d.month.toNat

/-- A time before 24:00. -/
structure Time.Valid (t : Time) : Prop where
  hour : 0 ≤ t.hour ∧ t.hour ≤ 23
  minute : 0 ≤ t.minute ∧ t.minute ≤ 59
  second : 0 ≤ t.second ∧ t.second ≤ 59
  microsecond : 0 ≤ t.microsecond ∧ t.microsecond ≤ 999999

lemma daysInMonth_le (year month : Nat) : Date.daysInMonth year month ≤ 31 := by
  unfold Date.daysInMonth
  split_ifs <;> decide

lemma Date.Valid.read_write (h : d.Valid) (rest : Text) :
    Date.read (d.write ++ rest) = .ok (d, rest) := by
  obtain ⟨year, month, day⟩ := d
  obtain ⟨hyear, hmonth, hday⟩ := h
  dsimp only at hyear hmonth hday
  lift year to ℕ using by omega
  lift month to ℕ using by omega
  lift day to ℕ using by omega
  have hdays := daysInMonth_le year month
  simp only [Int.toNat_natCast] at hday
  have hdash (t : Text) : Date.skipByte '-' (ofString "-" ++ t) = .ok t := rfl
  simp only [Date.read, Date.write, append_assoc]
  rw [readDigits_padInt (by decide) (by omega), ok_bind, hdash, ok_bind,
    readDigits_padInt (by decide) (by omega), ok_bind, hdash, ok_bind,
    readDigits_padInt (by decide) (by omega), ok_bind]
  dsimp only
  rw [if_neg (by omega), if_neg (by omega)]
  rfl

lemma skipSpaces_padInt (hk : 0 < k) (hn : n < 10 ^ k) (rest : Text) :
    skipSpaces (padInt k n ++ rest) = padInt k n ++ rest := by
  obtain ⟨z, heq, hlength⟩ := padInt_eq hk hn
  refine skipSpaces_eq_self fun b hb => ?_
  rw [heq, head?_append_of_ne_nil _ (List.ne_nil_of_length_pos (by omega))] at hb
  have hdigit := numeral_zeroPadded z n b (mem_of_mem_head? hb)
  simp only [isDigit, Bool.and_eq_true, decide_eq_true_eq, UInt8.le_iff_toNat_le, UInt8.reduceToNat] at hdigit
  simp only [isSpace, Bool.or_eq_false_iff, Bool.and_eq_false_iff, beq_eq_false_iff_ne, ne_eq,
    decide_eq_false_iff_not, ← UInt8.toNat_inj, UInt8.le_iff_toNat_le, UInt8.reduceToNat]
  omega

lemma Date.Valid.skipSpaces_write (h : d.Valid) (rest : Text) :
    skipSpaces (d.write ++ rest) = d.write ++ rest := by
  obtain ⟨year, month, day⟩ := d
  have hyear := h.year
  dsimp only at hyear
  lift year to ℕ using by omega
  simp only [Date.write, append_assoc]
  exact skipSpaces_padInt (by decide) (by omega) _

lemma readFraction_write (hn : n < 10 ^ 6) :
    Time.readFraction (if (n : Int) = 0 then [] else "." ++ padInt 6 n) = .ok (n, []) := by
  split
  next hzero => rw [Int.natCast_eq_zero.1 hzero]; rfl
  next =>
    obtain ⟨z, heq, hlength⟩ := padInt_eq (k := 6) (n := n) (by decide) hn
    have hspan := takeWhile_append_of_all (r := []) (numeral_zeroPadded z n) nofun
    rw [append_nil] at hspan
    rw [heq]
    change (if ((zeroPadded z n).takeWhile isDigit).isEmpty = true then _ else
      Except.ok (Time.microseconds ((zeroPadded z n).takeWhile _), (zeroPadded z n).dropWhile _)) = _
    rw [hspan.1, hspan.2, if_neg (by rw [List.isEmpty_iff]; exact List.ne_nil_of_length_pos (by omega)),
      Time.microseconds, List.take_left' hlength, toNat_zeroPadded]

lemma Time.Valid.read_write {t : Time} (h : t.Valid) : Time.read t.write = .ok (t, []) := by
  obtain ⟨hour, minute, second, microsecond⟩ := t
  obtain ⟨hhour, hminute, hsecond, hmicro⟩ := h
  dsimp only at hhour hminute hsecond hmicro
  lift hour to ℕ using by omega
  lift minute to ℕ using by omega
  lift second to ℕ using by omega
  lift microsecond to ℕ using by omega
  obtain ⟨z, heq, hlength⟩ := padInt_eq (k := 2) (n := hour) (by decide) (by omega)
  have hcolon (t : Text) : Date.skipByte ':' (ofString ":" ++ t) = .ok t := rfl
  have hread (rest : Text) : Time.readHour (zeroPadded z hour ++ rest) = .ok (hour, rest) := by
    have hall := (takeWhile_append_of_all (r := []) (numeral_zeroPadded z hour) nofun).1
    rw [append_nil] at hall
    unfold Time.readHour
    dsimp only
    rw [List.take_left' hlength, hall, List.drop_left, toNat_zeroPadded]
    exact if_neg (by rw [List.isEmpty_iff]; exact List.ne_nil_of_length_pos (by omega))
  have hseconds (rest : Text) : Time.readSeconds (ofString ":" ++ (padInt 2 second ++ rest)) =
      (Time.readFraction rest >>= fun r => .ok (second, r.1, r.2)) := by
    change (Date.readDigits 2 (padInt 2 second ++ rest) >>= _) = _
    rw [readDigits_padInt (by decide) (by omega)]
    rfl
  simp only [Time.read, Time.write, append_assoc]
  rw [heq, hread, ok_bind, hcolon, ok_bind, readDigits_padInt (by decide) (by omega), ok_bind, hseconds,
    readFraction_write (by omega), ok_bind, ok_bind, if_neg (by omega)]
  rfl

lemma Time.Valid.skipSpaces_write {t : Time} (h : t.Valid) : skipSpaces t.write = t.write := by
  obtain ⟨hour, minute, second, microsecond⟩ := t
  have hhour := h.hour
  dsimp only at hhour
  lift hour to ℕ using by omega
  simp only [Time.write, append_assoc]
  exact skipSpaces_padInt (by decide) (by omega) _

lemma lt_of_readDigits (h : Date.readDigits k t = .ok (n, rest)) : n < 10 ^ k := by
  unfold Date.readDigits at h
  dsimp only at h
  split at h
  next hdigits =>
    cases h
    have := toNat_lt_of_numeral (all_eq_true.1 hdigits.2)
    rwa [hdigits.1] at this
  next => cases h

lemma Date.valid_of_read (h : Date.read t = .ok (d, rest)) : d.Valid := by
  obtain ⟨⟨year, t⟩, hyear, h⟩ := exists_of_bind_eq_ok h
  obtain ⟨t, -, h⟩ := exists_of_bind_eq_ok h
  obtain ⟨⟨month, t⟩, hmonth, h⟩ := exists_of_bind_eq_ok h
  obtain ⟨t, -, h⟩ := exists_of_bind_eq_ok h
  obtain ⟨⟨day, t⟩, hday, h⟩ := exists_of_bind_eq_ok h
  have := lt_of_readDigits hyear
  dsimp only at h
  split at h
  next => cases h
  next =>
    split at h
    next => cases h
    next =>
      cases h
      refine ⟨?_, ?_, ?_⟩ <;> simp only [Int.toNat_natCast] <;> omega

lemma microseconds_le (h : Numeral t) : Time.microseconds t ≤ 999999 := by
  have hnumeral : Numeral (t ++ List.replicate 6 48) :=
    forall_mem_append.2 ⟨h, fun b hb => eq_of_mem_replicate hb ▸ by decide⟩
  have htake : Numeral ((t ++ List.replicate 6 48).take 6) := fun b hb => hnumeral b (mem_of_mem_take hb)
  have hlength : ((t ++ List.replicate 6 48).take 6).length = 6 := by simp
  have hlt := toNat_lt_of_numeral htake
  rw [hlength] at hlt
  exact Nat.le_of_lt_succ hlt

lemma le_of_readSeconds {m : Nat} (h : Time.readSeconds t = .ok (n, m, rest)) : m ≤ 999999 := by
  have hfraction {t rest : Text} {m : Nat} (h : Time.readFraction t = .ok (m, rest)) : m ≤ 999999 := by
    unfold Time.readFraction at h
    split at h
    next => cases h; decide
    next r =>
      dsimp only at h
      split at h
      · split at h
        · cases h
        · cases h
          exact microseconds_le (all_eq_true.1 all_takeWhile)
      · cases h; decide
  unfold Time.readSeconds at h
  split at h
  next => cases h; decide
  next =>
    split at h
    · obtain ⟨⟨second, t⟩, -, h⟩ := exists_of_bind_eq_ok h
      obtain ⟨⟨micro, t⟩, hmicro, h⟩ := exists_of_bind_eq_ok h
      cases h
      exact hfraction hmicro
    · cases h; decide

lemma Time.valid_of_read {c : Time} (h : Time.read t = .ok (c, rest)) : c.Valid := by
  obtain ⟨⟨hour, t⟩, -, h⟩ := exists_of_bind_eq_ok h
  obtain ⟨t, -, h⟩ := exists_of_bind_eq_ok h
  obtain ⟨⟨minute, t⟩, -, h⟩ := exists_of_bind_eq_ok h
  obtain ⟨⟨second, micro, t⟩, hsecond, h⟩ := exists_of_bind_eq_ok h
  have := le_of_readSeconds hsecond
  dsimp only at h
  split at h
  next => cases h
  next =>
    cases h
    refine ⟨?_, ?_, ?_, ?_⟩ <;> dsimp only <;> omega

end Calendar

end NavQuery
