import NavQuery.Text.Quoted
import NavQuery.Token

/-!
A lexeme is cut off the front of a text, so that the place of a token follows from the lengths of what is
left.
-/

namespace NavQuery.Token

def symbols : List (Text × Kind) :=
  [("==", .totallyEqual), ("!==", .totallyNotEqual), ("!=", .notEqual), ("!~", .notContains),
    ("<=", .lessEqual), (">=", .greaterEqual), ("->", .arrow), ("/", .slash), (".", .dot),
    (",", .comma), ("(", .leftParen), (")", .rightParen), ("\x7b", .leftBrace),
    ("\x7d", .rightBrace), (";", .semicolon), ("?", .question), ("^", .caret), ("*", .star),
    ("+", .plus), ("-", .minus), ("|", .pipe), ("&", .ampersand), ("!", .bang), ("=", .equal),
    ("~", .contains), ("<", .less), (">", .greater)]

/-- Letters, the underscore and bytes of wide characters. -/
def isNameStart (b : Byte) : Bool := Byte.isAlpha b || b == '_' || Byte.isWide b

def isNameByte (b : Byte) : Bool := isNameStart b || Byte.isDigit b

structure Lexeme where
  kind : Kind
  text : Text
  rest : Text

/-- Digits behind a point; a point without a digit behind it is not part of a number. -/
def fraction? : Text → Option Text
  | b :: d :: r => if b = '.' ∧ Byte.isDigit d = true then some (r.dropWhile Byte.isDigit) else none
  | _ => none

def skipSign : Text → Text
  | [] => []
  | b :: r => if b = '+' ∨ b = '-' then r else b :: r

def exponent? : Text → Option Text
  | [] => none
  | b :: r =>
    if b = 'e' ∨ b = 'E' then
      match skipSign r with
      | [] => none
      | d :: s => if Byte.isDigit d then some (s.dropWhile Byte.isDigit) else none
    else none

def mantissa (t : Text) : Kind × Text :=
  match fraction? (t.dropWhile Byte.isDigit) with
  | some rest => (.decimal, rest)
  | none => (.integer, t.dropWhile Byte.isDigit)

def numeral (t : Text) : Kind × Text :=
  match exponent? (mantissa t).2 with
  | some rest => (.float, rest)
  | none => mantissa t

def stringLexeme (body : Text) : Lexeme :=
  match Text.Quoted.scan '\'' body with
  | (content, some rest) => ⟨.string, content, rest⟩
  | (content, none) => ⟨.invalid, Byte.ofChar '\'' :: content, []⟩

def numberLexeme (t : Text) : Lexeme :=
  let (kind, rest) := numeral t
  ⟨kind, t.take (t.length - rest.length), rest⟩

def referenceLexeme : Text → Lexeme
  | [] => ⟨.invalid, "$", []⟩
  | b :: r =>
    if isNameStart b then
      ⟨.reference, (b :: r).takeWhile isNameByte, (b :: r).dropWhile isNameByte⟩
    else ⟨.invalid, "$", b :: r⟩

def symbolLexeme (b : Byte) (r : Text) : Lexeme :=
  match symbols.find? fun s => s.1.isPrefixOf (b :: r) with
  | some (spelling, kind) => ⟨kind, spelling, r.drop (spelling.length - 1)⟩
  | none => ⟨.invalid, [b], r⟩

def lexeme (b : Byte) (r : Text) : Lexeme :=
  if b = '\'' then stringLexeme r
  else if Byte.isDigit b then numberLexeme (b :: r)
  else if isNameStart b then ⟨.name, (b :: r).takeWhile isNameByte, (b :: r).dropWhile isNameByte⟩
  else if b = '$' then referenceLexeme r
  else symbolLexeme b r

/-- What spells a token. -/
def spelling : Kind → Text → Text
  | .string, t => Text.Quoted.encode '\'' t
  | .reference, t => Byte.ofChar '$' :: t
  | _, t => t

def Kind.isPlain : Kind → Bool
  | .string | .reference | .invalid => false
  | _ => true

/-- A lexeme that starts with byte `b` is cut off by its spelling, or is a string without an end, or that
byte alone. -/
def Lexeme.CutFrom (l : Lexeme) (b : Byte) (r : Text) : Prop :=
  ∃ m, r = m ++ l.rest ∧ if l.kind = .invalid then b = '\'' ∧ l.rest = [] ∨ m = [] else b :: m = spelling l.kind l.text

section Cutting

open List

variable {b : Byte} {r t rest : Text}

theorem fraction?_suffix (h : fraction? t = some rest) : rest <:+ t := by
  unfold fraction? at h
  split at h
  next b d r =>
    split at h
    next =>
      cases h
      exact (dropWhile_suffix _).trans ((suffix_cons d r).trans (suffix_cons b _))
    next => cases h
  next => cases h

theorem skipSign_suffix (t : Text) : skipSign t <:+ t := by
  unfold skipSign
  split
  next => exact suffix_rfl
  next b r =>
    split
    next => exact suffix_cons b r
    next => exact suffix_rfl

theorem exponent?_suffix (h : exponent? t = some rest) : rest <:+ t := by
  unfold exponent? at h
  split at h
  next => cases h
  next b r =>
    split at h
    next =>
      split at h
      next => cases h
      next d s hs =>
        split at h
        next =>
          cases h
          have hskip := skipSign_suffix r
          rw [hs] at hskip
          exact (dropWhile_suffix _).trans ((suffix_cons d s).trans (hskip.trans (suffix_cons b r)))
        next => cases h
    next => cases h

theorem mantissa_cut (t : Text) : (mantissa t).1.isPlain ∧ (mantissa t).2 <:+ t.dropWhile Byte.isDigit := by
  unfold mantissa
  split
  next h => exact ⟨rfl, fraction?_suffix h⟩
  next => exact ⟨rfl, suffix_rfl⟩

theorem numeral_cut (t : Text) : (numeral t).1.isPlain ∧ (numeral t).2 <:+ t.dropWhile Byte.isDigit := by
  have hmantissa := mantissa_cut t
  unfold numeral
  split
  next h => exact ⟨rfl, (exponent?_suffix h).trans hmantissa.2⟩
  next => exact hmantissa

theorem Lexeme.cutFrom_of_append {l : Lexeme} (hkind : l.kind.isPlain) (ht : l.text ++ l.rest = b :: r)
    (hne : l.text ≠ []) : l.CutFrom b r := by
  obtain ⟨kind, _ | ⟨c, m⟩, rest⟩ := l
  · exact absurd rfl hne
  · obtain ⟨rfl, rfl⟩ := cons.inj ht
    refine ⟨m, rfl, ?_⟩
    cases kind <;> first | rfl | cases hkind

theorem stringLexeme_cut (r : Text) : (stringLexeme r).CutFrom (Byte.ofChar '\'') r := by
  unfold stringLexeme
  split
  next content rest h =>
    rw [Text.Quoted.of_scan h]
    exact ⟨Text.Quoted.escape (Byte.ofChar '\'') content ++ [Byte.ofChar '\''], by simp, rfl⟩
  next => exact ⟨r, (append_nil r).symm, .inl ⟨rfl, rfl⟩⟩

theorem numberLexeme_cut (hb : Byte.isDigit b) : (numberLexeme (b :: r)).CutFrom b r := by
  obtain ⟨hkind, hrest⟩ := numeral_cut (b :: r)
  rw [dropWhile_cons_of_pos hb] at hrest
  have hrest := hrest.trans (dropWhile_suffix _)
  refine Lexeme.cutFrom_of_append hkind (suffix_iff_eq_append.1 (hrest.trans (suffix_cons b r))) fun h => ?_
  have htext : (b :: r).length - (numeral (b :: r)).2.length = 0 := by simpa [numberLexeme] using h
  have := hrest.length_le
  rw [length_cons] at htext
  omega

theorem span_cut (kind : Kind) (hkind : kind.isPlain) (hb : isNameByte b) :
    Lexeme.CutFrom ⟨kind, (b :: r).takeWhile isNameByte, (b :: r).dropWhile isNameByte⟩ b r :=
  Lexeme.cutFrom_of_append hkind takeWhile_append_dropWhile (by simp [takeWhile_cons_of_pos hb])

theorem referenceLexeme_cut (r : Text) : (referenceLexeme r).CutFrom (Byte.ofChar '$') r := by
  unfold referenceLexeme
  split
  next => exact ⟨[], rfl, .inr rfl⟩
  next b r =>
    split
    next => exact ⟨_, takeWhile_append_dropWhile.symm, rfl⟩
    next => exact ⟨[], rfl, .inr rfl⟩

theorem symbolLexeme_cut (b : Byte) (r : Text) : (symbolLexeme b r).CutFrom b r := by
  unfold symbolLexeme
  split
  next text kind h =>
    have htable : ∀ s ∈ symbols, s.2.isPlain ∧ s.1 ≠ [] := by decide
    obtain ⟨hkind, hne⟩ := htable _ (mem_of_find?_eq_some h)
    refine Lexeme.cutFrom_of_append hkind ?_ hne
    have hprefix : text.isPrefixOf (b :: r) := find?_some (p := fun s : Text × Kind => s.1.isPrefixOf (b :: r)) h
    obtain ⟨c, m, rfl⟩ := exists_cons_of_ne_nil hne
    obtain ⟨rest, hrest⟩ := isPrefixOf_iff_prefix.1 hprefix
    obtain ⟨rfl, rfl⟩ := cons.inj hrest
    simp
  next => exact ⟨[], rfl, .inr rfl⟩

theorem lexeme_cut (b : Byte) (r : Text) : (lexeme b r).CutFrom b r := by
  unfold lexeme
  split
  next h => exact h ▸ stringLexeme_cut r
  next =>
    split
    next h => exact numberLexeme_cut h
    next =>
      split
      next h => exact span_cut .name rfl (by simp [isNameByte, h])
      next =>
        split
        next h => exact h ▸ referenceLexeme_cut r
        next => exact symbolLexeme_cut b r

theorem length_lexeme_rest_le (b : Byte) (r : Text) : (lexeme b r).rest.length ≤ r.length := by
  obtain ⟨m, hm, -⟩ := lexeme_cut b r
  have := congrArg length hm
  rw [length_append] at this
  omega

end Cutting

/-- The tokens of a text that is the end of a source of `total` bytes. -/
def scanFrom (total : Nat) (t : Text) : List Token :=
  match _ : Text.skipSpaces t with
  | [] => []
  | b :: r =>
    let l := lexeme b r
    ⟨l.kind, l.text, total - (b :: r).length, total - l.rest.length⟩ :: scanFrom total l.rest
termination_by t.length
decreasing_by
  have h1 := length_lexeme_rest_le b r
  have h2 := Text.length_skipSpaces_le t
  rw [‹Text.skipSpaces t = _›, List.length_cons] at h2
  omega

def scan (t : Text) : List Token := scanFrom t.length t

end NavQuery.Token
