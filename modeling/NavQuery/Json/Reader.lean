import NavQuery.Json

/-!
Readers return the text behind a document, or the number of bytes that are left where the text goes
wrong.
-/

namespace NavQuery.Json

abbrev Reading := Except Nat

def isBlank (b : Byte) : Bool := b == 32 || b == 9 || b == 10 || b == 13

def skipBlanks (t : Text) : Text := t.dropWhile isBlank

def hexValue? (b : Byte) : Option Nat :=
  if b.isDigit then some b.digitValue
  else if 97 ≤ b && b ≤ 102 then some (b.toNat - 87)
  else if 65 ≤ b && b ≤ 70 then some (b.toNat - 55)
  else none

def codeUnit? (t : Text) : Option Nat :=
  let digits := t.take 4
  if digits.length = 4 then digits.foldlM (fun n b => (hexValue? b).map (16 * n + ·)) 0 else none

def character (code : Nat) : Text := Text.ofString (String.singleton (Char.ofNat code))

/-- A character by its code, and how many bytes spell it. Two units make up a code point beyond the first
65536. -/
def codeEscape? (t : Text) : Option (Text × Nat) := do
  let high ← codeUnit? t
  if high < 0xd800 || 0xdfff < high then return (character high, 4)
  else if 0xdc00 ≤ high then none
  else if (t.drop 4).take 2 = "\\u" then
    let low ← codeUnit? (t.drop 6)
    if 0xdc00 ≤ low && low ≤ 0xdfff then
      return (character (0x10000 + 0x400 * (high - 0xd800) + (low - 0xdc00)), 10)
    else none
  else none

def escape? : Text → Option (Text × Nat)
  | [] => none
  | b :: r =>
    if b = '"' ∨ b = '\\' ∨ b = '/' then some ([b], 1)
    else if b = 'b' then some ([8], 1)
    else if b = 't' then some ([9], 1)
    else if b = 'n' then some ([10], 1)
    else if b = 'f' then some ([12], 1)
    else if b = 'r' then some ([13], 1)
    else if b = 'u' then (codeEscape? r).map fun (t, n) => (t, n + 1)
    else none

def readString : Text → Reading (Text × Text)
  | [] => .error 0
  | b :: r =>
    if b = '"' then .ok ([], r)
    else if b < 32 then .error (r.length + 1)
    else if b = '\\' then
      match escape? r with
      | none => .error r.length
      | some (t, n) => (readString (r.drop n)).map fun (s, rest) => (t ++ s, rest)
    else (readString r).map fun (s, rest) => (b :: s, rest)
termination_by t => t.length
decreasing_by all_goals simp only [List.length_cons, List.length_drop]; omega

def readPart (opens : Byte → Bool) (hasSign : Bool) : Text → Option (Text × Text)
  | [] => some ([], [])
  | b :: r =>
    if opens b then
      let sign := if hasSign then (r.take 1).filter (fun c : Byte => c == 43 || c == 45) else []
      let body := r.drop sign.length
      let digits := body.takeWhile Byte.isDigit
      if digits.isEmpty then none
      else some (b :: (sign ++ digits), body.dropWhile Byte.isDigit)
    else some ([], b :: r)

def readWhole (t : Text) : Option (Text × Text) :=
  match t.takeWhile Byte.isDigit with
  | [] => none
  | b :: r => if b = '0' then some ([b], t.drop 1) else some (b :: r, t.dropWhile Byte.isDigit)

def readNumeral? (t : Text) : Option (Text × Text) := do
  let sign := (t.take 1).filter fun c : Byte => c == 45
  let (whole, t) ← readWhole (t.drop sign.length)
  let (fraction, t) ← readPart (· == 46) false t
  let (exponent, t) ← readPart (fun b => b == 69 || b == 101) true t
  return (sign ++ whole ++ fraction ++ exponent, t)

def readAtom (t : Text) : Reading (Json × Text) :=
  if t.take 4 = "null" then .ok (null, t.drop 4)
  else if t.take 4 = "true" then .ok (bool true, t.drop 4)
  else if t.take 5 = "false" then .ok (bool false, t.drop 5)
  else
    match readNumeral? t with
    | some (numeral, rest) => .ok (number numeral, rest)
    | none => .error t.length

def expect (b : Byte) (t : Text) : Reading Text :=
  match skipBlanks t with
  | [] => .error 0
  | c :: r => if c = b then .ok r else .error (r.length + 1)

mutual

def readValue : Nat → Text → Reading (Json × Text)
  | 0, t => .error t.length
  | n + 1, t =>
    match skipBlanks t with
    | [] => .error 0
    | b :: r =>
      if b = '"' then do
        let (s, rest) ← readString r
        return (string s, rest)
      else if b = '[' then
        match expect ']' r with
        | .ok rest => return (array [], rest)
        | .error _ => do
          let (items, rest) ← readItems n r
          return (array items, rest)
      else if b = 123 then
        match expect 125 r with
        | .ok rest => return (object [], rest)
        | .error _ => do
          let (fields, rest) ← readFields n r
          return (object fields, rest)
      else readAtom (b :: r)

def readItems : Nat → Text → Reading (List Json × Text)
  | 0, t => .error t.length
  | n + 1, t => do
    let (item, t) ← readValue n t
    match expect ',' t with
    | .ok t => do
      let (items, t) ← readItems n t
      return (item :: items, t)
    | .error _ => do
      let t ← expect ']' t
      return ([item], t)

def readFields : Nat → Text → Reading (List (Text × Json) × Text)
  | 0, t => .error t.length
  | n + 1, t => do
    let t ← expect '"' t
    let (name, t) ← readString t
    let t ← expect ':' t
    let (value, t) ← readValue n t
    match expect ',' t with
    | .ok t => do
      let (fields, t) ← readFields n t
      return ((name, value) :: fields, t)
    | .error _ => do
      let t ← expect 125 t
      return ([(name, value)], t)

end

structure Position where
  line : Nat
  column : Nat
deriving DecidableEq

def Position.behind (t : Text) : Position :=
  ⟨t.count 10 + 1, (t.reverse.takeWhile (· != 10)).length + 1⟩

def read (t : Text) : Except Position Json :=
  match readValue (t.length + 1) t with
  | .error left => .error (.behind (t.take (t.length - left)))
  | .ok (document, rest) =>
    let rest := skipBlanks rest
    if rest.isEmpty then .ok document else .error (.behind (t.take (t.length - rest.length)))

end NavQuery.Json
