import NavQuery.Text

/-!
Civil dates and times of day with their texts.
-/

namespace NavQuery

structure Date where
  year : Int
  month : Int
  day : Int
deriving DecidableEq

structure Time where
  hour : Int
  minute : Int
  second : Int
  microsecond : Int
deriving DecidableEq

structure DateTime where
  date : Date
  time : Time
deriving DecidableEq

/-- Why a text is no date or time: its shape, or a number in it. -/
inductive CalendarFault
  | shape
  | month
  | day
  | time
deriving DecidableEq

namespace Date

def isLeapYear (year : Nat) : Bool := (year % 4 == 0 && year % 100 != 0) || year % 400 == 0

def daysInMonth (year month : Nat) : Nat :=
  if month = 2 then if isLeapYear year then 29 else 28
  else if month = 4 ∨ month = 6 ∨ month = 9 ∨ month = 11 then 30
  else 31

def readDigits (count : Nat) (t : Text) : Except CalendarFault (Nat × Text) :=
  let digits := t.take count
  if digits.length = count ∧ digits.all Byte.isDigit = true then
    .ok (Text.toNat digits, t.drop count)
  else .error .shape

def skipByte (b : Byte) : Text → Except CalendarFault Text
  | [] => .error .shape
  | c :: r => if c = b then .ok r else .error .shape

def read (t : Text) : Except CalendarFault (Date × Text) := do
  let (year, t) ← readDigits 4 t
  let t ← skipByte '-' t
  let (month, t) ← readDigits 2 t
  let t ← skipByte '-' t
  let (day, t) ← readDigits 2 t
  if year < 1 ∨ month < 1 ∨ 12 < month then throw .month
  if day < 1 ∨ daysInMonth year month < day then throw .day
  return (⟨year, month, day⟩, t)

def write (d : Date) : Text :=
  Text.padInt 4 d.year ++ "-" ++ Text.padInt 2 d.month ++ "-" ++ Text.padInt 2 d.day

end Date

namespace Time

/-- Microseconds from the digits of a fraction: shorter ones are padded, longer ones are cut. -/
def microseconds (digits : Text) : Nat :=
  Text.toNat ((digits ++ List.replicate 6 48).take 6)

def readFraction : Text → Except CalendarFault (Nat × Text)
  | [] => .ok (0, [])
  | b :: r =>
    if b = '.' then
      let digits := r.takeWhile Byte.isDigit
      if digits.isEmpty then .error .shape
      else .ok (microseconds digits, r.dropWhile Byte.isDigit)
    else .ok (0, b :: r)

def readSeconds : Text → Except CalendarFault (Nat × Nat × Text)
  | [] => .ok (0, 0, [])
  | b :: r =>
    if b = ':' then do
      let (second, t) ← Date.readDigits 2 r
      let (micro, t) ← readFraction t
      return (second, micro, t)
    else .ok (0, 0, b :: r)

def readHour (t : Text) : Except CalendarFault (Nat × Text) :=
  let digits := (t.take 2).takeWhile Byte.isDigit
  if digits.isEmpty then .error .shape else .ok (Text.toNat digits, t.drop digits.length)

def read (t : Text) : Except CalendarFault (Time × Text) := do
  let (hour, t) ← readHour t
  let t ← Date.skipByte ':' t
  let (minute, t) ← Date.readDigits 2 t
  let (second, micro, t) ← readSeconds t
  if 23 < hour ∨ 59 < minute ∨ 59 < second then throw .time
  return (⟨hour, minute, second, micro⟩, t)

def write (t : Time) : Text :=
  let fraction : Text := if t.microsecond = 0 then [] else "." ++ Text.padInt 6 t.microsecond
  Text.padInt 2 t.hour ++ ":" ++ Text.padInt 2 t.minute ++ ":" ++ Text.padInt 2 t.second ++ fraction

def midnight : Time := ⟨0, 0, 0, 0⟩

end Time

namespace DateTime

def write (t : DateTime) : Text := t.date.write ++ " " ++ t.time.write

end DateTime

end NavQuery
