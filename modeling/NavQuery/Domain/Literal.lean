import NavQuery.Domain.Items
import NavQuery.Error
import NavQuery.Value

/-!
`Domain.read` gives the value that a text spells in a domain and `Domain.write` the text of a value. An
identity joins the texts of its parts with points, where plain labels stand unquoted and nested
identities of several parts stand in parentheses.
-/

namespace NavQuery.Domain

abbrev Reader := Text → Except Fault Value

abbrev Writer := Value → Result Text

def readBoolean (t : Text) : Except Fault Value :=
  if t = Text.ofString "true" then .ok (.boolean true)
  else if t = Text.ofString "false" then .ok (.boolean false)
  else .error (.boolean t)

def readInteger (t : Text) : Except Fault Value :=
  let (negative, digits) := Decimal.readSign t
  if digits.isEmpty || !digits.all Byte.isDigit then .error (.integer t)
  else
    let magnitude : Int := Text.toNat digits
    .ok (.integer (if negative then -magnitude else magnitude))

def readFloat (t : Text) : Except Fault Value :=
  match t with
  | [] => .error (.float t)
  | b :: _ =>
    if Byte.isSpace b then .error (.float t)
    else
      match Binary64.read? t with
      | some (x, []) => if x.isFinite then .ok (.float x) else .error (.float t)
      | _ => .error (.float t)

def readDecimal (t : Text) : Except Fault Value :=
  match Decimal.read? t with
  | some d => .ok (.decimal d)
  | none => .error (.decimal t)

def readEnum (labels : List Text) (t : Text) : Except Fault Value :=
  if labels.contains t then .ok (.text t) else .error (.enum t)

def calendarFault (shape : Fault) : CalendarFault → Fault
  | .shape => shape
  | .month => .month
  | .day => .day
  | .time => .clock

def finish (value : Value) (rest : Text) (fault : Fault) : Except Fault Value :=
  if (Text.skipSpaces rest).isEmpty then .ok value else .error fault

def readDate (t : Text) : Except Fault Value := do
  let (d, rest) ← (Date.read (Text.skipSpaces t)).mapError (calendarFault (.date t))
  finish (.date d) rest .dateTail

def readTime (t : Text) : Except Fault Value := do
  let (c, rest) ← (Time.read (Text.skipSpaces t)).mapError (calendarFault (.time t))
  finish (.time c) rest .timeTail

def readDateTime (t : Text) : Except Fault Value := do
  let (d, rest) ← (Date.read (Text.skipSpaces t)).mapError (calendarFault (.dateTime t))
  match rest with
  | [] => finish (.dateTime ⟨d, .midnight⟩) [] .dateTimeTail
  | b :: r =>
    if b = ' ' ∨ b = 'T' then
      let (c, rest) ← (Time.read (Text.skipSpaces r)).mapError (calendarFault (.dateTimeClock t))
      finish (.dateTime ⟨d, c⟩) rest .dateTimeTail
    else finish (.dateTime ⟨d, .midnight⟩) (b :: r) .dateTimeTail

def readItem (reader : Reader) : Items.Item → Except Fault Value
  | none => .ok .null
  | some content => reader content

def closing (close : Byte) (spare : Bool) : Items.Ending → Except Fault Text
  | .closed rest => .ok rest
  | .badItem fault => .error (if spare then fault else .tooManyItems)
  | .badSeparator => .error (.separator close)

def readOpening (bracket : Byte) (t : Text) : Except Fault Text :=
  match Text.skipSpaces t with
  | [] => .error (.opening bracket)
  | b :: r => if b = bracket then .ok r else .error (.opening bracket)

def readList (reader : Reader) (t : Text) : Except Fault Value := do
  let body ← readOpening '[' t
  let (items, ending) := Items.scan ']' body
  let values ← items.mapM (readItem reader)
  let rest ← closing ']' true ending
  finish (.list values) rest .tail

def readItems : List Reader → List Items.Item → Except Fault (List Value × List Reader)
  | readers, [] => .ok ([], readers)
  | [], _ :: _ => .error .tooManyItems
  | reader :: readers, item :: items => do
    let value ← readItem reader item
    let (values, left) ← readItems readers items
    return (value :: values, left)

def readRecord (readers : List Reader) (t : Text) : Except Fault Value := do
  let body ← readOpening '(' t
  let (items, ending) := Items.scan ')' body
  let (values, left) ← readItems readers items
  let rest ← closing ')' (!left.isEmpty) ending
  let value ← finish (.list values) rest .tail
  if left.isEmpty then return value else throw .fieldCount

def isLabelByte (b : Byte) : Bool := Byte.isAlphanum b || b == '_' || b == '-'

def readLabel : Text → Except Fault (Text × Text)
  | [] => .error .locator
  | b :: r =>
    if b = '\'' then
      match Text.Quoted.scan '\'' r with
      | (_, none) => .error .unterminatedItem
      | (content, some rest) => .ok (content, rest)
    else if isLabelByte b then .ok ((b :: r).takeWhile isLabelByte, (b :: r).dropWhile isLabelByte)
    else .error .locator

def readByte (b : Byte) : Text → Except Fault Text
  | [] => .error .locator
  | c :: r => if c = b then .ok r else .error .locator

abbrev PartsReader := Text → Except Fault (List Value × Text)

/-- A part of an identity: a label read in its domain, or the parts of a nested identity, in
parentheses if there are several. -/
def readPart (reader : Reader) : Option (Bool × PartsReader) → Text → Except Fault (Value × Text)
  | none, t => do
    let (label, t) ← readLabel t
    let value ← reader label
    return (value, t)
  | some (false, parts), t => do
    let (values, t) ← parts t
    return (.list values, t)
  | some (true, parts), t => do
    let t ← readByte '(' t
    let (values, t) ← parts t
    let t ← readByte ')' (Text.skipSpaces t)
    return (.list values, t)

mutual

def read : Domain → Text → Except Fault Value
  | unknown, _ => .error (.noLiteral "unknown")
  | void, _ => .error (.noLiteral "void")
  | entity _, _ => .error (.noLiteral "entity")
  | untyped, t | text, t | external _, t => .ok (.text t)
  | boolean, t => readBoolean t
  | integer, t => readInteger t
  | float, t => readFloat t
  | decimal, t => readDecimal t
  | enum labels, t => readEnum labels t
  | date, t => readDate t
  | time, t => readTime t
  | dateTime, t => readDateTime t
  | list item, t => readList (fun s => read item s) t
  | record fields, t => readRecord (fieldReaders fields) t
  | identity parts, t => do
    let (values, rest) ← readParts parts true t
    finish (.list values) rest .locator

def fieldReaders : List (Text × Domain) → List Reader
  | [] => []
  | f :: fs => fieldReader f :: fieldReaders fs

def fieldReader : Text × Domain → Reader
  | (_, d) => fun s => read d s

/-- The parts of an identity at the front of a text; `first` tells that no point is due. -/
def readParts : List Domain → Bool → Text → Except Fault (List Value × Text)
  | [], _, t => .ok ([], t)
  | d :: ds, first, t => do
    let t := Text.skipSpaces t
    let t ← if first then pure t else Text.skipSpaces <$> readByte '.' t
    let (value, t) ← readPart (fun s => read d s) (nestedParts d) t
    let (values, t) ← readParts ds false t
    return (value :: values, t)

def nestedParts : Domain → Option (Bool × PartsReader)
  | identity parts => some (1 < parts.length, fun t => readParts parts true t)
  | _ => none

end

def isPlainLabel (t : Text) : Bool := !t.isEmpty && t.all isLabelByte

def writeItem (writer : Writer) : Value → Result Items.Item
  | .null => .ok none
  | v => some <$> writer v

def writeList (writer : Writer) : Value → Result Text
  | .list values => do
    let items ← values.mapM (writeItem writer)
    return Items.write '[' ']' items
  | _ => .error .kindMismatch

def writeItems : List Writer → List Value → Result (List Items.Item)
  | writer :: writers, v :: vs => do
    let item ← writeItem writer v
    let items ← writeItems writers vs
    return item :: items
  | _, _ => .ok []

def writeRecord (writers : List Writer) : Value → Result Text
  | .list values => do
    if values.length ≠ writers.length then throw (.literal .recordShape)
    let items ← writeItems writers values
    return Items.write '(' ')' items
  | _ => .error .kindMismatch

def writeLabel (writer : Writer) (v : Value) : Result Text := do
  let label ← writer v
  return if isPlainLabel label then label else Text.Quoted.encode '\'' label

/-- A part of an identity: a label, or a nested identity, in parentheses if it has several parts. -/
def writePart (writer : Writer) : Option (Bool × Writer) → Writer
  | none => writeLabel writer
  | some (false, nested) => nested
  | some (true, nested) => fun v => do
    let t ← nested v
    return "(" ++ t ++ ")"

def writeParts : List Writer → List Value → Result (List Text)
  | writer :: writers, v :: vs => do
    let t ← writer v
    let ts ← writeParts writers vs
    return t :: ts
  | _, _ => .ok []

def writeIdentity (writers : List Writer) : Writer
  | .list values => do
    if values.length ≠ writers.length then throw (.literal .identityShape)
    let ts ← writeParts writers values
    return Text.join "." ts
  | _ => .error .kindMismatch

def writeScalar : Domain → Value → Result Text
  | unknown, _ => .error (.literal (.noText "unknown"))
  | void, _ => .error (.literal (.noText "void"))
  | entity _, _ => .error (.literal (.noText "entity"))
  | untyped, .text t | text, .text t | external _, .text t | enum _, .text t => .ok t
  | boolean, .boolean b => .ok (if b then "true" else "false")
  | integer, .integer n => .ok (Text.ofInt n)
  | float, .float x => .ok x.writeShortest
  | decimal, .decimal d | date, .date d => .ok d.write
  | time, .time t | dateTime, .dateTime t => .ok t.write
  | _, _ => .error .kindMismatch

mutual

def write : Domain → Value → Result Text
  | d, v =>
    if v.isNull then .error (.literal .nullText)
    else
      match d with
      | list item => writeList (fun u => write item u) v
      | record fields => writeRecord (fieldWriters fields) v
      | identity parts => writeIdentity (partWriters parts) v
      | d => writeScalar d v

def fieldWriters : List (Text × Domain) → List Writer
  | [] => []
  | f :: fs => fieldWriter f :: fieldWriters fs

def fieldWriter : Text × Domain → Writer
  | (_, d) => fun v => write d v

def partWriters : List Domain → List Writer
  | [] => []
  | d :: ds => writePart (fun v => write d v) (nestedWriter d) :: partWriters ds

def nestedWriter : Domain → Option (Bool × Writer)
  | identity parts => some (1 < parts.length, writeIdentity (partWriters parts))
  | _ => none

end

end NavQuery.Domain
