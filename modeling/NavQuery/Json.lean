import NavQuery.Palette

/-!
Documents with their numbers kept as numerals, and their text with a value on a line.
-/

namespace NavQuery

inductive Json
  | null
  | bool (value : Bool)
  | number (numeral : Text)
  | string (value : Text)
  | array (items : List Json)
  | object (fields : List (Text × Json))

namespace Json

def field? (name : Text) : Json → Option Json
  | object fields => (fields.reverse.find? (·.1 == name)).map (·.2)
  | _ => none

def kindName : Json → Text
  | null => "null"
  | bool _ => "boolean"
  | number _ => "number"
  | string _ => "string"
  | array _ => "array"
  | object _ => "object"

def hexDigit (n : Nat) : Byte := if n < 10 then Byte.digit n else (87 + n % 16).toUInt8

/-- A byte inside quotes. Control characters have short names or are written by their codes. -/
def escapeByte (b : Byte) : Text :=
  if b = '"' then "\\\""
  else if b = '\\' then "\\\\"
  else if b = 8 then "\\b"
  else if b = 9 then "\\t"
  else if b = 10 then "\\n"
  else if b = 12 then "\\f"
  else if b = 13 then "\\r"
  else if b < 32 then "\\u00" ++ [hexDigit (b.toNat / 16), hexDigit (b.toNat % 16)]
  else [b]

def quote (t : Text) : Text := "\"" ++ t.flatMap escapeByte ++ "\""

def block (opening closing : Text) (depth : Nat) (lines : List Text) : Text :=
  if lines.isEmpty then opening ++ closing
  else
    let inner := lines.map (Text.blanks (2 * depth + 2) ++ ·)
    opening ++ "\n" ++ Text.join ",\n" inner ++ "\n" ++ Text.blanks (2 * depth) ++ closing

mutual

def render (p : Palette) (depth : Nat) : Json → Text
  | null => p.paint (·.yellow) "null"
  | bool true => p.paint (·.yellow) "true"
  | bool false => p.paint (·.yellow) "false"
  | number numeral => p.paint (·.cyan) numeral
  | string value => p.paint (·.green) (quote value)
  | array items => block "[" "]" depth (renderItems p (depth + 1) items)
  | object fields => block "\x7b" "\x7d" depth (renderFields p (depth + 1) fields)

def renderItems (p : Palette) (depth : Nat) : List Json → List Text
  | [] => []
  | j :: js => render p depth j :: renderItems p depth js

def renderFields (p : Palette) (depth : Nat) : List (Text × Json) → List Text
  | [] => []
  | f :: fs => renderField p depth f :: renderFields p depth fs

def renderField (p : Palette) (depth : Nat) : Text × Json → Text
  | (name, value) => p.paint (·.green) (quote name) ++ ": " ++ render p depth value

end

end Json

end NavQuery
