import NavQuery.Statement
import NavQuery.Text.Integer

/-!
Defaults for the command line. Unknown keys are passed over; a known key with a wrong value ends the
reading.
-/

namespace NavQuery

inductive Mode
  | sql
  | json
  | plan
deriving DecidableEq

namespace Mode

def name : Mode → Text
  | sql => "sql"
  | json => "json"
  | plan => "plan"

def ofName? (t : Text) : Option Mode := [sql, json, plan].find? fun m => m.name == t

end Mode

structure Settings where
  limit : Option Nat
  dialect : Option Dialect
  mode : Option Mode
  color : Option Bool

namespace Settings

def empty : Settings := ⟨none, none, none, none⟩

inductive Key
  | limit
  | dialect
  | mode
  | color
deriving DecidableEq

namespace Key

def path : Key → Text
  | limit => "translate.limit"
  | dialect => "translate.dialect"
  | mode => "output.mode"
  | color => "output.color"

def ofPath? (t : Text) : Option Key := [limit, dialect, mode, color].find? fun k => k.path == t

end Key

structure Problem where
  key : Key
  line : Nat
deriving DecidableEq

def Problem.message (p : Problem) : Text :=
  "Invalid " ++ p.key.path ++ " at line " ++ Text.ofNat p.line

def unquote? (t : Text) : Option Text :=
  match t.trim with
  | [] => none
  | b :: r =>
    if (b = '"' ∨ b = '\'') ∧ (b :: r).getLast? = some b then
      if r.isEmpty then none else some r.dropLast
    else some (b :: r)

def toBool? (t : Text) : Option Bool :=
  let word := t.toLower
  if word = "true" then some true else if word = "false" then some false else none

def set? (s : Settings) (value : Text) : Key → Option Settings
  | .limit => do return { s with limit := some (← value.toCount?) }
  | .dialect => do
    return { s with dialect := some (← Dialect.ofName? (← unquote? value).toLower) }
  | .mode => do return { s with mode := some (← Mode.ofName? (← unquote? value).toLower) }
  | .color => do return { s with color := some (← toBool? value) }

inductive Line
  | blank
  | heading (name : Text)
  | entry (key value : Text)

def Line.ofText (t : Text) : Line :=
  match t.trim with
  | [] => .blank
  | b :: r =>
    if b = '#' then .blank
    else if b = '[' ∧ r.getLast? = some (Byte.ofChar ']') then .heading (Text.trim r.dropLast)
    else
      match Text.splitAtByte '=' (b :: r) with
      | (_, []) => .blank
      | (key, _ :: value) =>
        if (Text.trim key).isEmpty then .blank else .entry (Text.trim key) (Text.trim value)

def keyPath (heading key : Text) : Text := if heading.isEmpty then key else heading ++ "." ++ key

def readLines (s : Settings) (heading : Text) (number : Nat) :
    List Text → Settings × Option Problem
  | [] => (s, none)
  | t :: ts =>
    match Line.ofText t with
    | .blank => readLines s heading (number + 1) ts
    | .heading name => readLines s name (number + 1) ts
    | .entry key value =>
      match Key.ofPath? (keyPath heading key) with
      | none => readLines s heading (number + 1) ts
      | some k =>
        match s.set? value k with
        | some s => readLines s heading (number + 1) ts
        | none => (s, some ⟨k, number⟩)

def read (t : Text) : Settings × Option Problem := readLines empty [] 1 t.lines

def inDirectory (directory name : Text) : Text :=
  if directory.getLast? = some (Byte.ofChar '/') then directory ++ name else directory ++ "/" ++ name

structure Places where
  file : Option Text
  configuration : Option Text
  home : Option Text

def path (p : Places) : Text :=
  match given p.file, given p.configuration, given p.home with
  | some file, _, _ => file
  | none, some directory, _ => inDirectory directory "navsql/config.toml"
  | none, none, some directory => inDirectory directory ".config/navsql/config.toml"
  | none, none, none => "navsql.config.toml"
where
  given (place : Option Text) : Option Text := place.filter (!·.isEmpty)

end Settings

end NavQuery
