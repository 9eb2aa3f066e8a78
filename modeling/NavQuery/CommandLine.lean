import NavQuery.Settings

/-!
A later option replaces an earlier one, while parameters add up.
-/

namespace NavQuery

structure CommandLine where
  catalog : Text
  query : Text
  queryFile : Text
  parameters : List (Text × Text)
  limit : Option Nat
  dialect : Option Dialect
  mode : Option Mode
  explain : Bool
  color : Option Bool
  help : Bool

namespace CommandLine

def empty : CommandLine := ⟨[], [], [], [], none, none, none, false, none, false⟩

inductive Problem
  | parameter
  | limit
  | dialect
  | mode
  | unknown (argument : Text)
deriving DecidableEq

def Problem.message : Problem → Text
  | parameter => "Invalid --param value (use name=value)"
  | limit => "Invalid --limit value (use a non-negative integer)"
  | dialect => "Invalid --dialect value (use ansi|pgsql|sqlite)"
  | mode => "Invalid --mode value (use sql|json|plan)"
  | unknown argument => "Unknown or incomplete argument: " ++ argument

def parameter? (t : Text) : Option (Text × Text) :=
  match Text.splitAtByte '=' t with
  | ([], _) | (_, []) => none
  | (name, _ :: value) => some (name, value)

def flag? (c : CommandLine) (word : Text) : Option CommandLine :=
  if word = "--explain" then some { c with explain := true }
  else if word = "--color=disabled" then some { c with color := some false }
  else if word = "--help" then some { c with help := true }
  else none

def option? (c : CommandLine) (word value : Text) : Option (Except Problem CommandLine) :=
  if word = "--catalog" then some (.ok { c with catalog := value })
  else if word = "--query" then some (.ok { c with query := value })
  else if word = "--query-file" then some (.ok { c with queryFile := value })
  else if word = "--param" then
    some (demand (parameter? value) .parameter fun p => { c with parameters := c.parameters ++ [p] })
  else if word = "--limit" then
    some (demand value.toCount? .limit fun n => { c with limit := some n })
  else if word = "--dialect" then
    some (demand (Dialect.ofName? value) .dialect fun d => { c with dialect := some d })
  else if word = "--mode" then
    some (demand (Mode.ofName? value) .mode fun m => { c with mode := some m })
  else none
where
  demand {α : Type} (found : Option α) (p : Problem) (set : α → CommandLine) :
      Except Problem CommandLine :=
    match found with
    | some a => .ok (set a)
    | none => .error p

def read (c : CommandLine) : List Text → CommandLine × Option Problem
  | [] => (c, none)
  | [word] =>
    match c.flag? word with
    | some c => (c, none)
    | none => (c, some (.unknown word))
  | word :: value :: rest =>
    match c.option? word value with
    | some (.ok c) => read c rest
    | some (.error p) => (c, some p)
    | none =>
      match c.flag? word with
      | some c => read c (value :: rest)
      | none => (c, some (.unknown word))

def ofArguments (arguments : List Text) : CommandLine × Option Problem := read empty arguments

def startupText : Text := Text.concat (List.map Text.ofString [
  "navsql - navigational query to SQL translator\n\n",
  "Usage:\n",
  "  navsql --catalog <file.json> --query <query>\n",
  "  navsql --catalog <file.json> --query-file <file>\n",
  "  navsql --param name=value --limit <n>\n",
  "  navsql --dialect ansi|pgsql|sqlite\n",
  "  navsql --mode sql|json|plan\n",
  "  navsql --explain\n",
  "  navsql --color=disabled\n\n",
  "Notes:\n",
  "  - If --query and --query-file are omitted, the query is read from stdin.\n",
  "  - Defaults come from $NAVSQL_CONFIG or ~/.config/navsql/config.toml.\n\n",
  "Examples:\n",
  "  navsql --catalog school.json --query \"/school\x7bname, count(department)\x7d\"\n",
  "  navsql --catalog school.json --query \"/course?credits>\\$n\" --param n=3 --mode json\n"])

def helpText : Text := Text.concat (List.map Text.ofString [
  "Usage: navsql --catalog <file.json> --query <query>\n",
  "       navsql --catalog <file.json> --query-file <file>\n",
  "       navsql --param name=value   (repeatable)\n",
  "       navsql --limit <n>\n",
  "       navsql --dialect ansi|pgsql|sqlite\n",
  "       navsql --mode sql|json|plan\n",
  "       navsql --explain\n",
  "       navsql --color=disabled\n",
  "If no query is given, it is read from stdin.\n"])

end CommandLine

end NavQuery
