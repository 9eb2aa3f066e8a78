import NavQuery.Catalog
import NavQuery.Json.Reader

/-!
A catalog file is a JSON document. A foreign key in it names a table with its schema, or alone if no
other schema has a table of that name.
-/

namespace NavQuery.Catalog.File

inductive Problem
  | malformed (position : Json.Position)
  | noSchemas
  | wrongKind (expected : Text) (found : Json)
  | missing (field : Text)
  | namesExpected (context : Text)
  | unknownTable (name : Text)
  | refused (context : Option Text) (violation : Violation)

def Problem.message : Problem → Text
  | malformed p =>
    "invalid catalog JSON: parse error at line " ++ Text.ofNat p.line ++ ", column "
      ++ Text.ofNat p.column
  | noSchemas => "catalog JSON must hold a \"schemas\" list"
  | wrongKind expected found => "type must be " ++ expected ++ ", but is " ++ found.kindName
  | missing field => "key '" ++ field ++ "' not found"
  | namesExpected context => context ++ ": expected a list of names"
  | unknownTable name => "unknown table in foreign key: " ++ name
  | refused none violation => violation.message
  | refused (some context) violation => context ++ ": " ++ violation.message

abbrev Reading := Except Problem

def text : Json → Reading Text
  | .string t => .ok t
  | j => .error (.wrongKind "string" j)

def flag : Json → Reading Bool
  | .bool b => .ok b
  | j => .error (.wrongKind "boolean" j)

def items : Json → Reading (List Json)
  | .array js => .ok js
  | j => .error (.wrongKind "array" j)

def optional {α : Type} (read : Json → Reading α) (default : α) (name : Text) (j : Json) :
    Reading α :=
  match j.field? name with
  | some value => read value
  | none => .ok default

def required {α : Type} (read : Json → Reading α) (name : Text) (j : Json) : Reading α :=
  match j.field? name with
  | some value => read value
  | none => .error (.missing name)

def names (context : Text) : Json → Reading (List Text)
  | .array js =>
    js.mapM fun
      | .string t => .ok t
      | _ => .error (.namesExpected context)
  | _ => .error (.namesExpected context)

def extend (context : Option Text) (c : Catalog) (step : Step) : Reading Catalog :=
  match c.apply step with
  | (c, .ok ()) => .ok c
  | (_, .error violation) => .error (.refused context violation)

def columnDomain (context : Text) (j : Json) : Reading Domain := do
  let type ← optional text "text" "type" j
  if type = "enum" then return .enum (← optional (names context) [] "labels" j)
  else return (Domain.ofName? type).getD (.external type)

def addColumn (table : TableName) (context : Text) (c : Catalog) (j : Json) : Reading Catalog := do
  let domain ← columnDomain context j
  let name ← required text "name" j
  let nullable ← optional flag true "nullable" j
  let hasDefault ← optional flag false "default" j
  extend none c (.column table name domain nullable hasDefault)

def addKey (table : TableName) (context : Text) (primary : Bool) (c : Catalog) (j : Json) :
    Reading Catalog := do
  extend (some context) c (.key table (← names context j) primary false)

def addTable (schema : Text) (c : Catalog) (j : Json) : Reading Catalog := do
  let table : TableName := ⟨schema, ← required text "name" j⟩
  let context : Text := schema ++ "." ++ table.table
  let c ← extend none c (.table table)
  let c ← (← optional items [] "columns" j).foldlM (addColumn table context) c
  let c ← (j.field? "primary_key").toList.foldlM (addKey table context true) c
  (← optional items [] "unique_keys" j).foldlM (addKey table context false) c

def addSchema (c : Catalog) (j : Json) : Reading Catalog := do
  let name ← optional text "public" "name" j
  let c ← extend none c (.schema name)
  (← optional items [] "tables" j).foldlM (addTable name) c

def tableNamed (c : Catalog) (name : Text) : Reading TableName :=
  let tables := c.schemas.flatMap fun s => s.tables.map (·.name)
  match tables.find? (fun t => t.schema ++ "." ++ t.table == name) with
  | some t => .ok t
  | none =>
    match tables.filter (·.table == name) with
    | [t] => .ok t
    | _ => .error (.unknownTable name)

def addForeignKey (c : Catalog) (j : Json) : Reading Catalog := do
  let origin ← tableNamed c (← required text "origin" j)
  let target ← tableNamed c (← required text "target" j)
  let context : Text := "foreign key " ++ origin.table ++ " -> " ++ target.table
  let columns ← required (names context) "columns" j
  let targetColumns ← required (names context) "target_columns" j
  let incomplete ← optional flag false "partial" j
  extend (some context) c (.foreignKey origin columns target targetColumns incomplete)

def ofJson (j : Json) : Reading Catalog :=
  match j.field? "schemas" with
  | some (.array schemas) => do
    let c ← schemas.foldlM addSchema Catalog.empty
    (← optional items [] "foreign_keys" j).foldlM addForeignKey c
  | _ => .error .noSchemas

def read (t : Text) : Reading Catalog :=
  match Json.read t with
  | .ok j => ofJson j
  | .error position => .error (.malformed position)

end NavQuery.Catalog.File
