import NavQuery.Domain

/-!
A catalog grows by build steps. A step that is refused tells why; a refused primary key still leaves the
columns before the unknown one not nullable. Tables are named by schema and table, columns of a table by
their positions, foreign keys by their numbers in the order of registration.
-/

namespace NavQuery

structure TableName where
  schema : Text
  table : Text
deriving DecidableEq

structure Column where
  index : Nat
  name : Text
  owner : TableName
  domain : Domain
  nullable : Bool
  hasDefault : Bool
deriving DecidableEq

instance : DecidableEq Column := fun a b => withPtrEqDecEq a b fun _ => instDecidableEqColumn a b

structure UniqueKey where
  columns : List Nat
  primary : Bool
  incomplete : Bool
deriving DecidableEq

/-- A table with the numbers of the foreign keys that start from it and that lead to it. -/
structure Table where
  name : TableName
  columns : List Column
  keys : List UniqueKey
  outgoing : List Nat
  referring : List Nat
deriving DecidableEq

structure ForeignKey where
  number : Nat
  origin : TableName
  originColumns : List Nat
  target : TableName
  targetColumns : List Nat
  incomplete : Bool
deriving DecidableEq

structure Schema where
  name : Text
  tables : List Table
deriving DecidableEq

structure Catalog where
  schemas : List Schema
  foreignKeys : List ForeignKey
deriving DecidableEq

inductive Violation
  | duplicateSchema (name : Text)
  | duplicateTable (name : TableName)
  | duplicateColumn (table column : Text)
  | unknownColumn (table column : Text)
  | emptyKey (table : Text)
  | secondPrimaryKey (table : Text)
  | mismatchedColumns (origin target : Text)
  | unknownOwner
deriving DecidableEq

def Violation.wording : Violation → Text
  | duplicateSchema name => "duplicate schema " ++ name
  | duplicateTable name => "duplicate table " ++ name.schema ++ "." ++ name.table
  | duplicateColumn table column => "duplicate column " ++ table ++ "." ++ column
  | unknownColumn table column => "unknown column " ++ table ++ "." ++ column
  | emptyKey table => "a unique key of " ++ table ++ " needs at least one column"
  | secondPrimaryKey table => "table " ++ table ++ " already has a primary key"
  | mismatchedColumns origin target =>
    "foreign key " ++ origin ++ " -> " ++ target ++ " has mismatched columns"
  | unknownOwner => []

def Violation.message (v : Violation) : Text := v.wording.untilZero

namespace Table

instance : DecidableEq Table := fun a b => withPtrEqDecEq a b fun _ => instDecidableEqTable a b

def primaryKey? (t : Table) : Option UniqueKey := t.keys.find? (·.primary)

def column? (t : Table) (name : Text) : Option Column := t.columns.find? (·.name == name)

def columnsAt (t : Table) (positions : List Nat) : List Column :=
  positions.filterMap (t.columns[·]?)

def addColumn (t : Table) (name : Text) (domain : Domain) (nullable hasDefault : Bool) :
    Except Violation Table :=
  if (t.column? name).isSome then .error (.duplicateColumn t.name.table name)
  else
    let column : Column := ⟨t.columns.length, name, t.name, domain, nullable, hasDefault⟩
    .ok { t with columns := t.columns ++ [column] }

def requireColumn (t : Table) (position : Nat) : Table :=
  { t with columns := t.columns.map fun c =>
      if c.index = position then { c with nullable := false } else c }

/-- The positions of the named columns up to the first unknown one. Columns of a primary key become
not nullable on the way. -/
def resolveKey (primary : Bool) : Table → List Text → Table × Except Violation (List Nat)
  | t, [] => (t, .ok [])
  | t, name :: names =>
    match t.column? name with
    | none => (t, .error (.unknownColumn t.name.table name))
    | some c =>
      let next := resolveKey primary (if primary then t.requireColumn c.index else t) names
      (next.1, next.2.map (c.index :: ·))

def addKey (t : Table) (columns : List Text) (primary incomplete : Bool) :
    Table × Except Violation Unit :=
  if columns.isEmpty then (t, .error (.emptyKey t.name.table))
  else if primary && t.primaryKey?.isSome then (t, .error (.secondPrimaryKey t.name.table))
  else
    match t.resolveKey primary columns with
    | (t, .error violation) => (t, .error violation)
    | (t, .ok positions) => ({ t with keys := t.keys ++ [⟨positions, primary, incomplete⟩] }, .ok ())

def position (t : Table) (name : Text) : Except Violation Nat :=
  match t.column? name with
  | none => .error (.unknownColumn t.name.table name)
  | some c => .ok c.index

end Table

def Schema.table? (s : Schema) (name : Text) : Option Table :=
  s.tables.find? (·.name.table == name)

namespace Catalog

def empty : Catalog := ⟨[], []⟩

def schema? (c : Catalog) (name : Text) : Option Schema := c.schemas.find? (·.name == name)

def table? (c : Catalog) (name : TableName) : Option Table := do
  (← c.schema? name.schema).table? name.table

def foreignKey? (c : Catalog) (number : Nat) : Option ForeignKey := c.foreignKeys[number]?

def mapTable (c : Catalog) (name : TableName) (f : Table → Table) : Catalog :=
  { c with schemas := c.schemas.map fun s =>
      { s with tables := s.tables.map fun t => if t.name = name then f t else t } }

inductive Step
  | schema (name : Text)
  | table (name : TableName)
  | column (table : TableName) (name : Text) (domain : Domain) (nullable hasDefault : Bool)
  | key (table : TableName) (columns : List Text) (primary incomplete : Bool)
  | foreignKey (origin : TableName) (originColumns : List Text) (target : TableName)
      (targetColumns : List Text) (incomplete : Bool)

def addSchema (c : Catalog) (name : Text) : Except Violation Catalog :=
  if (c.schema? name).isSome then .error (.duplicateSchema name)
  else .ok { c with schemas := c.schemas ++ [⟨name, []⟩] }

def addTable (c : Catalog) (name : TableName) : Except Violation Catalog :=
  match c.schema? name.schema with
  | none => .error .unknownOwner
  | some s =>
    if (s.table? name.table).isSome then .error (.duplicateTable name)
    else
      .ok { c with schemas := c.schemas.map fun s =>
              if s.name = name.schema then { s with tables := s.tables ++ [⟨name, [], [], [], []⟩] }
              else s }

def addForeignKey (c : Catalog) (origin : TableName) (originColumns : List Text)
    (target : TableName) (targetColumns : List Text) (incomplete : Bool) :
    Except Violation Catalog :=
  match c.table? origin, c.table? target with
  | some o, some t =>
    if originColumns.isEmpty || originColumns.length != targetColumns.length then
      .error (.mismatchedColumns origin.table target.table)
    else do
      let origins ← originColumns.mapM o.position
      let targets ← targetColumns.mapM t.position
      let number := c.foreignKeys.length
      let key : ForeignKey := ⟨number, origin, origins, target, targets, incomplete⟩
      let c := c.mapTable origin fun t => { t with outgoing := t.outgoing ++ [number] }
      let c := c.mapTable target fun t => { t with referring := t.referring ++ [number] }
      return { c with foreignKeys := c.foreignKeys ++ [key] }
  | _, _ => .error .unknownOwner

def settle (c : Catalog) : Except Violation Catalog → Catalog × Except Violation Unit
  | .ok c' => (c', .ok ())
  | .error violation => (c, .error violation)

def apply (c : Catalog) : Step → Catalog × Except Violation Unit
  | .schema name => c.settle (c.addSchema name)
  | .table name => c.settle (c.addTable name)
  | .column table name domain nullable hasDefault =>
    match c.table? table with
    | none => (c, .error .unknownOwner)
    | some t =>
      c.settle ((t.addColumn name domain nullable hasDefault).map fun t' =>
        c.mapTable table fun _ => t')
  | .key table columns primary incomplete =>
    match c.table? table with
    | none => (c, .error .unknownOwner)
    | some t =>
      let added := t.addKey columns primary incomplete
      (c.mapTable table fun _ => added.1, added.2)
  | .foreignKey origin originColumns target targetColumns incomplete =>
    c.settle (c.addForeignKey origin originColumns target targetColumns incomplete)

def build (c : Catalog) : List Step → Except Violation Catalog
  | [] => .ok c
  | step :: steps =>
    match c.apply step with
    | (c, .ok ()) => c.build steps
    | (_, .error violation) => .error violation

end Catalog

end NavQuery
