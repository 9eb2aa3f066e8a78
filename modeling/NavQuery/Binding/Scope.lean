import NavQuery.Binding
import NavQuery.Error

/-!
A binding as the scope of names, which are compared in a folded form. A name in a table scope is a
column, a link along a foreign key named after its target, or a link against one named after its origin;
in a quotient scope it is a kernel or the complement; at the root it is a table.
-/

namespace NavQuery

/-- The form in which names are compared: lower case, with an underscore for every byte that is
neither a letter nor a digit nor part of a wide character. -/
def foldName (name : Text) : Text :=
  name.map fun b => if Byte.isAlphanum b || Byte.isWide b then Byte.toLower b else '_'

namespace Catalog

def joinsFrom (c : Catalog) (t : Table) : List Join := t.outgoing.filterMap (c.join? false)

def joinsTo (c : Catalog) (t : Table) : List Join := t.referring.filterMap (c.join? true)

def tables (c : Catalog) : List Table := c.schemas.flatMap (·.tables)

end Catalog

namespace Binding

/-- A scope: the binding that gives the names, the table whose columns are visible, and for a quotient
the table of its seed. -/
structure Scope where
  naming : Binding
  table : Option Table
  grouped : Option Table

mutual

def scope : Binding → Scope
  | sieve _ base _ | sort _ base _ _ _ | selection _ base _ => scope base
  | direction _ operand _ => scope operand
  | column l base c k => linkScope (column l base c none) k
  | table l base t => ⟨table l base t, some t, none⟩
  | attach l base j => ⟨attach l base j, some j.target, none⟩
  | quotient l base seed kernels => ⟨quotient l base seed kernels, none, (scope seed).table⟩
  | complement l base => ⟨complement l base, (scope base).grouped, none⟩
  | cover l base seed => ⟨cover l base seed, (scope seed).table, none⟩
  | link l base seed images => ⟨link l base seed images, (scope seed).table, none⟩
  | fork l base kernels => ⟨fork l base kernels, (scope base).table, none⟩
  | b => ⟨b, none, none⟩

def linkScope (self : Binding) : Option Binding → Scope
  | none => ⟨self, none, none⟩
  | some b => scope b

end

def scopeTable (b : Binding) : Option Table := b.scope.table

def throughLink (b : Binding) : Binding := b.linked?.getD b

def ofTable (base : Binding) (t : Table) (mark : Mark) : Binding :=
  .table ⟨.entity t.name.table, t.name.table, mark⟩ base t

def ofJoin (base : Binding) (join : Join) (title : Text) (mark : Mark) : Binding :=
  .attach ⟨.entity join.target.name.table, title, mark⟩ base join

def columnJoins (c : Catalog) (t : Table) (column : Column) : List Join :=
  (c.joinsFrom t).filter fun join => join.originColumns.map (·.index) == [column.index]

/-- A column; it stands for a link too if it forms exactly one foreign key by itself. -/
def ofColumn (c : Catalog) (t : Table) (base : Binding) (column : Column) (mark : Mark) : Binding :=
  let link :=
    match columnJoins c t column with
    | [join] => some (ofJoin base join column.name mark)
    | _ => none
  .column ⟨column.domain, column.name, mark⟩ base column link

def describe : Binding → Text
  | table _ _ t => "table " ++ t.name.schema ++ "." ++ t.name.table
  | column _ _ c _ => "column " ++ c.owner.table ++ "." ++ c.name
  | attach _ _ join =>
    let word : Text := if join.reverse then "reverse link " else "link "
    word ++ join.origin.name.table ++ "(" ++ Text.join "," (join.originColumns.map (·.name)) ++
      ") -> " ++ join.target.name.table ++ "(" ++
      Text.join "," (join.targetColumns.map (·.name)) ++ ")"
  | kernel l _ _ => "kernel " ++ l.title
  | complement l _ => "complement " ++ l.title
  | b => b.title

def ambiguityError (l : Label) (candidates : List Binding) : Error :=
  .query (.ambiguousName l.title (candidates.map describe)) l.mark

def unambiguous : Binding → Result Binding
  | ambiguous l _ candidates => .error (ambiguityError l candidates)
  | b => .ok b

def lookupComplement (scope : Binding) (mark : Mark) : Result Binding :=
  match scope.scope.naming with
  | quotient _ _ seed _ => .ok (.complement ⟨seed.domain, seed.title, mark⟩ scope)
  | _ => .error (.query .quotientScope mark)

def ofKernel (base : Binding) (index : Nat) (kernel : Binding) (mark : Mark) : Binding :=
  .kernel ⟨kernel.domain, kernel.title, mark⟩ base index

def ofKernels (base : Binding) (mark : Mark) (kernels : List Binding) : List Binding :=
  kernels.zipIdx.map fun (k, index) => ofKernel base index k mark

def isShadowed (columns : List Binding) (join : Join) : Bool :=
  columns.any fun b =>
    match b.linked? with
    | some (attach _ _ j) => j == join
    | _ => false

/-- The columns and links of a table that have a name. A link that a column of that name stands for
is not counted again. -/
def tableCandidates (c : Catalog) (t : Table) (owner : Binding) (name : Text) (mark : Mark) :
    List Binding :=
  let key := foldName name
  let columns := (t.columns.filter (foldName ·.name == key)).map fun column =>
    ofColumn c t owner column mark
  let direct := (c.joinsFrom t).filter fun join =>
    foldName join.target.name.table == key && !isShadowed columns join
  let reverse := (c.joinsTo t).filter fun join => foldName join.target.name.table == key
  columns ++ direct.map (ofJoin owner · name mark) ++ reverse.map (ofJoin owner · name mark)

def quotientCandidates (owner seed : Binding) (kernels : List Binding) (name : Text) (mark : Mark) :
    Result (List Binding) := do
  let key := foldName name
  let named := (ofKernels owner mark kernels).filter (foldName ·.title == key)
  if foldName seed.title == key then
    let complement ← lookupComplement owner mark
    return named ++ [complement]
  else return named

def candidates (c : Catalog) (owner : Binding) (name : Text) (mark : Mark) :
    Result (List Binding) :=
  let scope := owner.scope
  match scope.naming with
  | ambiguous l _ alternatives => .error (ambiguityError l alternatives)
  | root _ | home _ _ =>
    .ok ((c.tables.filter (foldName ·.name.table == foldName name)).map (ofTable owner · mark))
  | quotient _ _ seed kernels => quotientCandidates owner seed kernels name mark
  | _ =>
    match scope.table with
    | none => .ok []
    | some t => .ok (tableCandidates c t owner name mark)

/-- What a name means in a scope: nothing, one binding, or an ambiguous binding. -/
def lookup? (c : Catalog) (scope : Binding) (name : Text) (mark : Mark) :
    Result (Option Binding) := do
  let owner := scope.throughLink
  match ← candidates c owner name mark with
  | [] => return none
  | [b] => return some b
  | bs => return some (.ambiguous ⟨.void, name, mark⟩ owner bs)

def lookup (c : Catalog) (scope : Binding) (name : Text) (mark : Mark) : Result Binding := do
  match ← lookup? c scope name mark with
  | none => throw (.query (.unknownAttribute name) mark)
  | some b => return b

def expand (c : Catalog) (scope : Binding) (mark : Mark) : Result (List Binding) :=
  match scope.scope.naming with
  | quotient _ _ _ kernels => .ok (ofKernels scope mark kernels)
  | _ =>
    match scope.scopeTable with
    | none => .error (.query .tableOrQuotientScope mark)
    | some t => .ok (t.columns.map fun column => ofColumn c t scope.throughLink column mark)

end Binding

end NavQuery
