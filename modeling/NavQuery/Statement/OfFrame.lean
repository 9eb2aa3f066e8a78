import NavQuery.Statement
import NavQuery.Statement.Name

/-!
Values of parameters never stand in the text of a statement: each parameter is a placeholder, numbered in
the order of writing.
-/

namespace NavQuery

namespace Statement

def quoteName (name : Text) : Text := Text.Quoted.encode '"' name

def quoteText (t : Text) : Text := Text.Quoted.encode '\'' t

structure Draft where
  counts : NameCounts
  placeholders : List Placeholder

abbrev Writing := StateT Draft Result

/-- What is known while a statement is written: the dialect, the names, and how the embedded query of a
tag is written at a depth. -/
structure Style where
  dialect : Dialect
  names : Names
  embed : Tag → Nat → Writing Text

def fail {α : Type} (problem : Problem) : Result α := .error (.query problem .nowhere)

def isSqlite (d : Dialect) : Bool := d = .sqlite

def writeType (dialect : Dialect) (d : Domain) : Result Text :=
  let choose (sqlite other : Text) : Result Text :=
    pure (if isSqlite dialect then sqlite else other)
  match d with
  | .boolean => choose "INTEGER" "BOOLEAN"
  | .integer => pure "INTEGER"
  | .float => choose "REAL" "DOUBLE PRECISION"
  | .decimal => choose "NUMERIC" "DECIMAL"
  | .text | .enum _ => pure (if dialect = .ansi then "VARCHAR" else "TEXT")
  | .date => choose "TEXT" "DATE"
  | .time => choose "TEXT" "TIME"
  | .dateTime => choose "TEXT" "TIMESTAMP"
  | d => fail (.noSqlType d)

def writeBool (dialect : Dialect) (b : Bool) : Text :=
  match isSqlite dialect, b with
  | true, true => "1"
  | true, false => "0"
  | false, true => "TRUE"
  | false, false => "FALSE"

def writeInteger (n : Int) : Result Text :=
  if -(twoTo 63 : Int) ≤ n && n < twoTo 63 then pure (Text.ofInt n) else fail .integerRange

def writeFloat (x : Binary64) : Result Text :=
  if !x.isFinite then fail .floatRange
  else
    let t := x.write 17
    pure (if t.any fun b => b == '.' || b == 'e' then t else t ++ "e0")

def writeMoment (dialect : Dialect) (word : Text) (d : Domain) (v : Value) : Result Text := do
  let t ← d.write v
  return if isSqlite dialect then quoteText t else word ++ quoteText t

def writeLiteral (dialect : Dialect) (d : Domain) (v : Value) : Result Text :=
  match v with
  | .null => pure "NULL"
  | .boolean b => pure (writeBool dialect b)
  | .integer n => writeInteger n
  | .float x => writeFloat x
  | .decimal _ => d.write v
  | .text t => pure (quoteText t)
  | .date _ => writeMoment dialect "DATE " d v
  | .time _ => writeMoment dialect "TIME " d v
  | .dateTime _ => writeMoment dialect "TIMESTAMP " d v
  | .list _ => fail (.noSqlValue d)

def writePlaceholder (dialect : Dialect) (d : Domain) (name : Text) : Writing Text := do
  let s ← get
  let added := s.placeholders ++ [⟨s.placeholders.length, name, d⟩]
  match dialect, s.placeholders.find? (·.name == name) with
  | .pgsql, some p => return "$" ++ Text.ofNat (p.index + 1)
  | .pgsql, none =>
    set { s with placeholders := added }
    return "$" ++ Text.ofNat (s.placeholders.length + 1)
  | _, _ =>
    set { s with placeholders := added }
    return "?"

abbrev Operand := Bool → Writing Text

def wrap (nested : Bool) (t : Text) : Text := if nested then "(" ++ t ++ ")" else t

def writeEach (nested : Bool) : List Operand → Writing (List Text)
  | [] => pure []
  | w :: ws => do return (← w nested) :: (← writeEach nested ws)

def writeInfix (nested : Bool) (symbol : Text) : List Operand → Writing Text
  | a :: b :: _ => do return wrap nested ((← a true) ++ symbol ++ (← b true))
  | _ => throw .missingEntry

def writeCall (name : Text) (ws : List Operand) : Writing Text := do
  return name ++ "(" ++ Text.join ", " (← writeEach false ws) ++ ")"

def writeMembership (nested positive : Bool) : List Operand → Writing Text
  | a :: ws => do
    let items ← writeEach false ws
    let word : Text := if positive then " IN (" else " NOT IN ("
    return wrap nested ((← a true) ++ word ++ Text.join ", " items ++ ")")
  | _ => throw .missingEntry

def writePrefixed (nested : Bool) (word : Text) : List Operand → Writing Text
  | a :: _ => do return wrap nested (word ++ (← a true))
  | _ => throw .missingEntry

def writeNullTest (nested positive : Bool) : List Operand → Writing Text
  | a :: _ => do
    let word : Text := if positive then " IS NULL" else " IS NOT NULL"
    return wrap nested ((← a true) ++ word)
  | _ => throw .missingEntry

def writeLike (dialect : Dialect) (nested positive : Bool) : List Operand → Writing Text
  | a :: b :: _ => do
    let escape : Text := " ESCAPE " ++ quoteText "\\"
    let negation : Text := if positive then " " else " NOT "
    match dialect with
    | .pgsql => return wrap nested ((← a true) ++ negation ++ "ILIKE " ++ (← b true) ++ escape)
    | .sqlite => return wrap nested ((← a true) ++ negation ++ "LIKE " ++ (← b true) ++ escape)
    | .ansi =>
      let left ← a false
      let right ← b false
      return wrap nested ("LOWER(" ++ left ++ ")" ++ negation ++ "LIKE LOWER(" ++ right ++ ")" ++ escape)
  | _ => throw .missingEntry

def totalSymbol (dialect : Dialect) (positive : Bool) : Text :=
  match isSqlite dialect, positive with
  | true, true => " IS "
  | true, false => " IS NOT "
  | false, true => " IS NOT DISTINCT FROM "
  | false, false => " IS DISTINCT FROM "

def writeFormula (dialect : Dialect) (f : Operator) (nested isSubquery : Bool) (ws : List Operand) :
    Writing Text := do
  let positive := !f.isNegative
  match f.kind with
  | .toPredicate | .fromPredicate =>
    match ws with
    | a :: _ => a nested
    | [] => throw .missingEntry
  | .isEqual => writeInfix nested (if positive then " = " else " <> ") ws
  | .isTotallyEqual => writeInfix nested (totalSymbol dialect positive) ws
  | .isIn => writeMembership nested positive ws
  | .isNull => writeNullTest nested positive ws
  | .compare => writeInfix nested (" " ++ f.symbol ++ " ") ws
  | .and => return wrap nested (Text.join " AND " (← writeEach true ws))
  | .or => return wrap nested (Text.join " OR " (← writeEach true ws))
  | .not => writePrefixed nested "NOT " ws
  | .nullIf => writeCall "NULLIF" ws
  | .ifNull => writeCall "COALESCE" ws
  | .add => writeInfix nested " + " ws
  | .subtract => writeInfix nested " - " ws
  | .multiply => writeInfix nested " * " ws
  | .divide => writeInfix nested " / " ws
  | .negate => writePrefixed nested "- " ws
  | .like => writeLike dialect nested positive ws
  | .concat => writeInfix nested " || " ws
  | .replace => writeCall "REPLACE" ws
  | .count => writeCall "COUNT" ws
  | .sum => writeCall "SUM" ws
  | .min => writeCall "MIN" ws
  | .max => writeCall "MAX" ws
  | .avg => writeCall "AVG" ws
  | .exists =>
    ensure isSubquery .existsOperand
    match ws with
    | a :: _ => return (if positive then "EXISTS " else "NOT EXISTS ") ++ (← a false)
    | [] => throw .missingEntry

end Statement

namespace Phrase

open Statement

def isEmbedding : Phrase → Bool
  | embedding _ _ => true
  | _ => false

mutual

def write (s : Style) (depth : Nat) : Phrase → Bool → Writing Text
  | literal d _ v, _ => writeLiteral s.dialect d v
  | parameter d n, _ => writePlaceholder s.dialect d n
  | cast d _ p, _ => do
    return "CAST(" ++ (← write s depth p false) ++ " AS " ++ (← writeType s.dialect d) ++ ")"
  | formula _ _ f as, nested =>
    writeFormula s.dialect f nested (as.head?.any isEmbedding) (operands s depth as)
  | column _ t c, _ => do return quoteName (← s.names.frame t) ++ "." ++ quoteName c.name
  | reference _ _ t i, _ => do
    return quoteName (← s.names.frame t) ++ "." ++ quoteName (← s.names.item t i)
  | embedding _ t, _ => s.embed t depth

def operands (s : Style) (depth : Nat) : List Phrase → List Operand
  | [] => []
  | p :: ps => (fun nested => write s depth p nested) :: operands s depth ps

end

end Phrase

namespace Frame

open Statement

def newline (depth : Nat) : Text := "\n" ++ Text.blanks (4 * depth)

def writeList (s : Style) (depth : Nat) (word : Text) (ps : List Phrase) : Writing Text := do
  if ps.isEmpty then return []
  else
    let items ← writeEach false (Phrase.operands s depth ps)
    return newline depth ++ word ++ Text.join ", " items

def writeClause (s : Style) (depth : Nat) (word : Text) : Option Phrase → Writing Text
  | none => pure []
  | some p => do return newline depth ++ word ++ (← p.write s depth false)

def writeSortItem (s : Style) (depth : Nat) (i : SortItem) : Writing Text := do
  return (← i.1.write s depth false) ++ if i.2.isDescending then Text.ofString " DESC" else " ASC"

def writeOrder (s : Style) (depth : Nat) (items : List SortItem) : Writing Text := do
  if items.isEmpty then return []
  else return newline depth ++ "ORDER BY " ++ Text.join ", " (← items.mapM (writeSortItem s depth))

def writeRange (dialect : Dialect) (depth : Nat) (limit offset : Option Int) : Text :=
  let line (t : Text) : Text := newline depth ++ t
  let skip : Text := offset.elim [] fun n => line ("OFFSET " ++ Text.ofInt n)
  match dialect, limit with
  | .ansi, _ =>
    let fetch : Text :=
      limit.elim [] fun n => line ("FETCH FIRST " ++ Text.ofInt n ++ " ROWS ONLY")
    offset.elim [] (fun n => line ("OFFSET " ++ Text.ofInt n ++ " ROWS")) ++ fetch
  | _, some n => line ("LIMIT " ++ Text.ofInt n) ++ skip
  | .sqlite, none => if offset.isSome then line "LIMIT -1" ++ skip else []
  | .pgsql, none => skip

def writeItems (s : Style) (depth : Nat) (tag : Tag) (isNamed : Bool) :
    List Phrase → Nat → Writing (List Text)
  | [], _ => pure []
  | p :: ps, index => do
    let item ← p.write s depth false
    let named ← if isNamed then pure (item ++ " AS " ++ quoteName (← s.names.item tag index))
      else pure item
    return named :: (← writeItems s depth tag isNamed ps (index + 1))

def writeClauses (s : Style) (depth : Nat) (c : Clauses) : Writing Text := do
  let filter ← writeClause s depth "WHERE " c.filter
  let group ← writeList s depth "GROUP BY " c.group
  let having ← writeClause s depth "HAVING " c.having
  let order ← writeOrder s depth c.order
  return filter ++ group ++ having ++ order ++ writeRange s.dialect depth c.limit c.offset

def joinWords (a : Anchor Frame) : Text :=
  match a.left, a.right with
  | true, true => "FULL OUTER JOIN "
  | true, false => "LEFT OUTER JOIN "
  | false, true => "RIGHT OUTER JOIN "
  | false, false => "JOIN "

def writeJoin (s : Style) (depth : Nat) (a : Anchor Frame) (target : Text) : Writing Text := do
  if a.isCross then return newline depth ++ "CROSS JOIN " ++ target
  else
    let condition ← match a.condition with
      | some p => p.write s depth false
      | none => pure (writeBool s.dialect true)
    return newline depth ++ joinWords a ++ target ++ " ON " ++ condition

def writeUnit (s : Style) : Writing Text := do
  let d ← get
  let (name, counts) := d.counts.choose "_"
  set { d with counts }
  return "(SELECT " ++ writeBool s.dialect true ++ ") AS " ++ quoteName name

def writeQuery (s : Style) (depth : Nat) (c : Clauses) (isNamed : Bool) (anchors : Writing Text) :
    Writing Text := do
  let items ← writeItems s depth c.tag isNamed c.select 0
  let joined ← anchors
  return "SELECT " ++ Text.join ", " items ++ joined ++ (← writeClauses s depth c)

mutual

def writeAnchors (s : Style) : List (Anchor Frame) → Nat → Bool → Writing Text
  | [], _, _ => pure []
  | a :: as, depth, isFirst => do
    return (← writeAnchor s a depth isFirst) ++ (← writeAnchors s as depth false)

def writeAnchor (s : Style) : Anchor Frame → Nat → Bool → Writing Text
  | ⟨f, condition, left, right⟩, depth, isFirst => do
    let target ← writeSource s f depth
    if isFirst then return newline depth ++ "FROM " ++ target
    else writeJoin s depth ⟨f, condition, left, right⟩ target

def writeSource (s : Style) : Frame → Nat → Writing Text
  | scalar _, _ => writeUnit s
  | table n t, _ => do
    return quoteName t.name.schema ++ "." ++ quoteName t.name.table ++ " AS " ++
      quoteName (← s.names.frame n)
  | query c anchors _, depth => do
    let inner ← writeQuery s (depth + 1) c true (writeAnchors s anchors (depth + 1) true)
    return "(" ++ inner ++ ") AS " ++ quoteName (← s.names.frame c.tag)

end

def writeSelect (s : Style) (depth : Nat) : Frame → Writing Text
  | scalar _ | table _ _ => pure "SELECT "
  | query c anchors _ => writeQuery s depth c false (writeAnchors s anchors depth true)

def embedTo (dialect : Dialect) (names : Names) : Nat → Tag → Nat → Writing Text
  | n, tag, depth => do
    let f ← require (List.lookup tag names.embedded) .embeddedFrame
    match n with
    | 0 => throw .endless
    | n + 1 =>
      return "(" ++ (← writeSelect ⟨dialect, names, embedTo dialect names n⟩ (depth + 1) f) ++ ")"

/-- The statement of a segment. Embedded queries nest no deeper than there are such queries, unless
they run in a circle. -/
def statement (f : Frame) (dialect : Dialect) : Result Statement := do
  ensure f.isSegment .segmentFrame
  let names ← f.names
  let style : Style := ⟨dialect, names, embedTo dialect names names.embedded.length⟩
  let (sql, draft) ← (writeSelect style 0 f).run ⟨names.counts, []⟩
  return ⟨sql, draft.placeholders⟩

end Frame

end NavQuery
