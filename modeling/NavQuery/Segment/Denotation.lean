import NavQuery.Binding.Scope
import NavQuery.Segment.Conversion
import NavQuery.Space.Build

/-!
A binding denotes a space if it is a flow, and a code if it is a value. An aggregate looks for the one
plural space among the spaces of its operand.
-/

namespace NavQuery

namespace Space

def addMaximal (spaces : List Space) (s : Space) : List Space :=
  if spaces.any (·.dominates s) then spaces else spaces.filter (!s.dominates ·) ++ [s]

def maximal (spaces : List Space) : List Space := spaces.foldl addMaximal []

/-- The space that an aggregate in a space runs over: the one that dominates the spaces of the operand
that are plural. -/
def pluralOf (s : Space) (operand : Code) (mark : Mark) : Result Space :=
  match maximal ((operand.units.filterMap (·.space?)).filter (!s.spans ·)) with
  | [] => .error (.query .pluralOperandRequired mark)
  | [p] => if p.spans s then pure p else .error (.query .descendantOperandExpected mark)
  | _ => .error (.query .ambiguousOperand mark)

end Space

namespace Code

def containsPattern (t : Text) : Text :=
  let special : List Byte := ['\\', '%', '_']
  "%" ++ t.flatMap (fun b => if special.contains b then [Byte.ofChar '\\', b] else [b]) ++ "%"

/-- The pattern of a containment test; that of a computed text is built when the query runs. -/
def patternOf (mark : Mark) : Code → Result Code
  | .literal _ d (.text t) => pure (.literal mark d (.text (containsPattern t)))
  | .literal m d .null => pure (.literal m d .null)
  | .literal _ _ _ => .error .kindMismatch
  | c =>
    let d := c.domain
    let text (t : Text) : Code := .literal mark d (.text t)
    let escape (c : Code) (t : Text) : Code :=
      .formula mark d (.plain .replace) [c, text t, text ("\\" ++ t)]
    let escaped := escape (escape (escape c "\\") "%") "_"
    let opened : Code := .formula mark d (.plain .concat) [text "%", escaped]
    pure (.formula mark d (.plain .concat) [opened, text "%"])

def aggregateOf (mark operandMark : Mark) (kind : Operator.Kind) (formula : Code) (s : Space) :
    Result Code := do
  let plural ← s.pluralOf formula operandMark
  let unit : Code := .aggregate mark formula plural s []
  let d := formula.domain
  match kind with
  | .count | .sum =>
    match d.read "0" with
    | .ok zero =>
      return .single mark (.formula mark d (.plain .ifNull) [unit, .literal mark d zero]) s []
    | .error fault => .error (.literal fault)
  | _ => return .single mark unit s []

/-- Whether some row of the plural space passes, or with negative polarity whether all do. -/
def quantify (mark operandMark : Mark) (negative : Bool) (operand : Code) (s : Space) :
    Result Code := do
  let plural ← s.pluralOf operand operandMark
  let test : Code :=
    if negative then .formula mark operand.domain (.plain .not) [operand] else operand
  let unit : Code := .correlated mark (true' mark) (.filtered mark plural test) s
  let found : Code := .formula mark .boolean (.polar .exists 1) [unit]
  let answer : Code := if negative then .formula mark .boolean (.plain .not) [found] else found
  return .single mark answer s []

def ofFormula (mark operandMark : Mark) (domain : Domain) (f : Operator) (arguments : List Code)
    (space : Result Space) : Result Code :=
  match f.kind, arguments with
  | .like, [a, b] => do return .formula mark domain f [a, ← patternOf mark b]
  | .count, [a] => do
    let no : Code := .literal mark a.domain (.boolean false)
    let present : Code := .formula mark a.domain (.plain .nullIf) [a, no]
    aggregateOf mark operandMark .count (.formula mark domain (.plain .count) [present]) (← space)
  | .exists, [a] => do quantify mark operandMark f.isNegative a (← space)
  | kind, _ =>
    if f.isAggregate then do
      aggregateOf mark operandMark kind (.formula mark domain f arguments) (← space)
    else pure (.formula mark domain f arguments)

end Code

namespace Binding

def sortDirection : Binding → Direction
  | direction _ _ d => d
  | _ => .ascending

def quotientOf (mark seedMark : Mark) (base seed : Space) (kernels : Result (List Code)) :
    Result Space :=
  if base.spans seed then .error (.query .pluralExpected seedMark)
  else if !seed.spans base then .error (.query .descendantExpected seedMark)
  else do return .quotient mark base seed (← kernels) []

def kernelUnit (mark : Mark) (space : Space) (place : Nat) : Result Code := do
  return .kernel mark (← require space.family.kernels[place]? .kernelIndex) space

mutual

/-- The space of a flow. A value stands for the space of its scope, and a column for that of its
link. -/
def relate : Binding → Result Space
  | root l => pure (.root l.mark)
  | home l b => do return .scalar l.mark (← relate b)
  | table l b t => do (Space.table l.mark (← relate b) t).checked
  | attach l b j => do (Space.fiber l.mark (← relate b) j).checked
  | column _ b _ k => (relateLink k).getD (relate b)
  | quotient l b s ks => do quotientOf l.mark s.mark (← relate b) (← relate s) (encodeAll ks)
  | kernel _ b _ | selection _ b _ | collect _ b _ => relate b
  | complement l b => do (Space.complement l.mark (← relate b) []).checked
  | cover l b s => do (Space.moniker l.mark (← relate b) (← relate s) []).checked
  | fork l b ks => do
    let base ← relate b
    return .forked l.mark base base (← encodeAll ks) []
  | link l b s is => do
    (Space.linked l.mark (← relate b) (← relate s) (← encodeImages is) []).checked
  | sieve l b f => do return .filtered l.mark (← relate b) (← encode f)
  | sort l b os limit offset => do
    return .ordered l.mark (← relate b) ((← encodeAll os).zip (os.map sortDirection)) limit offset
  | rescoping _ o _ | direction _ o _ | cast _ o => relate o
  | literal l _ | parameter l _ => .error (.query .flowExpected l.mark)
  | formula _ s _ _ => relate s
  | ambiguous l _ cs => .error (ambiguityError l cs)

def relateLink : Option Binding → Option (Result Space)
  | none => none
  | some k => some (relate k)

def encode : Binding → Result Code
  | column l b c _ => do return .ofColumn c (← relate b) l.mark
  | kernel l b i => do kernelUnit l.mark (← relate b) i
  | literal l v => pure (.literal l.mark l.domain v)
  | parameter l n => pure (.parameter l.mark l.domain n)
  | cast l o => Code.convert l.mark o.domain l.domain (encode o) (relate o)
  | rescoping l o s => do return .single l.mark (← encode o) (← relate s) []
  | formula l s f as => do
    Code.ofFormula l.mark (as.head?.elim .nowhere mark) l.domain f (← encodeAll as) (relate s)
  | direction _ o _ => encode o
  | ambiguous l _ cs => .error (ambiguityError l cs)
  | root l | home l _ | table l _ _ | attach l _ _ | quotient l _ _ _ | complement l _ | cover l _ _
  | fork l _ _ | link l _ _ _ | sieve l _ _ | sort l _ _ _ _ | selection l _ _ | collect l _ _ =>
    .error (.query .scalarExpected l.mark)

def encodeAll : List Binding → Result (List Code)
  | [] => pure []
  | b :: bs => do return (← encode b) :: (← encodeAll bs)

def encodeImages : List (Binding × Binding) → Result (List Image)
  | [] => pure []
  | i :: is => do return (← encodeImage i) :: (← encodeImages is)

def encodeImage : Binding × Binding → Result Image
  | (a, b) => do return (← encode a, ← encode b)

end

end Binding

end NavQuery
