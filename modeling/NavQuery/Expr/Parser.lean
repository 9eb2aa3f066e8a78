import NavQuery.Expr
import NavQuery.Token.Lexer

/-!
A recursive-descent parser. Each level reads a part of the tokens and gives the shorter rest, so that the
recursion through brackets ends. The levels are, from 0: atom, location, link, factor, product, sum,
comparison, negation, conjunction, disjunction and flow. A plus or minus before a closing token is the
sort direction of what stands before it.
-/

namespace NavQuery

inductive SyntaxFault
  | leadingSlash
  | trailing (text : Text)
  | groupEnd
  | argumentEnd
  | itemEnd
  | unterminatedString
  | character (text : Text)
  | endOfQuery
  | token (text : Text)
deriving DecidableEq

def SyntaxFault.message : SyntaxFault → Text
  | leadingSlash => "Expected '/' at the start of a query"
  | trailing t => "Unexpected token '" ++ t ++ "' after query"
  | groupEnd => "Expected ')' to close a group"
  | argumentEnd => "Expected ',' or ')' after argument"
  | itemEnd => "Expected ',' or '\x7d' after selection item"
  | unterminatedString => "Unterminated string literal"
  | character t => "Unexpected character '" ++ t ++ "'"
  | endOfQuery => "Unexpected end of query"
  | token t => "Unexpected token '" ++ t ++ "'"

structure ParseError where
  fault : SyntaxFault
  position : Nat
deriving DecidableEq

namespace Parser

structure Step (α : Type) (ts : List Token) where
  value : α
  rest : List Token
  shorter : rest.length < ts.length

def Step.andThen {α β γ : Type} {ts : List Token} (s : Step α ts) (u : Step β s.rest) (value : γ) :
    Step γ ts :=
  ⟨value, u.rest, Nat.lt_trans u.shorter s.shorter⟩

def Step.first (t : Token) (ts : List Token) : Step Token (t :: ts) := ⟨t, ts, Nat.lt_succ_self _⟩

abbrev Outcome (α : Type) (ts : List Token) := Except ParseError (Step α ts)

abbrev Reader (n : Nat) := (ts : List Token) → ts.length ≤ n → Outcome Expr ts

abbrev InnerReader (n : Nat) := (ts : List Token) → ts.length < n → Outcome Expr ts

abbrev Extension (n : Nat) :=
  Expr → (ts : List Token) → ts.length ≤ n → Except ParseError (Option (Step Expr ts))

def failAt {α : Type} (total : Nat) (ts : List Token) (fault : SyntaxFault) : Except ParseError α :=
  .error ⟨fault, match ts with
    | [] => total
    | t :: _ => t.start⟩

def token? (kind : Token.Kind) : (ts : List Token) → Option (Step Token ts)
  | [] => none
  | t :: us => if t.kind = kind then some (.first t us) else none

def atomFault (t : Token) : SyntaxFault :=
  if t.kind = .invalid then
    if t.text.head? = some (Byte.ofChar '\'') then .unterminatedString else .character t.text
  else .token t.text

def leaf? (t : Token) : Option Expr :=
  match t.kind with
  | .name => some (.name ⟨t.start, t.stop⟩ t.text)
  | .reference => some (.reference ⟨t.start, t.stop⟩ t.text)
  | .string => some (.string ⟨t.start, t.stop⟩ t.text)
  | .integer => some (.number ⟨t.start, t.stop⟩ .integer t.text)
  | .decimal => some (.number ⟨t.start, t.stop⟩ .decimal t.text)
  | .float => some (.number ⟨t.start, t.stop⟩ .float t.text)
  | .star => some (.wildcard ⟨t.start, t.stop⟩)
  | .caret => some (.complement ⟨t.start, t.stop⟩)
  | _ => none

def sign? : Nat → Token.Kind → Option UnaryOp
  | 3, .plus => some .plus
  | 3, .minus => some .minus
  | 7, .bang => some .not
  | _, _ => none

def operator? : Nat → Token.Kind → Option (Span → Expr → Expr → Expr)
  | 1, .dot => some .compose
  | 2, .arrow => some .link
  | 4, .star => some (.binary · .multiply)
  | 4, .slash => some (.binary · .divide)
  | 5, .plus => some (.binary · .add)
  | 5, .minus => some (.binary · .subtract)
  | 6, .equal => some (.binary · .equal)
  | 6, .notEqual => some (.binary · .notEqual)
  | 6, .totallyEqual => some (.binary · .totallyEqual)
  | 6, .totallyNotEqual => some (.binary · .totallyNotEqual)
  | 6, .contains => some (.binary · .contains)
  | 6, .notContains => some (.binary · .notContains)
  | 6, .less => some (.binary · .less)
  | 6, .lessEqual => some (.binary · .lessEqual)
  | 6, .greater => some (.binary · .greater)
  | 6, .greaterEqual => some (.binary · .greaterEqual)
  | 8, .ampersand => some (.binary · .and)
  | 9, .pipe => some (.binary · .or)
  | 10, .question => some .sieve
  | 10, .caret => some .project
  -- only a selection can leave a point to the flow
  | 10, .dot => some .compose
  | _, _ => none

/-- Operands with signs, links and comparisons do not chain. -/
def chains (level : Nat) : Bool := !([2, 3, 6, 7].contains level)

def direction? : Token.Kind → Option Direction
  | .plus => some .ascending
  | .minus => some .descending
  | _ => none

def endsOperand : List Token → Bool
  | [] => true
  | t :: _ =>
    t.kind == .comma || t.kind == .rightParen || t.kind == .rightBrace || t.kind == .semicolon

section Levels

variable {n : Nat} (total : Nat) (inner : InnerReader n)

/-- Expressions with commas between them and maybe behind them up to a closing token, and where that
token ends. -/
def bracketed (close : Token.Kind) (missing : SyntaxFault) (ts : List Token) (h : ts.length < n) :
    Outcome (List Expr × Nat) ts :=
  match token? close ts with
  | some c => .ok ⟨([], c.value.stop), c.rest, c.shorter⟩
  | none => do
    let first ← inner ts h
    match token? .comma first.rest with
    | some c =>
      have shorter := Nat.lt_trans c.shorter first.shorter
      let more ← bracketed close missing c.rest (Nat.lt_trans shorter h)
      return (first.andThen c ()).andThen more (first.value :: more.value.1, more.value.2)
    | none =>
      match token? close first.rest with
      | some c => return first.andThen c ([first.value], c.value.stop)
      | none => failAt total first.rest missing
termination_by ts.length

def atom : Reader n
  | [], _ => failAt total [] .endOfQuery
  | t :: us, h =>
    match t.kind with
    | .leftBrace => do
      let s ← bracketed total inner .rightBrace .itemEnd us h
      return (Step.first t us).andThen s (.record ⟨t.start, s.value.2⟩ s.value.1)
    | .leftParen => do
      let s ← inner us h
      match token? .rightParen s.rest with
      | some c => return ((Step.first t us).andThen s ()).andThen c (.group ⟨t.start, c.value.stop⟩ s.value)
      | none => failAt total s.rest .groupEnd
    | _ =>
      match leaf? t, if t.kind = .name then token? .leftParen us else none with
      | none, _ => failAt total (t :: us) (atomFault t)
      | some e, none => .ok ⟨e, us, Nat.lt_succ_self _⟩
      | some _, some c => do
        let s ← bracketed total inner .rightParen .argumentEnd c.rest (Nat.lt_trans c.shorter h)
        return ((Step.first t us).andThen c ()).andThen s (.call ⟨t.start, s.value.2⟩ t.text s.value.1)

/-- What a level reads behind an expression: a selection behind a flow, a direction, or an operator
and its right operand. -/
def more (level : Nat) (operand : Reader n) : Extension n
  | _, [], _ => .ok none
  | left, t :: us, h =>
    if level = 10 ∧ t.kind = .leftBrace then do
      let s ← bracketed total inner .rightBrace .itemEnd us h
      return some ((Step.first t us).andThen s
        (.select ⟨left.span.start, s.value.2⟩ left ⟨t.start, s.value.2⟩ s.value.1))
    else
      match operator? level t.kind, if endsOperand us then direction? t.kind else none with
      | none, _ => .ok none
      | some _, some d =>
        .ok (some ⟨.direct ⟨left.span.start, t.stop⟩ left d, us, Nat.lt_succ_self _⟩)
      | some join, none => do
        let right := if t.kind = .dot then atom total inner else operand
        let s ← right us (Nat.le_of_succ_le h)
        return some ((Step.first t us).andThen s (join (left.spanning s.value) left s.value))

def extend (again : Bool) (more : Extension n) {ts : List Token} (h : ts.length ≤ n)
    (left : Step Expr ts) : Outcome Expr ts := do
  match ← more left.value left.rest (Nat.le_trans (Nat.le_of_lt left.shorter) h) with
  | none => return left
  | some s =>
    if again then extend again more h (left.andThen s s.value) else return left.andThen s s.value
termination_by left.rest.length
decreasing_by exact s.shorter

def signed (op? : Token.Kind → Option UnaryOp) (operand : Reader n) : Reader n
  | [], h => operand [] h
  | t :: us, h =>
    match op? t.kind with
    | none => operand (t :: us) h
    | some op => do
      let s ← signed op? operand us (Nat.le_of_succ_le h)
      return (Step.first t us).andThen s (.unary ⟨t.start, s.value.span.stop⟩ op s.value)

def read : Nat → Reader n
  | 0 => atom total inner
  | level + 1 =>
    let operand := read level
    signed (sign? (level + 1)) fun ts h => do
      extend (chains (level + 1)) (more total inner (level + 1) operand) h (← operand ts h)

end Levels

def flow (total : Nat) (ts : List Token) : Outcome Expr ts :=
  read total (fun us _ => flow total us) 10 ts (Nat.le_refl _)
termination_by ts.length

/-- The end of a query: an optional semicolon and nothing else. Gives where the last token ends. -/
def finish (total : Nat) (last : Nat) : List Token → Except ParseError Nat
  | [] => .ok last
  | [t] => if t.kind = .semicolon then .ok t.stop else failAt total [t] (.trailing t.text)
  | t :: u :: us =>
    if t.kind = .semicolon then failAt total (u :: us) (.trailing u.text)
    else failAt total (t :: u :: us) (.trailing t.text)

def atEnd : List Token → Bool
  | [] => true
  | t :: _ => t.kind == .semicolon

def lastStop (ts rest : List Token) : Nat :=
  match (ts.take (ts.length - rest.length)).getLast? with
  | none => 0
  | some t => t.stop

def query (total : Nat) (ts : List Token) : Except ParseError Query :=
  match ts with
  | [] => failAt total [] .leadingSlash
  | t :: us =>
    if t.kind ≠ .slash then failAt total (t :: us) .leadingSlash
    else if atEnd us then do
      let stop ← finish total t.stop us
      return ⟨none, ⟨t.start, stop⟩⟩
    else do
      let s ← flow total us
      let stop ← finish total (lastStop us s.rest) s.rest
      return ⟨some s.value, ⟨t.start, stop⟩⟩

end Parser

def Query.parse (t : Text) : Except ParseError Query := Parser.query t.length (Token.scan t)

end NavQuery
