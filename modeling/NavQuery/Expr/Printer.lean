import NavQuery.Expr
import NavQuery.Text.Quoted

/-!
An expression without blanks, and with parentheses only where the expression itself is a group.
-/

namespace NavQuery.Expr

mutual

def render : Expr → Text
  | name _ t | number _ _ t => t
  | string _ content => Text.Quoted.encode '\'' content
  | reference _ t => "$" ++ t
  | wildcard _ => "*"
  | complement _ => "^"
  | call _ function arguments => function ++ "(" ++ Text.join "," (renderAll arguments) ++ ")"
  | record _ items => "\x7b" ++ Text.join "," (renderAll items) ++ "\x7d"
  | group _ inner => "(" ++ render inner ++ ")"
  | compose _ base field => render base ++ "." ++ render field
  | link _ origin target => render origin ++ "->" ++ render target
  | sieve _ base condition => render base ++ "?" ++ render condition
  | project _ base kernel => render base ++ "^" ++ render kernel
  | select _ base _ items => render base ++ "\x7b" ++ Text.join "," (renderAll items) ++ "\x7d"
  | direct _ operand direction => render operand ++ direction.symbol
  | unary _ op operand => op.symbol ++ render operand
  | binary _ op left right => render left ++ op.symbol ++ render right

def renderAll : List Expr → List Text
  | [] => []
  | e :: es => render e :: renderAll es

end

mutual

def renderBefore : Expr → Text → Text
  | name _ t, rest | number _ _ t, rest => t ++ rest
  | string _ content, rest => Text.Quoted.encode '\'' content ++ rest
  | reference _ t, rest => "$" ++ (t ++ rest)
  | wildcard _, rest => "*" ++ rest
  | complement _, rest => "^" ++ rest
  | call _ function arguments, rest =>
    function ++ ("(" ++ renderListBefore arguments (")" ++ rest))
  | record _ items, rest => "\x7b" ++ renderListBefore items ("\x7d" ++ rest)
  | group _ inner, rest => "(" ++ renderBefore inner (")" ++ rest)
  | compose _ base field, rest => renderBefore base ("." ++ renderBefore field rest)
  | link _ origin target, rest => renderBefore origin ("->" ++ renderBefore target rest)
  | sieve _ base condition, rest => renderBefore base ("?" ++ renderBefore condition rest)
  | project _ base kernel, rest => renderBefore base ("^" ++ renderBefore kernel rest)
  | select _ base _ items, rest =>
    renderBefore base ("\x7b" ++ renderListBefore items ("\x7d" ++ rest))
  | direct _ operand direction, rest => renderBefore operand (direction.symbol ++ rest)
  | unary _ op operand, rest => op.symbol ++ renderBefore operand rest
  | binary _ op left right, rest => renderBefore left (op.symbol ++ renderBefore right rest)

def renderListBefore : List Expr → Text → Text
  | [], rest => rest
  | e :: es, rest =>
    renderBefore e (if es.isEmpty then rest else "," ++ renderListBefore es rest)

end

theorem renderBefore_eq : (∀ (e : Expr) (rest : Text), renderBefore e rest = e.render ++ rest) ∧
    ∀ (es : List Expr) (rest : Text), renderListBefore es rest = Text.join "," (renderAll es) ++ rest := by
  apply renderBefore.mutual_induct
  case case19 =>
    -- A comma stands between the items only.
    intro e es rest
    cases es <;> simp_all [renderListBefore, renderAll, Text.join]
  all_goals simp +contextual [renderBefore, renderListBefore, render, renderAll, Text.join]

def text (e : Expr) : Text := e.renderBefore []

theorem text_eq (e : Expr) : e.text = e.render := by rw [text, renderBefore_eq.1, List.append_nil]

end NavQuery.Expr
