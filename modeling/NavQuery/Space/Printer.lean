import NavQuery.Domain.Literal
import NavQuery.Space

/-!
One line that shows all steps of a space. Literals are written in their domains, and a value that has
no text in its domain makes the whole line fail.
-/

namespace NavQuery

def renderRange : Option Int → Option Int → Text
  | none, none => []
  | some l, none => ".limit(" ++ Text.ofInt l ++ ")"
  | none, some o => ".skip(" ++ Text.ofInt o ++ ")"
  | some l, some o => ".limit(" ++ Text.ofInt l ++ ", " ++ Text.ofInt o ++ ")"

def renderLiteral (domain : Domain) : Value → Result Text
  | .null => pure "null"
  | .text t => pure ("'" ++ t ++ "'")
  | .boolean b => pure (if b then "true" else "false")
  | v => domain.write v

mutual

def Space.render : Space → Result Text
  | .root _ => pure "@"
  | .scalar _ b => do return (← b.render) ++ ".@"
  | .table _ b t => do return (← b.render) ++ "." ++ t.name.table
  | .fiber _ b j => do
    let arrow : Text := if j.reverse then "~" else []
    return (← b.render) ++ "." ++ arrow ++ j.target.name.table
  | .quotient _ b s ks _ => do
    return (← b.render) ++ ".(" ++ (← s.render) ++ " ^ \x7b" ++ Text.join ", " (← Code.renderAll ks) ++ "\x7d)"
  | .complement _ b _ => do return (← b.render) ++ ".^"
  | .moniker _ b s _ => do return (← b.render) ++ ".moniker(" ++ (← s.render) ++ ")"
  | .forked _ b _ ks _ => do
    return (← b.render) ++ ".fork(" ++ Text.join ", " (← Code.renderAll ks) ++ ")"
  | .linked _ b s is _ => do
    return (← b.render) ++ ".(" ++ (← s.render) ++ " -> \x7b" ++ Text.join ", " (← Code.renderImages is) ++
      "\x7d)"
  | .filtered _ b f => do return (← b.render) ++ " ? " ++ (← f.render)
  | .ordered _ b os l o => do
    return (← b.render) ++ ".sort(" ++ Text.join ", " (← Code.renderOrder os) ++ ")" ++ renderRange l o

def Code.render : Code → Result Text
  | .missing => pure "-"
  | .literal _ d v => renderLiteral d v
  | .parameter _ _ n => pure ("$" ++ n)
  | .cast _ d c => do return d.render ++ "(" ++ (← c.render) ++ ")"
  | .formula _ _ f as => do
    return f.render ++ "(" ++ Text.join ", " (← Code.renderAll as) ++ ")"
  | .correlation _ c => do return "^" ++ (← c.render)
  | .column _ _ c s => do return "(" ++ (← s.render) ++ ")." ++ c.name
  | .single _ c s _ => do return "scalar<" ++ (← c.render) ++ " @ " ++ (← s.render) ++ ">"
  | .aggregate _ c p s _ => do
    return "aggregate<" ++ (← c.render) ++ " @ " ++ (← p.render) ++ " / " ++ (← s.render) ++ ">"
  | .correlated _ c p s => do
    return "correlated<" ++ (← c.render) ++ " @ " ++ (← p.render) ++ " / " ++ (← s.render) ++ ">"
  | .kernel _ c s => do return "kernel<" ++ (← c.render) ++ " @ " ++ (← s.render) ++ ">"
  | .covering _ c s => do return "covering<" ++ (← c.render) ++ " @ " ++ (← s.render) ++ ">"

def Code.renderAll : List Code → Result (List Text)
  | [] => pure []
  | c :: cs => do return (← c.render) :: (← Code.renderAll cs)

def Code.renderImages : List (Code × Code) → Result (List Text)
  | [] => pure []
  | i :: is => do return (← Code.renderImage i) :: (← Code.renderImages is)

def Code.renderImage : Code × Code → Result Text
  | (a, b) => do return (← a.render) ++ " = " ++ (← b.render)

def Code.renderOrder : List (Code × Direction) → Result (List Text)
  | [] => pure []
  | o :: os => do return (← Code.renderItem o) :: (← Code.renderOrder os)

def Code.renderItem : Code × Direction → Result Text
  | (c, d) => do return (← c.render) ++ d.symbol

end

end NavQuery
