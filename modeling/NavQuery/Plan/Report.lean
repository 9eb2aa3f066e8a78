import NavQuery.Box
import NavQuery.Json
import NavQuery.Plan
import NavQuery.Settings

/-!
What is shown of a plan: its statement, a JSON document, or a box of its fields and parameters.
-/

namespace NavQuery

namespace Plan

def placedFields (p : Plan) : List (Field × Option Nat) :=
  p.profile.fields.zipIdx.map fun (f, i) => (f, p.outputs[i]?)

def numberDocument (n : Nat) : Json := .number (Text.ofNat n)

def fieldDocument : Field × Option Nat → Json
  | (f, column) =>
    let domain := Json.string f.domain.render
    let title := Json.string f.title
    match column with
    | some c => .object [("domain", domain), ("select", numberDocument c), ("title", title)]
    | none => .object [("domain", domain), ("title", title)]

def placeholderDocument (p : Placeholder) : Json :=
  .object [("domain", .string p.domain.render), ("index", numberDocument p.index),
    ("name", .string p.name)]

def document (p : Plan) : Json :=
  .object [
    ("domains", .array (p.domains.map fun d => .string d.render)),
    ("placeholders", .array (p.placeholders.map placeholderDocument)),
    ("profile", .object [
      ("fields", .array (p.placedFields.map fieldDocument)),
      ("tag", .string p.profile.tag)]),
    ("sql", .string p.sql)]

def boxColumns : List Box.Column :=
  [⟨"kind", some .text⟩, ⟨"name", some .text⟩, ⟨"type", some .text⟩, ⟨"position", some .integer⟩]

def fieldRow : Field × Option Nat → List Cell
  | (f, column) =>
    [some "field", some f.title, some f.domain.render, column.map fun c => Text.ofNat (c + 1)]

def placeholderRow (p : Placeholder) : List Cell :=
  [some "parameter", some ("$" ++ p.name), some p.domain.render, some (Text.ofNat (p.index + 1))]

def box (p : Plan) (o : Box.Options) (screen : Nat) : Text :=
  Box.render boxColumns (p.placedFields.map fieldRow ++ p.placeholders.map placeholderRow) o screen

structure Screen where
  color : Bool
  isTerminal : Bool
  width : Nat

def Screen.palette (s : Screen) : Palette := if s.color then .ansi else .plain

def report (p : Plan) (s : Screen) : Mode → Text
  | .json => p.document.render s.palette 0
  | .plan => p.box ⟨0, 0, s.color, s.isTerminal⟩ s.width
  | .sql =>
    if p.sql.isEmpty then s.palette.paint (·.dim) "(the query selects nothing)" else p.sql

end Plan

def Stage.report (s : Stage) (p : Palette) : Text :=
  let ending : Text := if s.text.isEmpty || s.text.getLast? == some 10 then [] else [10]
  p.paint (·.dim) ("== " ++ s.name ++ " ==") ++ "\n" ++ s.text ++ ending

namespace Plan

def Explained.report (e : Explained) (s : Screen) (m : Mode) : Text :=
  Text.concat (e.stages.map (·.report s.palette)) ++ e.plan.report s m ++ "\n"

end Plan

end NavQuery
