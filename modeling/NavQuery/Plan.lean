import NavQuery.Binding.OfExpr
import NavQuery.Binding.Printer
import NavQuery.Expr.Parser
import NavQuery.Frame.OfTerm
import NavQuery.Frame.Reduce
import NavQuery.Segment.OfBinding
import NavQuery.Segment.Simplify
import NavQuery.Statement.OfFrame
import NavQuery.Term.OfSpace

/-!
A plan is a query made ready to run. Planning looks at the names and domains of the parameters only,
never at their values.
-/

namespace NavQuery

structure Parameter where
  value : Value
  domain : Option Domain

abbrev Environment := List (Text × Parameter)

structure Field where
  title : Text
  domain : Domain

structure Profile where
  tag : Text
  fields : List Field

structure Plan where
  sql : Text
  domains : List Domain
  placeholders : List Placeholder
  profile : Profile
  outputs : List Nat

structure Stage where
  name : Text
  text : Text

namespace Plan

structure Options where
  limit : Option Int
  dialect : Dialect
  explain : Bool

structure Explained where
  plan : Plan
  stages : List Stage

def empty : Plan := ⟨[], [], [], ⟨[], []⟩, []⟩

def contextOf (catalog : Catalog) (environment : Environment) (query : Text) : Context :=
  ⟨catalog, environment.map fun (n, p) => (n, p.domain.getD .untyped), ⟨0, query⟩⟩

def parseError (query : Text) (e : ParseError) : Error :=
  let start := min e.position query.length
  .query (.malformed e.fault.message) (.at ⟨0, query⟩ start (min (start + 1) query.length))

def parse (query : Text) : Result Query :=
  match Query.parse query with
  | .ok q => pure q
  | .error e => .error (parseError query e)

def profileOf : Binding → Profile
  | .collect l _ (.selection _ _ elements) =>
    ⟨l.title, elements.map fun e => ⟨e.title, e.domain⟩⟩
  | .collect l _ seed => ⟨l.title, [⟨seed.title, seed.domain⟩]⟩
  | b => ⟨b.title, []⟩

def stage (o : Options) (name : Text) (text : Unit → Result Text) : Result (List Stage) :=
  if o.explain then do return [⟨name, ← text ()⟩] else pure []

def selectOf : Frame → List Phrase × List Nat
  | .query c _ _ => (c.select, c.outputs)
  | _ => ([], [])

def ofBinding (o : Options) (b : Binding) : Result Explained := do
  let bound ← stage o "binding" fun () => pure b.render
  let segment ← Segment.ofBinding b
  let encoded ← stage o "encoded" fun () => segment.render
  let segment ← segment.simplify
  let simplified ← stage o "rewritten" fun () => segment.render
  let term ← Term.ofSegment segment
  let compiled ← stage o "compiled" fun () => term.render
  let frame := (← Frame.ofTerm term).frame
  let assembled ← stage o "assembled" fun () => frame.render
  let frame ← frame.reduced
  let reduced ← stage o "reduced" fun () => frame.render
  let statement ← frame.statement o.dialect
  let serialized ← stage o "serialized" fun () => pure (statement.sql ++ "\n")
  let (select, outputs) := selectOf frame
  let plan : Plan :=
    ⟨statement.sql, select.map (·.domain), statement.placeholders, profileOf b, outputs⟩
  return ⟨plan, bound ++ encoded ++ simplified ++ compiled ++ assembled ++ reduced ++ serialized⟩

def ofText (catalog : Catalog) (environment : Environment) (o : Options) (query : Text) :
    Result Explained := do
  let q ← parse query
  match ← Binding.ofQuery (contextOf catalog environment query) q o.limit with
  | none => return ⟨empty, []⟩
  | some b => ofBinding o b

end Plan

end NavQuery
