import NavQuery.Frame

/-!
Every joined frame gets an alias and every nested query a name for each select item, inner frames
first. A name that is taken is followed by a number.
-/

namespace NavQuery

abbrev NameCounts := List (Text × Nat)

namespace NameCounts

def choose (counts : NameCounts) (name : Text) : Text × NameCounts :=
  let n := (List.lookup name counts).getD 0 + 1
  (if n = 1 then name else name ++ "_" ++ Text.ofNat n, (name, n) :: counts)

end NameCounts

structure Names where
  counts : NameCounts
  frames : List (Tag × Text)
  selects : List (Tag × List Text)
  embedded : List (Tag × Frame)

namespace Names

def empty : Names := ⟨[], [], [], []⟩

def frame (n : Names) (tag : Tag) : Result Text := entry (List.lookup tag n.frames)

def item (n : Names) (tag : Tag) (index : Nat) : Result Text := do
  entry (← entry (List.lookup tag n.selects))[index]?

def ofPhrase (n : Names) : Phrase → Result Text
  | .column _ _ c => pure c.name
  | .reference _ _ t i =>
    match List.lookup t n.selects with
    | none => pure "_"
    | some names => entry names[i]?
  | .cast _ _ p => ofPhrase n p
  | .formula _ _ f (a :: _) =>
    if f.isAggregate then pure f.render
    else
      match f.kind with
      | .toPredicate | .fromPredicate | .ifNull | .nullIf => ofPhrase n a
      | _ => pure "_"
  | .formula _ _ f [] => pure (if f.isAggregate then f.render else "_")
  | _ => pure "_"

def ofSelect (n : Names) : List Phrase → NameCounts → Result (List Text)
  | [], _ => pure []
  | p :: ps, counts => do
    let (name, counts) := counts.choose (← n.ofPhrase p)
    return name :: (← n.ofSelect ps counts)

def base : Frame → Text
  | .scalar _ | .query _ [] _ => "_"
  | .table _ t => t.name.table
  | .query _ (⟨f, _, _, _⟩ :: _) _ => base f

end Names

namespace Frame

abbrev Naming := StateT Names Result

def giveNames (tag : Tag) (wanted : Text) (select : List Phrase) : Naming Unit := do
  let n ← get
  let (name, counts) := n.counts.choose wanted
  let n := { n with counts, frames := (tag, name) :: n.frames }
  let items ← n.ofSelect select []
  set { n with selects := (tag, items) :: n.selects }

def nameTable (tag : Tag) (t : Table) : Naming Unit :=
  modify fun n =>
    let (name, counts) := n.counts.choose t.name.table
    { n with counts, frames := (tag, name) :: n.frames }

mutual

/-- Gives names to a frame and all frames in it. An embedded query and a segment need none for
themselves. -/
def nameFrames : Frame → Bool → Naming Unit
  | scalar t, isEmbedded => if isEmbedded then pure () else giveNames t "_" []
  | table n t, _ => nameTable n t
  | query c anchors embedded, isEmbedded => do
    nameAnchors anchors
    nameEmbedded embedded
    if c.role = .segment || isEmbedded then pure ()
    else giveNames c.tag (Names.base (.query c anchors embedded)) c.select

def nameAnchors : List (Anchor Frame) → Naming Unit
  | [] => pure ()
  | a :: as => do
    nameAnchor a
    nameAnchors as

def nameAnchor : Anchor Frame → Naming Unit
  | ⟨f, _, _, _⟩ => nameFrames f false

def nameEmbedded : List Frame → Naming Unit
  | [] => pure ()
  | f :: fs => do
    modify fun n => { n with embedded := (f.tag, f) :: n.embedded }
    nameFrames f true
    nameEmbedded fs

end

def names (f : Frame) : Result Names := do
  return (← (f.nameFrames false).run .empty).2

end Frame

end NavQuery
