import NavQuery.Text

/-!
A mark points at a fragment of a source text, so that a message can quote it. Sources with equal text
are still different sources: each has its own number.
-/

namespace NavQuery

structure Source where
  number : Nat
  text : Text
deriving DecidableEq

instance : DecidableEq Source := fun a b => withPtrEqDecEq a b fun _ => instDecidableEqSource a b

/-- Nowhere, or the bytes from `start` up to `stop` of a source. The range is kept as given and is
clamped to the text where it is read. -/
inductive Mark
  | nowhere
  | at (source : Source) (start stop : Nat)
deriving DecidableEq

namespace Mark

def isNowhere : Mark → Bool
  | nowhere => true
  | .at _ _ _ => false

def range : Mark → Nat × Nat
  | nowhere => (0, 0)
  | .at _ start stop => (start, stop)

def clamp (start stop size : Nat) : Nat × Nat :=
  let s := min start size
  (s, min (max stop s) size)

def fragment : Mark → Text
  | nowhere => []
  | .at source start stop =>
    let (s, e) := clamp start stop source.text.length
    (source.text.drop s).take (e - s)

def lastLine (t : Text) : Text := (t.reverse.takeWhile (· != 10)).reverse

/-- The line that holds the start of the fragment, with carets under the fragment as far as that line
goes, and at least one caret. -/
def excerpt : Mark → Text
  | nowhere => []
  | .at source start stop =>
    let (s, e) := clamp start stop source.text.length
    let before := lastLine (source.text.take s)
    let after := (source.text.drop s).takeWhile (· != 10)
    let width := max 1 (min (e - s) after.length)
    "    " ++ before ++ after ++ "\n    " ++ Text.blanks before.length ++
      List.replicate width (Byte.ofChar '^')

/-- The smallest mark over two marks of one source; a mark that is nowhere, or second in another
source, does not count. -/
def unite : Mark → Mark → Mark
  | nowhere, m => m
  | m, nowhere => m
  | .at p s e, .at q u f => if p = q then .at p (min s u) (max e f) else .at p s e

def describe (message hint : Text) (mark : Mark) : Text :=
  let shown := message.untilZero
  let hinted := if hint.isEmpty then shown else shown ++ ": " ++ hint
  if mark.excerpt.isEmpty then hinted else hinted ++ "\nWhile translating:\n" ++ mark.excerpt

end Mark

end NavQuery
