import NavQuery.Text

/-!
The codes that switch the colors and weights of a terminal.
-/

namespace NavQuery

structure Palette where
  reset : Text
  red : Text
  green : Text
  yellow : Text
  blue : Text
  cyan : Text
  dim : Text
  bold : Text

namespace Palette

def ansi : Palette :=
  ⟨"\x1b[0m", "\x1b[31m", "\x1b[32m", "\x1b[33m", "\x1b[34m", "\x1b[36m", "\x1b[2m", "\x1b[1m"⟩

def plain : Palette := ⟨[], [], [], [], [], [], [], []⟩

def paint (p : Palette) (code : Palette → Text) (t : Text) : Text := code p ++ t ++ p.reset

end Palette

end NavQuery
