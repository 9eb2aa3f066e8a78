import NavQuery.Text

/-!
A quoted text stands between two quotes, and a quote inside it is written twice.
-/

namespace NavQuery.Text.Quoted

def escape (quote : Byte) : Text → Text
  | [] => []
  | b :: r => if b = quote then quote :: quote :: escape quote r else b :: escape quote r

def encode (quote : Byte) (t : Text) : Text := quote :: (escape quote t ++ [quote])

/-- Reads on from the byte after the opening quote: the content, and what follows the closing quote
or `none` when no quote closes the text. -/
def scan (quote : Byte) : Text → Text × Option Text
  | [] => ([], none)
  | [b] => if b = quote then ([], some []) else ([b], none)
  | b :: c :: r =>
    if b = quote then
      if c = quote then
        let tail := scan quote r
        (quote :: tail.1, tail.2)
      else ([], some (c :: r))
    else
      let tail := scan quote (c :: r)
      (b :: tail.1, tail.2)

theorem of_scan {quote : Byte} {t content rest : Text} (h : scan quote t = (content, some rest)) :
    t = escape quote content ++ quote :: rest := by
  fun_induction scan quote t generalizing content with
  | case1 | case3 => cases h
  | case2 | case5 => cases h; rfl
  | case4 =>
    rename_i ih
    obtain ⟨rfl, hrest⟩ := Prod.mk.inj h
    rw [escape, if_pos rfl, List.cons_append, List.cons_append, ← ih (Prod.ext rfl hrest)]
  | case6 _ _ _ hb =>
    rename_i ih
    obtain ⟨rfl, hrest⟩ := Prod.mk.inj h
    rw [escape, if_neg hb, List.cons_append, ← ih (Prod.ext rfl hrest)]

end NavQuery.Text.Quoted
