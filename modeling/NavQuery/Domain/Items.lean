import NavQuery.Error.Fault
import NavQuery.Text.Quoted

/-!
Lists and records are written as items between brackets, separated by commas. An item is `null` or a
quoted text.
-/

namespace NavQuery.Items

abbrev Item := Option Text

/-- What stands behind the items: the text after the closing bracket, an item that cannot be read, or
an item without separator behind it. -/
inductive Ending
  | closed (rest : Text)
  | badItem (fault : Fault)
  | badSeparator

def scanItem (t : Text) : Except Fault (Item × Text) :=
  if t.take 4 = Text.ofString "null" then .ok (none, t.drop 4)
  else
    match t with
    | [] => .error .item
    | b :: r =>
      if b = '\'' then
        match Text.Quoted.scan '\'' r with
        | (_, none) => .error .unterminatedItem
        | (content, some rest) => .ok (some content, rest)
      else .error .item

theorem scanItem_length {t : Text} {item : Item} {rest : Text}
    (h : scanItem t = .ok (item, rest)) : rest.length < t.length := by
  unfold scanItem at h
  split at h
  next hn =>
    simp only [Except.ok.injEq, Prod.mk.injEq] at h
    have : (t.take 4).length = 4 := by rw [hn]; rfl
    rw [← h.2, List.length_drop]
    simp only [List.length_take] at this
    omega
  next =>
    split at h
    next => simp at h
    next b r _ =>
      split at h
      next =>
        split at h
        next => simp at h
        next content rest' hs =>
          simp only [Except.ok.injEq, Prod.mk.injEq] at h
          rw [← h.2, Text.Quoted.of_scan hs, List.length_cons, List.length_append, List.length_cons]
          omega
      next => simp at h

def scanSequence (close : Byte) (t : Text) : List Item × Ending :=
  match _ : scanItem (Text.skipSpaces t) with
  | .error fault => ([], .badItem fault)
  | .ok (item, rest) =>
    match _ : Text.skipSpaces rest with
    | [] => ([item], .badSeparator)
    | b :: r =>
      if b = ',' then
        let tail := scanSequence close r
        (item :: tail.1, tail.2)
      else if b = close then ([item], .closed r)
      else ([item], .badSeparator)
termination_by t.length
decreasing_by
  have h1 := scanItem_length ‹scanItem _ = _›
  have h2 := Text.length_skipSpaces_le t
  have h3 := Text.length_skipSpaces_le rest
  rw [‹Text.skipSpaces rest = _›, List.length_cons] at h3
  omega

def scan (close : Byte) (t : Text) : List Item × Ending :=
  match Text.skipSpaces t with
  | [] => scanSequence close []
  | b :: r => if b = close then ([], .closed r) else scanSequence close (b :: r)

def write (opening close : Byte) (items : List Item) : Text :=
  let written := items.map fun
    | none => Text.ofString "null"
    | some content => Text.Quoted.encode '\'' content
  opening :: (Text.join ", " written ++ [close])

end NavQuery.Items
