import NavQuery.Proofs.Literals
import NavQuery.Statement.OfFrame
import NavQuery.Token.Lexer

/-!
Nothing of a text is lost in its tokens: each is spelled by its kind and text, and only spaces stand between
them. A quoted token ends at its own quote, whatever is quoted.
-/

namespace NavQuery

open List Byte

namespace Text.Quoted

/-- What a statement's reader takes for a quoted token: the content, and what follows the token. -/
def token? (q : Byte) : Text → Option (Text × Text)
  | [] => none
  | b :: r => if b = q then (scan q r).2.map ((scan q r).1, ·) else none

lemma token?_encode {q : Byte} (t : Text) {r : Text} (h : ∀ b ∈ r.head?, b ≠ q) :
    token? q (encode q t ++ r) = some (t, r) := by
  rw [encode, cons_append, append_assoc, singleton_append, token?, if_pos rfl, scan_escape t h]
  rfl

lemma encode_injective (q : Byte) : (encode q).Injective := by
  intro t u h
  have hread := token?_encode (q := q) t (r := []) nofun
  rw [h, token?_encode u (r := []) nofun] at hread
  exact (Prod.mk.inj (Option.some.inj hread)).1.symm

end Text.Quoted

/-- Quoted texts and names cannot be escaped from. -/
theorem token?_quoteText (t r : Text) :
    ((∀ b ∈ r.head?, b ≠ ofChar '\'') → Text.Quoted.token? '\'' (Statement.quoteText t ++ r) = some (t, r)) ∧
      ((∀ b ∈ r.head?, b ≠ ofChar '"') → Text.Quoted.token? '"' (Statement.quoteName t ++ r) = some (t, r)) ∧
        Statement.quoteText.Injective ∧ Statement.quoteName.Injective :=
  ⟨Text.Quoted.token?_encode t, Text.Quoted.token?_encode t, Text.Quoted.encode_injective _,
    Text.Quoted.encode_injective _⟩

/-- A text and a name that end in a quote, with more of the statement behind them. -/
theorem token?_quoteText_ending_quote :
    let r := Text.ofString " OR 1 = 1"
    Text.Quoted.token? '\'' (Statement.quoteText "it's'" ++ r) = some (Text.ofString "it's'", r) ∧
      Text.Quoted.token? '"' (Statement.quoteName "a\"" ++ r) = some (Text.ofString "a\"", r) :=
  ⟨(token?_quoteText _ (.ofString " OR 1 = 1")).1 (by decide +kernel), (token?_quoteText _ (.ofString " OR 1 = 1")).2.1 (by decide +kernel)⟩

namespace Token

/-- The tokens of a text from one place to another: each is spelled by its own bytes, and only spaces stand
outside of them. An invalid one is a string without an end, or one byte. -/
inductive Lexed : Nat → Text → List Token → Nat → Prop
  | done {place : Nat} {x : Text} (spaces : ∀ b ∈ x, isSpace b) : Lexed place x [] (place + x.length)
  | token {place final : Nat} {x m r : Text} {u : Token} {us : List Token} (spaces : ∀ b ∈ x, isSpace b)
      (bytes : m ≠ []) (spelled : u.kind ≠ .invalid → m = spelling u.kind u.text)
      (invalid : u.kind = .invalid → m.head? = some (ofChar '\'') ∧ r = [] ∨ m.length = 1)
      (start : u.start = place + x.length) (stop : u.stop = u.start + m.length) (rest : Lexed u.stop r us final) :
      Lexed place (x ++ (m ++ r)) (u :: us) final

lemma lexed_scanFrom {total : Nat} {t : Text} (h : t.length ≤ total) :
    Lexed (total - t.length) t (scanFrom total t) total := by
  have hspaces (t : Text) : ∀ b ∈ t.takeWhile isSpace, isSpace b := all_eq_true.1 all_takeWhile
  have hsplit (t : Text) : t.takeWhile isSpace ++ Text.skipSpaces t = t := takeWhile_append_dropWhile
  fun_induction scanFrom total t with
  | case1 t hskip =>
    have hdone := @Lexed.done (total - t.length) _ (hspaces t)
    have ht := hsplit t
    rw [hskip, append_nil] at ht
    rwa [ht, Nat.sub_add_cancel h] at hdone
  | case2 t b r hskip l ih =>
    obtain ⟨m, hr, hcut⟩ : l.CutFrom b r := lexeme_cut b r
    have hlength := congrArg length hr
    have htotal := congrArg length (hsplit t)
    simp only [hskip, length_append, length_cons] at hlength htotal
    rw [← hsplit t, hskip, hr, ← cons_append]
    refine .token (hspaces t) (cons_ne_nil b m) (fun hkind => ?_) (fun hkind => ?_) ?_ ?_ (ih (by omega))
    · rwa [if_neg hkind] at hcut
    · rw [if_pos hkind] at hcut
      obtain ⟨rfl, hnil⟩ | rfl := hcut
      · exact .inl ⟨rfl, hnil⟩
      · exact .inr rfl
    all_goals
      simp only [length_append, length_cons]
      omega

/-- Scanning loses nothing. -/
theorem lexed_scan (t : Text) : Lexed 0 t (scan t) t.length := by
  simpa [scan] using lexed_scanFrom (Nat.le_refl t.length)

end Token

end NavQuery
