/-! Wildcard patterns: `*` stands for any text and `?` for one character. -/

namespace SheetBoard.Text

/-- Matches the rest of a pattern against the rest of a text, after a star. `star` is the pattern
after that star and `since` the text it was last tried on: on a mismatch the star takes one more
character. A character that equals the pattern's is taken as itself, even a star. -/
def globAfter (star since pattern text : List Char) (h : pattern.length ≤ star.length) : Bool :=
  match text, pattern with
  | [], pattern => pattern.all (· = '*')
  | c :: rest, d :: tail =>
    if d = '?' ∨ d = c then globAfter star since tail rest (Nat.le_of_succ_le h)
    else if d = '*' then globAfter tail (c :: rest) tail (c :: rest) (Nat.le_refl _)
    else
      match since with
      | [] => false
      | _ :: since => globAfter star since star since (Nat.le_refl _)
  | _ :: _, [] =>
    match since with
    | [] => false
    | _ :: since => globAfter star since star since (Nat.le_refl _)
termination_by (star.length, since.length, text.length)
decreasing_by
  · exact Prod.Lex.right _ (Prod.Lex.right _ (Nat.lt_succ_self _))
  · exact Prod.Lex.left _ _ (Nat.lt_of_succ_le h)
  · exact Prod.Lex.right _ (Prod.Lex.left _ _ (Nat.lt_succ_self _))
  · exact Prod.Lex.right _ (Prod.Lex.left _ _ (Nat.lt_succ_self _))

/-- The text matches the pattern. -/
def glob : List Char → List Char → Bool
  | pattern, [] => pattern.all (· = '*')
  | [], _ :: _ => false
  | d :: tail, c :: rest =>
    if d = '?' ∨ d = c then glob tail rest
    else if d = '*' then globAfter tail (c :: rest) tail (c :: rest) (Nat.le_refl _)
    else false

end SheetBoard.Text
