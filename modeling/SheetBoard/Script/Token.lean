import SheetBoard.Number.Layout
import SheetBoard.Number.Read
import SheetBoard.Text.Blank
import SheetBoard.Text.Shown
import SheetBoard.Text.Word

/-! The tokens of a script. Scanning never fails: a character that starts no token is one of its
own. -/

namespace SheetBoard.Script

inductive Token where
  | number (value : Float)
  | text (value : String)
  /-- A name, keywords included. -/
  | name (name : String)
  | plus | minus | star | slash | percent | ampersand
  | equal | notEqual | less | lessEqual | greater | greaterEqual
  | andAnd | orOr | bang | question | colon | comma
  | leftParen | rightParen | leftBracket | rightBracket
  | unknown (char : Char)
  deriving Repr, DecidableEq

/-- Drops an equals sign, so that the three-character comparisons read like the two-character ones.
-/
def dropEquals : List Char → List Char
  | '=' :: rest => rest
  | rest => rest

/-- Operators of two characters. -/
def lexPair? : List Char → Option (Token × List Char)
  | '=' :: '=' :: rest => some (.equal, dropEquals rest)
  | '!' :: '=' :: rest => some (.notEqual, dropEquals rest)
  | '<' :: '=' :: rest => some (.lessEqual, rest)
  | '<' :: '>' :: rest => some (.notEqual, dropEquals rest)
  | '>' :: '=' :: rest => some (.greaterEqual, rest)
  | '&' :: '&' :: rest => some (.andAnd, rest)
  | '|' :: '|' :: rest => some (.orOr, rest)
  | _ => none

/-- Tokens of one character. -/
def single? : Char → Option Token
  | '+' => some .plus
  | '-' => some .minus
  | '*' => some .star
  | '/' => some .slash
  | '%' => some .percent
  | '&' => some .ampersand
  | '=' => some .equal
  | '<' => some .less
  | '>' => some .greater
  | '!' => some .bang
  | '?' => some .question
  | ':' => some .colon
  | ',' => some .comma
  | '(' => some .leftParen
  | ')' => some .rightParen
  | '[' => some .leftBracket
  | ']' => some .rightBracket
  | _ => none

/-- The character that a backslash and `c` stand for. -/
def unescape (c : Char) : Char := if c = 'n' then '\n' else if c = 't' then '\t' else c

/-- Reads the text of a literal up to its closing mark, or to the end. A doubled mark is one mark,
and a backslash covers the next character. -/
def lexText (mark : Char) : List Char → List Char × List Char
  | [] => ([], [])
  | [c] => if c = mark then ([], []) else ([c], [])
  | c :: d :: rest =>
    if c = mark then
      if d = mark then ((lexText mark rest).map (mark :: ·) id) else ([], d :: rest)
    else if c = '\\' then (lexText mark rest).map (unescape d :: ·) id
    else (lexText mark (d :: rest)).map (c :: ·) id

/-- Cuts a fraction off: a point and the digits after it. -/
def lexFraction : List Char → List Char × List Char
  | '.' :: rest => ('.' :: rest.takeWhile Number.isDigit, rest.dropWhile Number.isDigit)
  | rest => ([], rest)

/-- Cuts an exponent off: its letter, a sign or a digit, and the digits after that. -/
def lexExponent : List Char → List Char × List Char
  | e :: c :: rest =>
    if (e = 'e' || e = 'E') && (Number.isDigit c || c = '+' || c = '-') then
      (e :: c :: rest.takeWhile Number.isDigit, rest.dropWhile Number.isDigit)
    else ([], e :: c :: rest)
  | rest => ([], rest)

/-- Reads a number. An exponent without digits makes it NaN. -/
def lexNumber (cs : List Char) : Token × List Char :=
  let whole := cs.takeWhile Number.isDigit
  let (fraction, rest) := lexFraction (cs.dropWhile Number.isDigit)
  let (exponent, rest) := lexExponent rest
  (.number ((Number.read? (whole ++ fraction ++ exponent)).getD (0.0 / 0.0)), rest)

/-- A name goes on with letters, numbers, underscores and points. -/
def continuesName (c : Char) : Bool := Text.isAlphanumeric c || c = '_' || c = '.'

/-- A number starts here: with a digit, or with a point and a digit. -/
def startsNumber : List Char → Bool
  | '.' :: c :: _ => Number.isDigit c
  | c :: _ => Number.isDigit c
  | [] => false

/-- The token at the start of a text that is neither empty nor blank there. -/
def lex (c : Char) (rest : List Char) : Token × List Char :=
  match lexPair? (c :: rest) with
  | some found => found
  | none =>
    match single? c with
    | some token => (token, rest)
    | none =>
      if c = '"' || c = '\'' then (lexText c rest).map (fun cs => .text (.ofList cs)) id
      else if startsNumber (c :: rest) then lexNumber (c :: rest)
      else if Text.isAlphabetic c || c = '_' then
        (.name (.ofList (c :: rest.takeWhile continuesName)), rest.dropWhile continuesName)
      else (.unknown c, rest)

theorem length_dropEquals_le (cs : List Char) : (dropEquals cs).length ≤ cs.length := by
  unfold dropEquals
  split <;> simp

theorem length_lexPair?_lt {cs rest : List Char} {token : Token}
    (h : lexPair? cs = some (token, rest)) : rest.length < cs.length := by
  unfold lexPair? at h
  split at h
  case h_8 => cases h
  all_goals
    obtain ⟨-, rfl⟩ := Prod.mk.inj (Option.some.inj h)
    have := length_dropEquals_le ‹List Char›
    simp only [List.length_cons]
    omega

theorem length_lexText_le (mark : Char) (cs : List Char) :
    (lexText mark cs).2.length ≤ cs.length := by
  fun_induction lexText mark cs <;> simp_all <;> omega

theorem length_lexFraction_le (cs : List Char) : (lexFraction cs).2.length ≤ cs.length := by
  unfold lexFraction
  split
  · rename_i rest
    have := (List.dropWhile_sublist Number.isDigit (l := rest)).length_le
    simp only [List.length_cons]
    omega
  · simp

theorem length_lexExponent_le (cs : List Char) : (lexExponent cs).2.length ≤ cs.length := by
  unfold lexExponent
  split
  · rename_i rest
    have := (List.dropWhile_sublist Number.isDigit (l := rest)).length_le
    split <;> simp only [List.length_cons] <;> omega
  · simp

/-- A number takes at least the character that starts it. -/
theorem length_lexNumber_lt {cs : List Char} (h : startsNumber cs = true) :
    (lexNumber cs).2.length < cs.length := by
  have hfraction := length_lexFraction_le (cs.dropWhile Number.isDigit)
  have hexponent := length_lexExponent_le (lexFraction (cs.dropWhile Number.isDigit)).2
  simp only [lexNumber]
  match cs with
  | [] => simp [startsNumber] at h
  | c :: rest =>
    by_cases hc : Number.isDigit c = true
    · have := (List.dropWhile_sublist Number.isDigit (l := rest)).length_le
      simp only [List.dropWhile_cons, hc, if_true, List.length_cons] at *
      omega
    · have hpoint : c = '.' := by
        unfold startsNumber at h
        split at h <;> simp_all
      subst hpoint
      have hdot : Number.isDigit '.' = false := by decide
      have := (List.dropWhile_sublist Number.isDigit (l := rest)).length_le
      simp only [List.dropWhile_cons, hdot, lexFraction, Bool.false_eq_true, if_false,
        List.length_cons] at *
      omega

theorem length_lex_lt (c : Char) (rest : List Char) : (lex c rest).2.length < rest.length + 1 := by
  unfold lex
  split
  · rename_i found h
    exact length_lexPair?_lt h
  · split
    · simp
    · split
      · have := length_lexText_le c rest
        simp only [Prod.map_snd, id_eq]
        omega
      · split
        · rename_i h
          exact length_lexNumber_lt h
        · split
          · have := (List.dropWhile_sublist continuesName (l := rest)).length_le
            simp only
            omega
          · simp

/-- The tokens of a text, blanks left out. -/
def tokens (cs : List Char) : List Token :=
  match _h : Text.trimStart cs with
  | [] => []
  | c :: rest => (lex c rest).1 :: tokens (lex c rest).2
termination_by cs.length
decreasing_by
  have hlex := length_lex_lt c rest
  have htrim := (List.dropWhile_sublist Text.isBlank (l := cs)).length_le
  rw [show cs.dropWhile Text.isBlank = c :: rest from _h] at htrim
  simp only [List.length_cons] at htrim
  omega

/-- A character in a quoted diagnostic. Besides the usual escapes, characters that cannot be seen on
their own are given by their code. -/
def describeChar (mark : Char) (c : Char) : List Char :=
  if c = '\x00' then ['\\', '0']
  else if c = '\t' then ['\\', 't']
  else if c = '\r' then ['\\', 'r']
  else if c = '\n' then ['\\', 'n']
  else if c = mark || c = '\\' then ['\\', c]
  else if Text.isShown c then [c]
  else ['\\', 'u', '\x7b'] ++ Nat.toDigits 16 c.toNat ++ ['\x7d']

/-- A token as diagnostics show it. -/
def Token.describe : Token → String
  | .number x => "Number(" ++ .ofList (Number.write .literal x) ++ ")"
  | .text s => "String(\"" ++ .ofList (s.toList.flatMap (describeChar '"')) ++ "\")"
  | .name s => "Identifier(\"" ++ .ofList (s.toList.flatMap (describeChar '"')) ++ "\")"
  | .plus => "Plus"
  | .minus => "Minus"
  | .star => "Star"
  | .slash => "Slash"
  | .percent => "Percent"
  | .ampersand => "Ampersand"
  | .equal => "Equal"
  | .notEqual => "NotEqual"
  | .less => "LessThan"
  | .lessEqual => "LessEqual"
  | .greater => "GreaterThan"
  | .greaterEqual => "GreaterEqual"
  | .andAnd => "AndAnd"
  | .orOr => "OrOr"
  | .bang => "Bang"
  | .question => "Question"
  | .colon => "Colon"
  | .comma => "Comma"
  | .leftParen => "LeftParen"
  | .rightParen => "RightParen"
  | .leftBracket => "LeftBracket"
  | .rightBracket => "RightBracket"
  | .unknown c => "Unknown('" ++ .ofList (describeChar '\'' c) ++ "')"

/-- The next token as diagnostics show it, or the end of the script. -/
def describeNext : Option Token → String
  | some token => token.describe
  | none => "Eof"

end SheetBoard.Script
