import SheetBoard.Formula.Literal

/-! Calls in formula text: the parenthesis that closes one, and its arguments. -/

namespace SheetBoard.Formula

/-- Splits the text before the parenthesis that brings the depth back to zero from the text after
it. Parentheses in literals do not count, and one too many ends the search. -/
def splitClose (depth : Nat) (st : QuoteState) : List Char → Option (List Char × List Char)
  | [] => none
  | c :: rest =>
    let keep (found : Option (List Char × List Char)) :=
      found.map fun (before, after) => (c :: before, after)
    if st = .outside ∧ c = '(' then keep (splitClose (depth + 1) .outside rest)
    else if st = .outside ∧ c = ')' then
      match depth with
      | 0 => none
      | 1 => some ([], rest)
      | depth + 2 => keep (splitClose (depth + 1) .outside rest)
    else keep (splitClose depth (st.step c) rest)

/-- The number of bytes of a text in UTF-8. -/
def byteSize : List Char → Nat
  | [] => 0
  | c :: rest => c.utf8Size + byteSize rest

/-- The text from a byte position on, if a character starts there. -/
def dropBytes? : Nat → List Char → Option (List Char)
  | 0, cs => some cs
  | _ + 1, [] => none
  | n + 1, c :: rest => if n + 1 < c.utf8Size then none else dropBytes? (n + 1 - c.utf8Size) rest

/-- The byte position of the parenthesis that closes the first one opened at or after byte `start`.
-/
def matchingParen? (cs : List Char) (start : Nat) : Option Nat := do
  let tail ← dropBytes? start cs
  let (before, _) ← splitClose 0 .outside tail
  return start + byteSize before

/-- Puts a character in front of the first piece. -/
def prepend (c : Char) : List (List Char) → List (List Char)
  | [] => [[c]]
  | piece :: pieces => (c :: piece) :: pieces

/-- Cuts a text at the commas outside literals and parentheses. There is always a last piece, even
an empty one. The depth has no bound: texts with `2 ^ 31` or more unclosed parentheses, for which a
count of 32 bits would run over, are left out. -/
def pieces (depth : Int) (st : QuoteState) : List Char → List (List Char)
  | [] => [[]]
  | c :: rest =>
    if st = .outside ∧ c = ',' ∧ depth = 0 then [] :: pieces depth .outside rest
    else
      let depth := if st = .outside ∧ c = '(' then depth + 1
        else if st = .outside ∧ c = ')' then depth - 1
        else depth
      prepend c (pieces depth (st.step c) rest)

/-- The arguments of a call, as written. An empty last argument is dropped. -/
def argumentsOf (cs : List Char) : List (List Char) :=
  let all := pieces 0 .outside cs
  if all.getLast? = some [] then all.dropLast else all

/-- A character that joins a name on its right: it keeps a keyword from starting a call. -/
def joinsName (c : Char) : Bool := c.isAlphanum || c = '_' || c = '.'

/-- A call of the keyword starts here: the keyword in any case, with its parenthesis right after it,
and no name running into it. -/
def startsCall (keyword : List Char) (before : Option Char) (cs : List Char) : Bool :=
  !before.any joinsName && (cs.take keyword.length).map Char.toUpper == keyword &&
    cs[keyword.length]? == some '('

/-- Splits the text before the leftmost call of a keyword from the text after its parenthesis. -/
def splitAtCall (keyword : List Char) (st : QuoteState) (before : Option Char) :
    List Char → Option (List Char × List Char)
  | [] => none
  | c :: rest =>
    if st = .outside ∧ startsCall keyword before (c :: rest) then
      some ([], (c :: rest).drop (keyword.length + 1))
    else
      (splitAtCall keyword (st.step c) (some c) rest).map fun (head, tail) => (c :: head, tail)

/-- The leftmost call of a keyword: the text before it, its arguments, and the text after it. -/
def leftmostCall? (keyword : List Char) (cs : List Char) :
    Option (List Char × List (List Char) × List Char) := do
  let (head, tail) ← splitAtCall keyword .outside none cs
  let (inner, rest) ← splitClose 1 .outside tail
  return (head, argumentsOf inner, rest)

end SheetBoard.Formula
