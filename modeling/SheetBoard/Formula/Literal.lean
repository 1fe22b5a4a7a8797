import SheetBoard.Cell

/-! Quoted literals in formula text. Every pass over a formula shares one automaton, so they all
agree on which characters are quoted. -/

namespace SheetBoard.Formula

/-- Where a scan stands: outside any literal, inside one opened by `mark`, or just after a backslash
in it. -/
inductive QuoteState where
  | outside
  | inside (mark : Char)
  | escaped (mark : Char)
  deriving Repr, DecidableEq

def isQuote (c : Char) : Bool := c = '"' || c = '\''

/-- Either quote opens a literal and the same one closes it; a backslash covers the next character.
-/
def QuoteState.step : QuoteState → Char → QuoteState
  | .outside, c => if isQuote c then .inside c else .outside
  | .inside mark, c =>
    if c = '\\' then .escaped mark else if c = mark then .outside else .inside mark
  | .escaped mark, _ => .inside mark

def QuoteState.run (st : QuoteState) (cs : List Char) : QuoteState := cs.foldl QuoteState.step st

/-- A stretch of unquoted text, or one literal with its quotes. -/
inductive Stretch where
  | plain (text : List Char)
  | literal (text : List Char)
  deriving Repr, DecidableEq

def Stretch.text : Stretch → List Char
  | .plain cs => cs
  | .literal cs => cs

/-- The stretch that ends here, if it holds anything. `held` has its characters, last one first. -/
def closeStretch (st : QuoteState) (held : List Char) : List Stretch :=
  if held.isEmpty then []
  else if st = .outside then [.plain held.reverse] else [.literal held.reverse]

def stretchesFrom (st : QuoteState) (held : List Char) : List Char → List Stretch
  | [] => closeStretch st held
  | c :: rest =>
    match st, st.step c with
    | .outside, .outside => stretchesFrom .outside (c :: held) rest
    | .outside, next => closeStretch .outside held ++ stretchesFrom next [c] rest
    | _, .outside => .literal (c :: held).reverse :: stretchesFrom .outside [] rest
    | _, next => stretchesFrom next (c :: held) rest

/-- Cuts a text into its unquoted stretches and its literals. A literal that is not closed runs to
the end. -/
def stretches (cs : List Char) : List Stretch := stretchesFrom .outside [] cs

/-- The literals of a text, in order. -/
def literals (cs : List Char) : List (List Char) :=
  (stretches cs).filterMap fun
    | .plain _ => none
    | .literal text => some text

/-- Edits every unquoted stretch and copies the literals. -/
def editUnquoted (edit : List Char → List Char) (cs : List Char) : List Char :=
  (stretches cs).flatMap fun
    | .plain text => edit text
    | .literal text => text

/-- Puts a backslash before each double quote and each backslash. -/
def escape (cs : List Char) : List Char :=
  cs.flatMap fun c => if c = '"' || c = '\\' then ['\\', c] else [c]

/-- The double-quoted literal of a text. -/
def quote (cs : List Char) : List Char := '"' :: escape cs ++ ['"']

/-- The script literal of a cell: missing cells count as zero. -/
def cellLiteral (c : Cell) : List Char :=
  if c.isMissing then ['0']
  else
    match c with
    | .empty => ['0']
    | .boolean b => if b then "True".toList else "False".toList
    | .number x => (Number.display x).toList
    | .text s => quote s.toList

end SheetBoard.Formula
