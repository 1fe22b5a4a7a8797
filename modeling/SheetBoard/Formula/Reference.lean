import SheetBoard.Formula.Literal
import SheetBoard.Formula.Replace
import SheetBoard.Table.Basic
import SheetBoard.Text.Word

/-! References to columns and cells, resolved against a schema: to the values of one row, or to
calls that fetch the data of whole columns. -/

namespace SheetBoard.Formula

/-- What references stand for: the cells of one row, or the columns of a table. -/
inductive Scope where
  | row (row : Row)
  | columns (schema : Schema)

def Scope.schema : Scope → Schema
  | .row r => r.schema
  | .columns schema => schema

/-- The text for a whole column, from a start row on if one is given. -/
def Scope.column (scope : Scope) (name : String) (start : Option (List Char)) : List Char :=
  match scope with
  | .row r =>
    match r.get? name with
    | some cell => cellLiteral cell
    | none => quote name.toList
  | .columns _ =>
    let limit := (start.map fun digits => ',' :: ' ' :: digits).getD []
    "getColumnData(".toList ++ quote name.toList ++ limit ++ [')']

def isCapital (c : Char) : Bool := 'A' ≤ c && c ≤ 'Z'

def isNameStart (c : Char) : Bool := Text.isAsciiLetter c || c = '_'

def isNameChar (c : Char) : Bool := isNameStart c || Text.isAsciiDigit c

/-- A word ends before `rest`, its last character being a word character. -/
def endsWord (rest : List Char) : Bool := !rest.head?.any Text.isWordChar

/-- A word starts after `before`, its first character being a word character. -/
def startsWord (before : Option Char) : Bool := !before.any Text.isWordChar

/-- A run of capitals, then a run of digits. -/
structure Reference where
  letters : List Char
  digits : List Char
  deriving Repr, DecidableEq

/-- Reads capitals and the digits after them. -/
def Reference.read? (cs : List Char) : Option (Reference × List Char) :=
  let letters := cs.takeWhile isCapital
  let tail := cs.dropWhile isCapital
  if letters.isEmpty then none
  else some (⟨letters, tail.takeWhile Text.isDecimalDigit⟩, tail.dropWhile Text.isDecimalDigit)

/-- The text is capitals with digits after them, and nothing else. -/
def isReference (cs : List Char) : Bool :=
  match Reference.read? cs with
  | some (_, rest) => rest.isEmpty
  | none => false

/-- A name of two or more characters. -/
def readName? (cs : List Char) : Option (List Char × List Char) :=
  let name := cs.takeWhile isNameChar
  if cs.head?.any isNameStart && 2 ≤ name.length then some (name, cs.dropWhile isNameChar) else none

/-- Two names with a colon between them. -/
def nameRange : Pattern (List Char × List Char) := fun before cs => do
  guard (startsWord before)
  let (first, rest) ← readName? cs
  match rest with
  | ':' :: rest =>
    let (last, rest) ← readName? rest
    guard (endsWord rest)
    return ((first, last), rest)
  | _ => none

/-- Two references with a colon between them. -/
def letterRange : Pattern (Reference × Reference) := fun before cs => do
  guard (startsWord before)
  let (first, rest) ← Reference.read? cs
  match rest with
  | ':' :: rest =>
    let (last, rest) ← Reference.read? rest
    guard (endsWord rest)
    return ((first, last), rest)
  | _ => none

/-- A reference with at least one digit. -/
def cellReference : Pattern Reference := fun before cs => do
  guard (startsWord before)
  let (reference, rest) ← Reference.read? cs
  guard (!reference.digits.isEmpty && endsWord rest)
  return (reference, rest)

/-- A given name that starts and ends between words. -/
def wholeName (name : List Char) : Pattern Unit := fun before cs => do
  let rest := cs.drop name.length
  guard (name.isPrefixOf cs && Text.isBoundary before name.head? &&
    Text.isBoundary name.getLast? rest.head?)
  return ((), rest)

/-- The column that letters name: the one in that place, or one whose header is spelled like that.
-/
def columnByLetters? (schema : Schema) (letters : List Char) : Option String :=
  (schema.nameAt? letters).orElse fun _ =>
    if schema.contains (.ofList letters) then some (.ofList letters) else none

/-- Ranges between two spellings of one column name, such as `sales2:sales`. Two letter references
are left to the letter ranges, unless there is a header of that spelling. -/
def resolveNameRanges (scope : Scope) (cs : List Char) : List Char :=
  replaceReferences nameRange
    (fun _ (first, last) _ =>
      let base := if last.length ≤ first.length then last else first
      if !(last.isPrefixOf first || first.isPrefixOf last) then none
      else if isReference first && isReference last &&
          !scope.schema.contains (.ofList base) then none
      else some (scope.column (.ofList base) none))
    cs

/-- Ranges within one column, such as `B2:B`. A start row of 1 is the header and counts as none. -/
def resolveLetterRanges (scope : Scope) (cs : List Char) : List Char :=
  replaceReferences letterRange
    (fun _ (first, last) _ =>
      let start := if first.digits = [] ∨ first.digits = ['1'] then none else some first.digits
      if first.letters ≠ last.letters then none
      else
        match scope, columnByLetters? scope.schema first.letters with
        | .row _, none => some (quote first.letters)
        | _, some name => some (scope.column name start)
        | .columns _, none => some (scope.column (.ofList first.letters) start))
    cs

/-- Decimal text of an integer. -/
def intText (i : Int) : List Char := Number.signed (i < 0) (Number.digitsOf i.natAbs)

/-- Single cells, such as `A1`. For one row the row number does not matter. Ends of a range that was
not resolved stay as they are. -/
def resolveCells (scope : Scope) (cs : List Char) : List Char :=
  replaceReferences cellReference
    (fun before reference rest =>
      if rest.head? == some ':' || before == some ':' then none
      else
        let name := columnByLetters? scope.schema reference.letters
        match scope with
        | .row row =>
          some (((name.bind row.get?).map cellLiteral).getD (quote reference.letters))
        | .columns _ =>
          (Number.readInt? reference.digits).map fun row =>
            "getCellValue(".toList ++ quote ((name.map String.toList).getD reference.letters) ++
              [',', ' '] ++ intText (row - 1) ++ [')'])
    cs

/-- Words with a meaning of their own, which never name a column. -/
def reservedWords : List String :=
  ["if", "else", "and", "or", "not", "True", "False", "None", "true", "false", "null", "TRUE",
    "FALSE"]

/-- The name can be told apart as a whole word. -/
def isSearchable (name : String) : Bool :=
  let cs := name.toList
  let isWord (c : Char) := Text.isAlphanumeric c || c = '_'
  cs.head?.any isWord && cs.getLast?.any isWord &&
    !cs.all (fun c => Text.isAsciiDigit c || c = '.') && !reservedWords.contains name

/-- The names that are looked for, longest first, so that a name wins over its own beginning. -/
def searchedNames (schema : Schema) : List String :=
  (schema.names.filter isSearchable).mergeSort fun a b => b.utf8ByteSize ≤ a.utf8ByteSize

/-- Column names that stand on their own. A name is looked for whatever its length: it is left out
that one of many megabytes can be too long for a search pattern, and is then skipped. -/
def resolveNames (scope : Scope) (cs : List Char) : List Char :=
  (searchedNames scope.schema).foldl
    (fun cs name =>
      editUnquoted
        (replaceReferences (wholeName name.toList) fun _ _ _ => some (scope.column name none)) cs)
    cs

/-- All references outside literals, the most specific forms first. What an earlier step writes
holds column names only in literals, so no later step touches it. -/
def resolve (scope : Scope) (cs : List Char) : List Char :=
  let cs := editUnquoted (resolveNameRanges scope) cs
  let cs := editUnquoted (resolveLetterRanges scope) cs
  let cs := editUnquoted (resolveCells scope) cs
  resolveNames scope cs

end SheetBoard.Formula
