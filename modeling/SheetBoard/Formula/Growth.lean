import SheetBoard.Formula.Reference

/-! Average growth: the formula `AVERAGE(((X - Y) / Y) * 100)` over column ranges, as one call. -/

namespace SheetBoard.Formula

/-- Passes over blanks and then one given character. -/
def passMark? (c : Char) (cs : List Char) : Option (List Char) :=
  match Text.trimStart cs with
  | d :: rest => if d = c then some rest else none
  | [] => none

/-- Passes over blanks and reads a range of capitals and digits around a colon, of which the leading
capitals are kept. -/
def readRange? (cs : List Char) : Option (List Char × List Char) := do
  let (reference, rest) ← Reference.read? (Text.trimStart cs)
  match rest with
  | ':' :: rest =>
    return (reference.letters, (rest.dropWhile Text.isDecimalDigit).dropWhile isCapital)
  | _ => none

/-- The growth formula; what is found are the columns of the first two ranges. -/
def growthFormula : Pattern (List Char × List Char) := fun _ cs => do
  let word := "AVERAGE".toList
  guard ((cs.take word.length).map Char.toUpper == word)
  let rest ← match cs.drop word.length with
    | '(' :: rest => some rest
    | _ => none
  let rest ← passMark? '(' rest
  let rest ← passMark? '(' rest
  let (current, rest) ← readRange? rest
  let rest ← passMark? '-' rest
  let (previous, rest) ← readRange? rest
  let rest ← passMark? ')' rest
  let rest ← passMark? '/' rest
  let (_, rest) ← readRange? rest
  let rest ← passMark? ')' rest
  let rest ← passMark? '*' rest
  let rest ← match Text.trimStart rest with
    | '1' :: '0' :: '0' :: rest => some rest
    | _ => none
  let rest ← passMark? ')' rest
  return ((current, previous), rest)

/-- Writes the growth formula as one call, outside literals and where both columns exist. -/
def writeGrowth (schema : Schema) (cs : List Char) : List Char :=
  editUnquoted
    (replaceAll growthFormula fun _ (current, previous) _ => do
      let current ← schema.nameAt? current
      let previous ← schema.nameAt? previous
      return "arrayAvg(arrayPercentageGrowth(getColumnData(".toList ++ quote current.toList ++
        ", 2), getColumnData(".toList ++ quote previous.toList ++ ", 2)))".toList)
    cs

end SheetBoard.Formula
