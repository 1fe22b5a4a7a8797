import SheetBoard.Formula.Call
import SheetBoard.Text.Word

/-! Spreadsheet statements in script form: `IF`, `AND` and `OR` calls, and the operators. -/

namespace SheetBoard.Formula

/-- Writes the leftmost call of a keyword in another form, over and over. It stops at a call whose
parenthesis is not closed or whose arguments `form` does not take, and then leaves the rest as it
is. -/
def writeCalls (keyword : List Char) (form : List (List Char) → Option (List Char)) :
    Nat → List Char → List Char
  | 0, cs => cs
  | fuel + 1, cs =>
    match leftmostCall? keyword cs with
    | none => cs
    | some (head, arguments, tail) =>
      match form (arguments.map Text.trim) with
      | none => cs
      | some text => writeCalls keyword form fuel (head ++ '(' :: text ++ ')' :: tail)

/-- A choice between three arguments, in the order of the script's conditional. -/
def ifForm : List (List Char) → Option (List Char)
  | [condition, yes, no] => some (yes ++ " if ".toList ++ condition ++ " else ".toList ++ no)
  | _ => none

/-- Two or more arguments with an operator between them. -/
def chainForm (operator : List Char) (arguments : List (List Char)) : Option (List Char) :=
  if arguments.length < 2 then none else some (List.intercalate operator arguments)

/-- `IF(c, a, b)` becomes `(a if c else b)`. Every call takes up a character, so the length of the
text bounds the number of rounds. -/
def writeChoices (cs : List Char) : List Char := writeCalls "IF".toList ifForm cs.length cs

/-- `AND(a, b, ...)` becomes `(a and b and ...)`. -/
def writeConjunctions (cs : List Char) : List Char :=
  writeCalls "AND".toList (chainForm " and ".toList) cs.length cs

/-- `OR(a, b, ...)` becomes `(a or b or ...)`. -/
def writeDisjunctions (cs : List Char) : List Char :=
  writeCalls "OR".toList (chainForm " or ".toList) cs.length cs

def isOperandChar (c : Char) : Bool := Text.isAlphanumeric c || c = '_'

/-- An ampersand joins two operands: it is a single one, with the end of an operand on its left and
the start of one on its right. `seen` holds the text before it, last character first. -/
def joinsOperands (seen rest : List Char) : Bool :=
  let left := (seen.dropWhile Text.isBlank).head?
  let right := (rest.dropWhile Text.isBlank).head?
  seen.head? != some '&' && rest.head? != some '&' &&
    left.any (fun c => isOperandChar c || c = ')' || isQuote c) &&
    right.any (fun c => isOperandChar c || c = '(' || isQuote c)

/-- An equals sign that is part of a longer comparison. -/
def partOfComparison (seen rest : List Char) : Bool :=
  seen.head?.any (fun c => c = '=' || c = '!' || c = '<' || c = '>') || rest.head? == some '='

/-- Writes operators from a point on. `seen` holds the input before it and `out` the output so far,
both last character first; `skipping` drops the blanks after a joining ampersand. -/
def writeOperatorsFrom (st : QuoteState) (skipping : Bool) (seen out : List Char) :
    List Char → List Char
  | [] => out.reverse
  | c :: rest =>
    if st ≠ .outside then writeOperatorsFrom (st.step c) false (c :: seen) (c :: out) rest
    else if skipping ∧ Text.isBlank c then writeOperatorsFrom .outside true (c :: seen) out rest
    else if c = '&' ∧ joinsOperands seen rest then
      writeOperatorsFrom .outside true (c :: seen)
        (' ' :: '+' :: ' ' :: out.dropWhile Text.isBlank) rest
    else if c = '=' then
      let out := if partOfComparison seen rest then '=' :: out else '=' :: '=' :: out
      writeOperatorsFrom .outside false (c :: seen) out rest
    else if c = '<' ∧ rest.head? = some '>' then
      writeOperatorsFrom .outside false (c :: seen) ('!' :: out) rest
    else if c = '>' ∧ seen.head? = some '<' then
      writeOperatorsFrom .outside false (c :: seen) ('=' :: out) rest
    else writeOperatorsFrom (st.step c) false (c :: seen) (c :: out) rest

/-- Outside literals, `<>` becomes `!=`, a lone `=` becomes `==`, and `&` between two operands
becomes ` + `. -/
def writeOperators (cs : List Char) : List Char := writeOperatorsFrom .outside false [] [] cs

/-- All statements of a formula: choices first, so that their arguments are split while the logical
calls in them are still calls, and operators last. -/
def writeStatements (cs : List Char) : List Char :=
  writeOperators (writeDisjunctions (writeConjunctions (writeChoices cs)))

end SheetBoard.Formula
