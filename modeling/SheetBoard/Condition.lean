import SheetBoard.Criterion
import SheetBoard.Formula.Reference

/-! Row conditions: a column, a comparison and a value, such as `sales >= 100`. -/

namespace SheetBoard

open SheetBoard.Script (Value)

structure Condition where
  column : String
  op : Comparison
  value : Cell
  deriving Repr, DecidableEq

namespace Condition

/-- The text is no condition. -/
structure Invalid where
  text : String
  deriving Repr, DecidableEq

def Invalid.message (e : Invalid) : String := "Invalid condition '" ++ e.text ++ "'"

/-- The comparison at the start of a text, the longest spelling first. -/
def operatorAt? : List Char → Option (Comparison × List Char)
  | '>' :: '=' :: rest => some (.greaterEqual, rest)
  | '<' :: '=' :: rest => some (.lessEqual, rest)
  | '!' :: '=' :: rest => some (.notEqual, rest)
  | '<' :: '>' :: rest => some (.notEqual, rest)
  | '=' :: '=' :: rest => some (.equal, rest)
  | '=' :: rest => some (.equal, rest)
  | '>' :: rest => some (.greater, rest)
  | '<' :: rest => some (.less, rest)
  | _ => none

/-- The comparison after some blanks, with the value after it. The value is on one line. -/
def comparisonAt? (cs : List Char) : Option (Comparison × List Char) := do
  let (op, rest) ← operatorAt? (Text.trimStart cs)
  let value := Text.trim rest
  guard (!value.contains '\n')
  return (op, value)

/-- Cuts a text at the first comparison that leaves a column before it, on one line. -/
def split? : List Char → Option (List Char × Comparison × List Char)
  | [] => none
  | c :: rest =>
    if c = '\n' then none
    else
      match comparisonAt? rest with
      | some (op, value) => some ([c], op, value)
      | none => (split? rest).map fun (column, found) => (c :: column, found)

/-- The parts of a condition. Blanks in front are left out, as far as something is left for the
column. -/
def parts? (cs : List Char) : Option (List Char × Comparison × List Char) :=
  let blanks := (cs.takeWhile Text.isBlank).length
  (List.range (blanks + 1)).reverse.findSome? fun n => split? (cs.drop n)

/-- The letters of a range within one column. -/
def rangeLetters? (cs : List Char) : Option (List Char) := do
  let (first, rest) ← Formula.Reference.read? cs
  match rest with
  | ':' :: rest =>
    let (last, rest) ← Formula.Reference.read? rest
    guard (rest.isEmpty && first.letters == last.letters)
    return first.letters
  | _ => none

/-- The column that a reference means: by its name, by a range, by its letters, or as it stands. -/
def columnOf (schema : Schema) (cs : List Char) : String :=
  let byLetters := if cs.all Formula.isCapital then schema.nameAt? cs else none
  if schema.contains (.ofList cs) then .ofList cs
  else (((rangeLetters? cs).bind schema.nameAt?).orElse fun _ => byLetters).getD (.ofList cs)

/-- Takes the backslashes away that cover other characters. -/
def unescape : List Char → List Char
  | [] => []
  | [c] => [c]
  | c :: d :: rest => if c = '\\' then d :: unescape rest else c :: unescape (d :: rest)

/-- Reads a value: a quoted text, or a cell. -/
def readValue (cs : List Char) : Cell :=
  match cs with
  | '"' :: rest =>
    if rest.getLast? = some '"' then .text (.ofList (unescape rest.dropLast)) else .detect cs
  | _ =>
    match Cell.detect cs with
    | .empty => .text (.ofList cs)
    | cell => cell

/-- Reads a condition on the columns of a schema. -/
def read (schema : Schema) (text : String) : Except Invalid Condition :=
  match parts? text.toList with
  | none => .error ⟨text⟩
  | some (column, op, value) =>
    if value.isEmpty then .error ⟨text⟩
    else .ok ⟨columnOf schema column, op, readValue value⟩

/-- What the column's cells are compared with. -/
def operand (c : Condition) : Operand :=
  match c.value with
  | .number x => .number x
  | .boolean b => .boolean b
  | .text s => .text s
  | .empty => .text ""

/-- The row meets the condition. A row without the column does not. -/
def accepts (c : Condition) (row : Row) : Bool :=
  (row.get? c.column).any fun cell => c.operand.compare c.op (.ofCell cell)

/-- The condition as text, in a form that can be read back. -/
def display (c : Condition) : String :=
  let value : List Char :=
    match c.value with
    | .text s => Formula.quote s.toList
    | .number x => (Number.display x).toList
    | .boolean b => if b then "true".toList else "false".toList
    | .empty => ['"', '"']
  c.column ++ " " ++ c.op.spelling ++ " " ++ .ofList value

end Condition

/-- The rows that meet every condition. -/
def Table.retain (t : Table) (conditions : List Condition) : Table :=
  t.keepRows fun row => conditions.all (·.accepts row)

end SheetBoard
