import SheetBoard.Formula.Reference
import SheetBoard.Text.Case

/-! The table that maps spreadsheet function names to the names of the script. -/

namespace SheetBoard.Formula

/-- Names in upper case, each with its name in scripts. -/
structure FunctionTable where
  entries : List (String × String)
  deriving Repr, DecidableEq

namespace FunctionTable

def upperName (name : String) : String := .ofList (Text.upper name.toList)

/-- Maps a name; an earlier mapping of the name is replaced. -/
def insert (table : FunctionTable) (name target : String) : FunctionTable :=
  let key := upperName name
  if table.entries.any (·.1 == key) then
    ⟨table.entries.map fun entry => if entry.1 == key then (key, target) else entry⟩
  else ⟨table.entries ++ [(key, target)]⟩

def ofPairs (pairs : List (String × String)) : FunctionTable :=
  pairs.foldl (fun table (name, target) => table.insert name target) ⟨[]⟩

/-- The script name of a function, whatever the case of its letters. -/
def get? (table : FunctionTable) (name : String) : Option String :=
  table.entries.lookup (upperName name)

def size (table : FunctionTable) : Nat := table.entries.length

/-- The entries by name. -/
def sorted (table : FunctionTable) : List (String × String) :=
  table.entries.mergeSort fun a b => (compare a.1 b.1).isLE

/-- The functions of the script. -/
def standard : FunctionTable := ofPairs [
  ("SUM", "arraySum"), ("AVG", "arrayAvg"), ("AVERAGE", "arrayAvg"), ("COUNT", "arrayCount"),
  ("COUNTA", "arrayCountA"), ("MAX", "arrayMax"), ("MIN", "arrayMin"), ("SUMIF", "arraySumIf"),
  ("COUNTIF", "arrayCountIf"), ("COUNTIFS", "arrayCountIfs"), ("UNIQUE", "arrayUnique"),
  ("IF", "excelIf"), ("AND", "excelAnd"), ("OR", "excelOr"), ("ROUND", "Math.round"),
  ("ABS", "Math.abs"), ("INT", "Math.floor"), ("MONTH", "getMonth"), ("YEAR", "arrayMapYear"),
  ("TODAY", "excelToday"), ("TIME", "excelTime"), ("HOUR", "excelHour"),
  ("TIMEVALUE", "excelTimeValue"), ("INDEX", "arrayIndex"), ("MATCH", "arrayMatch"),
  ("CHOOSE", "excelChoose"), ("LEFT", "excelLeft"), ("RIGHT", "excelRight"), ("MID", "excelMid"),
  ("VALUE", "parseFloat"), ("ISNUMBER", "excelIsNumber"), ("SEARCH", "excelSearch"),
  ("TEXT", "excelText")]

/-- A name with its opening parenthesis, blanks between them allowed. -/
def callName : Pattern (List Char) := fun before cs => do
  guard (startsWord before && cs.head?.any isNameStart)
  let name := cs.takeWhile isNameChar
  match Text.trimStart (cs.dropWhile isNameChar) with
  | '(' :: rest => return (name, rest)
  | _ => none

/-- Renames the calls outside literals that the table knows, members after a point left out. -/
def apply (table : FunctionTable) (cs : List Char) : List Char :=
  editUnquoted
    (replaceAll callName fun before name _ =>
      if before == some '.' then none
      else (table.get? (.ofList name)).map fun target => target.toList ++ ['('])
    cs

end FunctionTable

end SheetBoard.Formula
