import SheetBoard.Cell
import SheetBoard.Json.Read

/-! Cells in documents. -/

namespace SheetBoard

/-- A cell as a value of a document. Numbers that are not finite have none. -/
def Cell.toJson : Cell → Json
  | .empty => .null
  | .boolean b => .boolean b
  | .number x => if x.isFinite then .number (.real x) else .null
  | .text s => .text s

namespace Json

def Numeral.toFloat : Numeral → Float
  | .whole i => .ofInt i
  | .real x => x

/-- How many arrays and objects may stand inside each other in a cell. -/
def maxDepth : Nat := 127

/-- The cell that a value stands for. Arrays and objects become their text with sorted keys. -/
def toCell : Json → Cell
  | .null | .unusable => .empty
  | .boolean b => .boolean b
  | .number n => .number n.toFloat
  | .text s => .text s
  | v => .text (.ofList v.sorted.compact)

end Json

/-- Reads a cell from the text of a document. -/
def Cell.readJson? (text : String) : Option Cell :=
  (Json.read? text).bind fun v =>
    if v.isUsable && v.depth ≤ Json.maxDepth then some v.toCell else none

end SheetBoard
