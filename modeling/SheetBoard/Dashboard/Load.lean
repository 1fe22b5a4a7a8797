import SheetBoard.Dashboard.Spec
import SheetBoard.Delimited.Table

/-! The data of a dashboard: a file of delimited text, and the columns derived from it. -/

namespace SheetBoard.Dashboard

/-- Why there is no data. -/
inductive LoadError where
  | missingFile
  | unreadable (error : Delimited.ReadError)
  | notDerived (error : TableError)
  deriving Repr, DecidableEq

/-- What the system says about a file that does not exist. -/
def missingFileMessage : String := "No such file or directory (os error 2)"

/-- The error in words, with what caused it after it. -/
def LoadError.messages : LoadError → List String
  | .missingFile => ["IO error: " ++ missingFileMessage, missingFileMessage]
  | .unreadable e => [e.message]
  | .notDerived e => [e.message]

/-- Reads a table from a file, given its content if it exists. -/
def loadTable (file : Option ByteArray) : Except LoadError Table :=
  match file with
  | none => .error .missingFile
  | some bytes => (Delimited.readBytes {} bytes.toList).mapError .unreadable

/-- The table that a dashboard is about, with its derived columns. -/
def Spec.load (today : Calendar.Date) (file : Option ByteArray) (spec : Spec) :
    Except LoadError Table := do
  let table ← loadTable file
  let (table, _) ← (table.transform today spec.transformations).mapError .notDerived
  return table

end SheetBoard.Dashboard
