import SheetBoard.Cell
import SheetBoard.Schema

/-! Tables, stored by column, with a view of each row. -/

namespace SheetBoard

/-- A schema with one list of cells for each column. -/
structure Table where
  schema : Schema
  columns : List (List Cell)
  rowCount : Nat
  deriving Repr, DecidableEq, Inhabited

/-- One row of a table. -/
structure Row where
  schema : Schema
  index : Nat
  cells : List Cell
  deriving Repr, DecidableEq

namespace Row

/-- The cell of the column with the given name. -/
def get? (r : Row) (name : String) : Option Cell :=
  (r.schema.indexOf? name).bind fun i => r.cells[i]?

/-- The cell of the column with the given letters. -/
def getByLetters? (r : Row) (letters : List Char) : Option Cell :=
  (r.schema.nameAt? letters).bind r.get?

/-- The cells with their column names. -/
def fields (r : Row) : List (String × Cell) := r.schema.names.zip r.cells

end Row

/-- Why a table operation fails. -/
inductive TableError where
  | columnLength (column : String) (expected actual : Nat)
  deriving Repr, DecidableEq

def TableError.message : TableError → String
  | .columnLength column expected actual =>
    "Column '" ++ column ++ "' has " ++ .ofList (Number.digitsOf actual) ++ " values, table has " ++
      .ofList (Number.digitsOf expected) ++ " rows"

namespace Table

/-- There is one list of cells for each column, and each is as long as the table is high. -/
structure WellFormed (t : Table) : Prop where
  width : t.columns.length = t.schema.size
  height : ∀ column ∈ t.columns, column.length = t.rowCount

/-- A table without rows. -/
def ofHeaders (headers : List String) : Table :=
  let schema := Schema.ofHeaders headers
  ⟨schema, List.replicate schema.size [], 0⟩

/-- Puts one value at the end of each column: missing cells past the end of the row, and what the
row has left over is dropped. -/
def extendColumns : List (List Cell) → List Cell → List (List Cell)
  | [], _ => []
  | column :: columns, [] => (column ++ [.empty]) :: extendColumns columns []
  | column :: columns, value :: row => (column ++ [value]) :: extendColumns columns row

def addRow (t : Table) (row : List Cell) : Table :=
  { t with columns := extendColumns t.columns row, rowCount := t.rowCount + 1 }

def ofRows (headers : List String) (rows : List (List Cell)) : Table :=
  rows.foldl addRow (ofHeaders headers)

def width (t : Table) : Nat := t.columns.length

/-- The cells of a column, by name. -/
def column? (t : Table) (name : String) : Option (List Cell) :=
  (t.schema.indexOf? name).bind fun i => t.columns[i]?

/-- The number of data rows before a spreadsheet row. The header is row 1. -/
def rowsBefore (row : Nat) : Nat := row - 2

/-- The cells of a column, by letters, from a spreadsheet row on. -/
def columnFrom (t : Table) (letters : List Char) (start : Nat) : List Cell :=
  match t.schema.nameAt? letters with
  | some name => ((t.column? name).getD []).drop (rowsBefore start)
  | none => []

/-- The first of each group of cells with the same value, without missing cells. -/
def distinct (cells : List Cell) : List Cell :=
  cells.foldl (fun found c =>
    if c.isMissing || found.any (c.same ·) then found else found ++ [c]) []

/-- The different values of a column, by letters, in sorting order. -/
def sortedValues (t : Table) (letters : List Char) : List Cell :=
  (distinct (t.columnFrom letters 0)).mergeSort fun a b => (a.order b).isLE

/-- The cells at one height of the columns. -/
def cellsAt (t : Table) (i : Nat) : List Cell := t.columns.map fun column => column.getD i .empty

def row? (t : Table) (i : Nat) : Option Row :=
  if i < t.rowCount then some ⟨t.schema, i, t.cellsAt i⟩ else none

def rows (t : Table) : List Row :=
  (List.range t.rowCount).map fun i => ⟨t.schema, i, t.cellsAt i⟩

/-- Stores a column under a name and gives its letters. A column of that name is overwritten. -/
def setColumn (t : Table) (name : String) (values : List Cell) :
    Except TableError (Table × List Char) :=
  if values.length ≠ t.rowCount then .error (.columnLength name t.rowCount values.length)
  else
    match t.schema.indexOf? name with
    | some i => .ok ({ t with columns := t.columns.set i values }, Letters.ofIndex i)
    | none =>
      let (schema, letters) := t.schema.extend name
      .ok ({ t with schema, columns := t.columns ++ [values] }, letters)

/-- The rows with the given numbers, in that order; numbers past the end are passed over. -/
def pickRows (t : Table) (indices : List Nat) : Table :=
  { schema := t.schema
    columns := t.columns.map fun column => indices.filterMap fun i => column[i]?
    rowCount := indices.countP (· < t.rowCount) }

/-- The rows that satisfy `keep`. -/
def keepRows (t : Table) (keep : Row → Bool) : Table :=
  t.pickRows ((t.rows.filter keep).map Row.index)

/-- Two tables with the same names and the same values. -/
def same (a b : Table) : Bool :=
  a.schema == b.schema && a.rowCount == b.rowCount &&
    a.columns.length == b.columns.length &&
    (a.columns.zip b.columns).all fun (c, d) =>
      c.length == d.length && (c.zip d).all fun (x, y) => x.same y

end Table

end SheetBoard
