import SheetBoard.Json.Cell
import SheetBoard.Table.Basic

/-! Tables and their columns as documents. -/

namespace SheetBoard

/-- The columns as one object, from letters to names. -/
def Schema.toJson (s : Schema) : Json :=
  .object (s.mapping.map fun (letters, name) => (letters, .text name))

namespace Table

/-- The rows as objects, in which missing cells are empty texts. -/
def records (t : Table) : Json :=
  .array (t.rows.map fun row =>
    .object (row.fields.map fun (name, cell) =>
      (name, if cell.isMissing then .text "" else cell.toJson)))

/-- The size of a table, its column names and its first three rows. -/
def overview (t : Table) : Json :=
  .object [
    ("rows", .number (.whole t.rowCount)),
    ("columns", .number (.whole t.width)),
    ("column_names", .array (t.schema.names.map .text)),
    ("sample_data", .array ((t.rows.take 3).map fun row => .array (row.cells.map Cell.toJson)))]

end Table

end SheetBoard
