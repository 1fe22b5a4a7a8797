import SheetBoard.Formula.Script
import SheetBoard.Script.Eval

/-! Derived columns: a formula evaluated for each row. -/

namespace SheetBoard

/-- A column to be computed. -/
structure Transformation where
  name : String
  formula : String
  deriving Repr, DecidableEq

/-- A column that was computed: its letters, and the number of rows for which there is no value. -/
structure NewColumn where
  name : String
  letters : String
  failedRows : Nat
  deriving Repr, DecidableEq

namespace Transformation

/-- The value of a formula for one row, if it has one. The formula sees the row and no table. -/
def rowValue? (today : Calendar.Date) (formula : String) (row : Row) : Option Cell :=
  match Script.run ⟨none, today⟩ (Formula.rowScript .standard row formula).toList with
  | .ok v => some v.toCell
  | .error _ => none

/-- The cells of a new column, and how many of them have no value and stay empty. A text that is no
formula stands in every row. -/
def compute (today : Calendar.Date) (spec : Transformation) (t : Table) : List Cell × Nat :=
  if spec.formula.toList.head? = some '=' then
    let values := t.rows.map (rowValue? today spec.formula)
    (values.map (·.getD .empty), values.countP Option.isNone)
  else (List.replicate t.rowCount (.text spec.formula), 0)

end Transformation

/-- Adds the columns in order, each one seeing those before it. -/
def Table.transform (today : Calendar.Date) (specs : List Transformation) (t : Table) :
    Except TableError (Table × List NewColumn) :=
  specs.foldlM
    (fun (t, derived) spec =>
      let (cells, failed) := spec.compute today t
      (t.setColumn spec.name cells).map fun (t, letters) =>
        (t, derived ++ [⟨spec.name, .ofList letters, failed⟩]))
    (t, [])

end SheetBoard
