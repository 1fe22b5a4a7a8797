import SheetBoard.Condition
import SheetBoard.Dashboard.Spec
import SheetBoard.Format.Kpi

/-! Dashboards as a renderer gets them: with identifiers, with the scripts of all formulas, and with
values where there is a table to compute them from. -/

namespace SheetBoard.Dashboard

structure FilterPanel where
  id : String
  spec : Spec.Filter
  /-- The script that returns the values. -/
  valuesScript : String
  values : Option (List Cell) := none
  deriving Repr, DecidableEq

structure KpiTile where
  id : String
  spec : Spec.Kpi
  valueScript : String
  /-- The figure as it is shown. -/
  display : Option String := none
  deriving Repr, DecidableEq

structure ChartTile where
  id : String
  spec : Spec.Chart
  /-- The conditions of the chart with columns by name. -/
  conditions : List String
  deriving Repr, DecidableEq

inductive Tile where
  | kpi (tile : KpiTile)
  | chart (tile : ChartTile)
  deriving Repr, DecidableEq

structure BoardColumn where
  id : String
  size : Nat
  content : List Tile
  deriving Repr, DecidableEq

structure BoardRow where
  id : String
  columns : List BoardColumn
  deriving Repr, DecidableEq

structure Board where
  metadata : Metadata
  filters : List FilterPanel
  rows : List BoardRow
  deriving Repr, DecidableEq

/-- The spelling of a name in an identifier: lower case, without parentheses, and with underscores
for blanks and, if asked for, dashes. -/
def slug (name : String) (dashes : Bool) : String :=
  .ofList (((Text.lower name.toList).filter fun c => c ≠ '(' && c ≠ ')').map fun c =>
    if c = ' ' || (dashes && c = '-') then '_' else c)

/-- What formulas are written for: the function names of the renderer and the columns of the data.
-/
structure Target where
  functions : Formula.FunctionTable
  schema : Schema

namespace Target

def columnScript (target : Target) (formula : String) : String :=
  Formula.columnScript target.functions target.schema formula

def filterPanel (target : Target) (spec : Spec.Filter) : FilterPanel where
  id := "filter_" ++ .ofList ((Text.lower spec.name.toList).map fun c => if c = ' ' then '_' else c)
  spec := spec
  valuesScript := Formula.valuesScript target.functions target.schema spec.valuesFormula

def kpiTile (target : Target) (spec : Spec.Kpi) : KpiTile where
  id := "kpi_" ++ slug spec.name false
  spec := spec
  valueScript := target.columnScript spec.valueFormula

/-- A condition with its column by name. Text that is no condition is kept. -/
def condition (target : Target) (text : String) : String :=
  match Condition.read target.schema text with
  | .ok c => c.display
  | .error _ => text

def chartTile (target : Target) (spec : Spec.Chart) : ChartTile where
  id := "chart_" ++ slug spec.name true
  spec := spec
  conditions := spec.conditions.map target.condition

def tile (target : Target) : Spec.Component → Tile
  | .kpi spec => .kpi (target.kpiTile spec)
  | .chart spec => .chart (target.chartTile spec)

def column (target : Target) (rowId : String) (index : Nat) (spec : Spec.Column) : BoardColumn where
  id := rowId ++ "_col_" ++ .ofList (Number.digitsOf index)
  size := spec.size
  content := spec.content.map target.tile

def row (target : Target) (index : Nat) (columns : List Spec.Column) : BoardRow :=
  let id := "row_" ++ String.ofList (Number.digitsOf index)
  ⟨id, columns.zipIdx.map fun (spec, i) => target.column id i spec⟩

/-- The board of an authored dashboard, without values. -/
def board (target : Target) (spec : Spec) : Board where
  metadata := spec.metadata
  filters := spec.filters.map target.filterPanel
  rows := spec.rows.zipIdx.map fun (columns, i) => target.row i columns

end Target

/-- The value of a script over a table. -/
def evaluate (today : Calendar.Date) (table : Table) (script : String) :
    Except Script.ScriptError Script.Value :=
  Script.run ⟨some table, today⟩ script.toList

/-- Computes the values of a filter. A single value is a list of one. -/
def FilterPanel.evaluate (target : Target) (today : Calendar.Date) (table : Table)
    (panel : FilterPanel) : FilterPanel :=
  match Dashboard.evaluate today table (target.columnScript panel.spec.valuesFormula) with
  | .ok (.array items) => { panel with values := some (items.map Script.Value.toCell) }
  | .ok v => { panel with values := some [v.toCell] }
  | .error _ => panel

/-- Computes key figures; charts have no values of their own. -/
def Tile.evaluate (today : Calendar.Date) (table : Table) : Tile → Tile
  | .kpi tile =>
    match Dashboard.evaluate today table tile.valueScript with
    | .ok v => .kpi { tile with display := some (Format.kpi v tile.spec.format) }
    | .error _ => .kpi tile
  | .chart tile => .chart tile

def BoardRow.mapTiles (f : Tile → Tile) (row : BoardRow) : BoardRow :=
  { row with columns := row.columns.map fun column =>
      { column with content := column.content.map f } }

/-- The board of an authored dashboard with its values over a table. What cannot be evaluated has
none. -/
def boardOver (functions : Formula.FunctionTable) (today : Calendar.Date) (table : Table)
    (spec : Spec) : Board :=
  let target : Target := ⟨functions, table.schema⟩
  let board := target.board spec
  { board with
    filters := board.filters.map (·.evaluate target today table)
    rows := board.rows.map (·.mapTiles (Tile.evaluate today table)) }

/-- A key figure over a table, as it is shown. -/
def figure (today : Calendar.Date) (table : Table) (formula format : String) :
    Except Script.ScriptError String :=
  (evaluate today table (Formula.columnScript .standard table.schema formula)).map
    (Format.kpi · format)

end SheetBoard.Dashboard
