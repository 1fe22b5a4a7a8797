import SheetBoard.Dashboard.Board
import SheetBoard.Dashboard.Selector
import SheetBoard.Json.Cell

/-! Boards as documents. -/

namespace SheetBoard.Dashboard

def natural (n : Nat) : Json := .number (.whole n)

/-- A field that is left out when it has no value. -/
def fieldIfAny (name : String) (v : Option Json) : List (String × Json) :=
  (v.map fun v => (name, v)).toList

def Metadata.toJson (m : Metadata) : Json :=
  .object [
    ("name", .text m.name),
    ("description", .text m.description),
    ("file_path", .text m.filePath),
    ("fa_icon", .text m.icon)]

def FilterPanel.toJson (p : FilterPanel) : Json :=
  .object ([
    ("id", .text p.id),
    ("name", .text p.spec.name),
    ("type", .text p.spec.kind),
    ("values_formula", .text p.spec.valuesFormula),
    ("values_script", .text p.valuesScript)] ++
    fieldIfAny "values" (p.values.map fun cells => .array (cells.map Cell.toJson)))

def KpiTile.toJson (t : KpiTile) : Json :=
  .object ([
    ("type", .text "kpi"),
    ("id", .text t.id),
    ("name", .text t.spec.name),
    ("fa_icon", .text t.spec.icon),
    ("value_formula", .text t.spec.valueFormula),
    ("value_script", .text t.valueScript),
    ("format_type", .text t.spec.format),
    ("unit", .text t.spec.unit)] ++
    fieldIfAny "display_value" (t.display.map .text))

def Axis.toJson (a : Axis) : Json :=
  .object [("name", .text a.name), ("column", .text a.column), ("group_by", .text a.groupBy)]

def Series.toJson (s : Series) : Json :=
  .object [
    ("name", .text s.name),
    ("column", .text s.column),
    ("aggregation", .text s.aggregation),
    ("format_type", .text s.format),
    ("unit", .text s.unit),
    ("filter_condition", .text s.filterCondition),
    ("axis", .text s.axis)]

/-- A chart without conditions has null for them. -/
def ChartTile.toJson (t : ChartTile) : Json :=
  .object [
    ("type", .text "chart"),
    ("id", .text t.id),
    ("chart_type", .text t.spec.kind),
    ("name", .text t.spec.name),
    ("x_axis", t.spec.xAxis.toJson),
    ("series_list", .array (t.spec.series.map Series.toJson)),
    ("style", .text t.spec.style),
    ("area", .boolean t.spec.area),
    ("cumulative", .boolean t.spec.cumulative),
    ("top_n", natural t.spec.topN),
    ("default_filter_conditions",
      if t.conditions.isEmpty then .null else .array (t.conditions.map .text))]

def Tile.toJson : Tile → Json
  | .kpi tile => tile.toJson
  | .chart tile => tile.toJson

def BoardColumn.toJson (c : BoardColumn) : Json :=
  .object [
    ("type", .text "column"),
    ("id", .text c.id),
    ("flex_grow", natural c.size),
    ("content", .array (c.content.map Tile.toJson))]

def BoardRow.toJson (r : BoardRow) : Json :=
  .object [
    ("type", .text "row"),
    ("id", .text r.id),
    ("columns", .array (r.columns.map BoardColumn.toJson))]

def Board.toJson (b : Board) : Json :=
  .object [
    ("metadata", b.metadata.toJson),
    ("filters", .array (b.filters.map FilterPanel.toJson)),
    ("components", .array (b.rows.map BoardRow.toJson))]

def Selector.toJson : Selector → Json
  | .column name => .text name
  | .year name => .object [("column", .text name), ("transform", .text "YEAR")]

end SheetBoard.Dashboard
