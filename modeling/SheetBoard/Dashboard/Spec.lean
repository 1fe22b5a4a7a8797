import SheetBoard.Derived

/-! Dashboards as they are authored: derived columns, filters, and a grid of key figures and charts.
-/

namespace SheetBoard.Dashboard

structure Metadata where
  name : String := ""
  description : String := ""
  /-- The data file that the dashboard is about. -/
  filePath : String := ""
  icon : String := ""
  deriving Repr, DecidableEq

structure Spec.Filter where
  name : String
  kind : String := "list"
  /-- The formula for the values to choose from. -/
  valuesFormula : String
  deriving Repr, DecidableEq

/-- A key figure. -/
structure Spec.Kpi where
  name : String
  icon : String := ""
  valueFormula : String
  format : String := "number"
  unit : String := ""
  deriving Repr, DecidableEq

structure Axis where
  name : String := ""
  column : String := ""
  groupBy : String := ""
  deriving Repr, DecidableEq

structure Series where
  name : String
  column : String
  aggregation : String := ""
  format : String := "number"
  unit : String := ""
  filterCondition : String := ""
  axis : String := "y"
  deriving Repr, DecidableEq

structure Spec.Chart where
  kind : String
  name : String
  xAxis : Axis := {}
  series : List Series := []
  style : String := ""
  area : Bool := false
  cumulative : Bool := false
  /-- How many groups are shown; zero is all of them. -/
  topN : Nat := 0
  conditions : List String := []
  deriving Repr, DecidableEq

inductive Spec.Component where
  | kpi (spec : Spec.Kpi)
  | chart (spec : Spec.Chart)
  deriving Repr, DecidableEq

structure Spec.Column where
  /-- The width, relative to the other columns of the row. -/
  size : Nat := 1
  content : List Spec.Component := []
  deriving Repr, DecidableEq

structure Spec where
  metadata : Metadata := {}
  transformations : List Transformation := []
  filters : List Spec.Filter := []
  /-- The rows of the grid. -/
  rows : List (List Spec.Column) := []
  deriving Repr, DecidableEq

end SheetBoard.Dashboard
