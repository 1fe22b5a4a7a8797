import SheetBoard.Dashboard.Spec
import SheetBoard.Json.Read

/-! Reading a dashboard from a document. A record is an object with its fields in any order, or an
array of its fields in their own order. -/

namespace SheetBoard.Dashboard

/-- The values of the named fields of a record. Other fields of an object are passed over, but no
named field may stand there twice, and an array may not be longer than the record. -/
def fieldsOf? (names : List String) : Json → Option (List (Option Json))
  | .object fields =>
    if names.all fun name => fields.countP (·.1 == name) ≤ 1 then
      some (names.map fun name => fields.lookup name)
    else none
  | .array items =>
    if items.length ≤ names.length then
      some (items.map some ++ List.replicate (names.length - items.length) none)
    else none
  | _ => none

/-- A field that must be there. -/
def required {α : Type} (decode : Json → Option α) (field : Option Json) : Option α :=
  field.bind decode

/-- A field that may be left out. -/
def optional {α : Type} (default : α) (decode : Json → Option α) : Option Json → Option α
  | none => some default
  | some v => decode v

def text? : Json → Option String
  | .text s => some s
  | _ => none

def boolean? : Json → Option Bool
  | .boolean b => some b
  | _ => none

/-- A whole number below a bound. -/
def natural? (bound : Nat) : Json → Option Nat
  | .number (.whole i) => if 0 ≤ i ∧ i < bound then some i.toNat else none
  | _ => none

def list? {α : Type} (decode : Json → Option α) : Json → Option (List α)
  | .array items => items.mapM decode
  | _ => none

def Metadata.ofJson? (v : Json) : Option Metadata :=
  match fieldsOf? ["name", "description", "file_path", "fa_icon"] v with
  | some [name, description, filePath, icon] => do
    return {
      name := ← optional "" text? name
      description := ← optional "" text? description
      filePath := ← optional "" text? filePath
      icon := ← optional "" text? icon }
  | _ => none

def transformation? (v : Json) : Option Transformation :=
  match fieldsOf? ["name", "formula"] v with
  | some [name, formula] => do
    return {
      name := ← required text? name
      formula := ← required text? formula }
  | _ => none

def Spec.Filter.ofJson? (v : Json) : Option Spec.Filter :=
  match fieldsOf? ["name", "type", "values_formula"] v with
  | some [name, kind, valuesFormula] => do
    return {
      name := ← required text? name
      kind := ← optional "list" text? kind
      valuesFormula := ← required text? valuesFormula }
  | _ => none

def Spec.Kpi.ofJson? (v : Json) : Option Spec.Kpi :=
  match fieldsOf? ["name", "fa_icon", "value_formula", "format_type", "unit"] v with
  | some [name, icon, valueFormula, format, unit] => do
    return {
      name := ← required text? name
      icon := ← optional "" text? icon
      valueFormula := ← required text? valueFormula
      format := ← optional "number" text? format
      unit := ← optional "" text? unit }
  | _ => none

def Axis.ofJson? (v : Json) : Option Axis :=
  match fieldsOf? ["name", "column", "group_by"] v with
  | some [name, column, groupBy] => do
    return {
      name := ← optional "" text? name
      column := ← optional "" text? column
      groupBy := ← optional "" text? groupBy }
  | _ => none

def Series.ofJson? (v : Json) : Option Series :=
  match fieldsOf?
      ["name", "column", "aggregation", "format_type", "unit", "filter_condition", "axis"] v with
  | some [name, column, aggregation, format, unit, filterCondition, axis] => do
    return {
      name := ← required text? name
      column := ← required text? column
      aggregation := ← optional "" text? aggregation
      format := ← optional "number" text? format
      unit := ← optional "" text? unit
      filterCondition := ← optional "" text? filterCondition
      axis := ← optional "y" text? axis }
  | _ => none

def Spec.Chart.ofJson? (v : Json) : Option Spec.Chart :=
  match fieldsOf?
      ["chart_type", "name", "x_axis", "series_list", "style", "area", "cumulative", "top_n",
        "default_filter_conditions"] v with
  | some [kind, name, xAxis, series, style, area, cumulative, topN, conditions] => do
    return {
      kind := ← required text? kind
      name := ← required text? name
      xAxis := ← optional {} Axis.ofJson? xAxis
      series := ← optional [] (list? Series.ofJson?) series
      style := ← optional "" text? style
      area := ← optional false boolean? area
      cumulative := ← optional false boolean? cumulative
      topN := ← optional 0 (natural? Number.wordSize) topN
      conditions := ← optional [] (list? text?) conditions }
  | _ => none

/-- A component, told by its type. -/
def Spec.Component.ofJson? (v : Json) : Option Spec.Component :=
  match fieldsOf? ["type", "spec"] v with
  | some [some (.text "kpi"), some spec] => (Spec.Kpi.ofJson? spec).map .kpi
  | some [some (.text "chart"), some spec] => (Spec.Chart.ofJson? spec).map .chart
  | _ => none

def Spec.Column.ofJson? (v : Json) : Option Spec.Column :=
  match fieldsOf? ["size", "content"] v with
  | some [size, content] => do
    return {
      size := ← optional 1 (natural? (Number.twoTo 32)) size
      content := ← optional [] (list? Spec.Component.ofJson?) content }
  | _ => none

/-- The columns of a row. -/
def row? (v : Json) : Option (List Spec.Column) :=
  match fieldsOf? ["columns"] v with
  | some [columns] => optional [] (list? Spec.Column.ofJson?) columns
  | _ => none

/-- The rows of a grid. -/
def grid? (v : Json) : Option (List (List Spec.Column)) :=
  match fieldsOf? ["rows"] v with
  | some [rows] => optional [] (list? row?) rows
  | _ => none

def Spec.ofJson? (v : Json) : Option Spec :=
  match fieldsOf? ["metadata", "transformations", "filters", "grid"] v with
  | some [metadata, transformations, filters, grid] => do
    return {
      metadata := ← optional {} Metadata.ofJson? metadata
      transformations := ← optional [] (list? transformation?) transformations
      filters := ← optional [] (list? Spec.Filter.ofJson?) filters
      rows := ← optional [] grid? grid }
  | _ => none

/-- Reads a dashboard from the text of a document. -/
def Spec.read? (text : String) : Option Spec := (Json.read? text).bind Spec.ofJson?

end SheetBoard.Dashboard
