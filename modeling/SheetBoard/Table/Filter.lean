import SheetBoard.Table.Basic

/-! Dashboard filters on the rows of a table. -/

namespace SheetBoard

/-- What a filter keeps. -/
inductive Filter where
  | single (value : Cell)
  | any (values : List Cell)
  | range (least most : Option Float)
  deriving Repr

namespace Filter

/-- The filter has no value to compare with, and keeps every row. -/
def isVacuous : Filter → Bool
  | .single v => v.isMissing || v.asText? == some ""
  | .any _ => false
  | .range .. => false

/-- The filter keeps a row with this cell. Both ends of a range are included. -/
def keeps : Filter → Cell → Bool
  | .single expected, c => c.agrees expected
  | .any values, c => values.any (c.agrees ·)
  | .range least most, c =>
    match c.toFloat? with
    | none => false
    | some x => least.all (x ≥ ·) && most.all (x ≤ ·)

end Filter

/-- Equality that ignores the case of ASCII letters. -/
def Text.equalIgnoringCase (s t : String) : Bool :=
  s.toList.map Char.toLower == t.toList.map Char.toLower

namespace Table

/-- The first column whose name agrees with the filter's, for each filter that is set. -/
def activeFilters (t : Table) (filters : List (String × Filter)) : List (Nat × Filter) :=
  filters.filterMap fun (name, filter) =>
    if filter.isVacuous then none
    else (t.schema.names.findIdx? (Text.equalIgnoringCase · name)).map (·, filter)

/-- The rows that every filter keeps. A filter that is unset or names no column is passed over. -/
def filterBy (t : Table) (filters : List (String × Filter)) : Table :=
  let active := t.activeFilters filters
  t.keepRows fun row => active.all fun (i, filter) => filter.keeps (row.cells.getD i .empty)

end Table

end SheetBoard
