import SheetBoard.Association
import SheetBoard.Dashboard.Spec
import SheetBoard.Formula.Reference

/-! The column that each filter of a dashboard is about. -/

namespace SheetBoard.Dashboard

open SheetBoard.Formula

/-- What a filter chooses by: the values of a column, or their years. -/
inductive Selector where
  | column (name : String)
  | year (column : String)
  deriving Repr, DecidableEq

/-- The year of a column range, such as `YEAR(C2:C)`; what is found are the letters. -/
def yearCall : Pattern (List Char) := fun _ cs => do
  let word := "YEAR(".toList
  guard (word.isPrefixOf cs)
  let (reference, rest) ← Reference.read? (cs.drop word.length)
  let rest := match rest with
    | ':' :: rest => rest
    | rest => rest
  match rest.dropWhile isCapital with
  | ')' :: rest => return (reference.letters, rest)
  | _ => none

/-- A colon and capitals after a reference, if a word ends there. -/
def rangeEnd (rest : List Char) : List Char :=
  match rest with
  | ':' :: tail =>
    let left := tail.dropWhile isCapital
    if tail.head?.any isCapital && endsWord left then left else rest
  | _ => rest

/-- A reference that stands on its own, with or without the end of a range. -/
def columnReference : Pattern (List Char) := fun before cs => do
  guard (startsWord before)
  let (reference, rest) ← Reference.read? cs
  let rest := rangeEnd rest
  guard (endsWord rest)
  return (reference.letters, rest)

/-- The name occurs somewhere in the text. -/
def mentions (name : List Char) : List Char → Bool
  | [] => name.isEmpty
  | c :: rest => name.isPrefixOf (c :: rest) || mentions name rest

/-- The column of a filter: that of the first year, else the first column whose name is mentioned,
else the first that is referred to, else one of the filter's own name. -/
def Spec.Filter.selector (schema : Schema) (filter : Spec.Filter) : Selector :=
  let formula := filter.valuesFormula.toList
  match (findAll yearCall formula).head?.bind schema.nameAt? with
  | some name => .year name
  | none =>
    let mentioned := schema.names.find? fun name => mentions name.toList formula
    .column ((mentioned.orElse fun _ =>
      (findAll columnReference formula).findSome? schema.nameAt?).getD filter.name)

/-- The columns of the filters by name. Of two filters with one name, the later one counts. -/
def selectors (schema : Schema) (filters : List Spec.Filter) : List (String × Selector) :=
  filters.foldl
    (fun found filter => Association.insert filter.name (filter.selector schema) found) []

end SheetBoard.Dashboard
