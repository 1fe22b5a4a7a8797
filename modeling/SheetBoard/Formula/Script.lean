import SheetBoard.Formula.FunctionTable
import SheetBoard.Formula.Growth
import SheetBoard.Formula.Statement

/-! Scripts of formulas. A formula starts with an equals sign; any other text stands for itself. -/

namespace SheetBoard.Formula

/-- The script of a formula body in a scope. -/
def bodyScript (functions : FunctionTable) (scope : Scope) (body : List Char) : List Char :=
  match scope with
  | .row _ => resolve scope (writeStatements body)
  | .columns schema => writeOperators (functions.apply (resolve scope (writeGrowth schema body)))

def script (functions : FunctionTable) (scope : Scope) (formula : List Char) : List Char :=
  match formula with
  | '=' :: body => bodyScript functions scope body
  | _ => quote formula

/-- The script that computes a formula over whole columns. -/
def columnScript (functions : FunctionTable) (schema : Schema) (formula : String) : String :=
  .ofList (script functions (.columns schema) formula.toList)

/-- The script that computes a formula for one row. -/
def rowScript (functions : FunctionTable) (row : Row) (formula : String) : String :=
  .ofList (script functions (.row row) formula.toList)

/-- The script that a renderer calls for the values of a filter. -/
def valuesScript (functions : FunctionTable) (schema : Schema) (formula : String) : String :=
  "(function() \x7b return " ++ columnScript functions schema formula ++ "; \x7d)()"

end SheetBoard.Formula
