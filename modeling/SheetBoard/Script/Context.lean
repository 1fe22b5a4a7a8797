import SheetBoard.Calendar.Date
import SheetBoard.Script.Error
import SheetBoard.Script.Value
import SheetBoard.Table.Basic

/-! What a script is evaluated against: a table, if there is one, and the date of today. -/

namespace SheetBoard.Script

structure Context where
  table : Option Table
  today : Calendar.Date

namespace Context

/-- A column by its name, or by its letters where no column has that name. -/
def column? (ctx : Context) (name : String) : Option (String × List Cell) := do
  let table ← ctx.table
  let column ← if table.schema.contains name then some name else table.schema.nameAt? name.toList
  return (column, ← table.column? column)

/-- The values of a column from a spreadsheet row on; none for an unknown column. -/
def columnFrom (ctx : Context) (name : String) (start : Nat) : Value :=
  let cells := ((ctx.column? name).map (·.2)).getD []
  .array ((cells.drop (Table.rowsBefore start)).map .ofCell)

/-- The value of a column in a row counted from the header, which is row zero and holds the column's
name. -/
def cellAt (ctx : Context) (name : String) (row : Nat) : Value :=
  match ctx.column? name with
  | none => .null
  | some (column, cells) =>
    match row with
    | 0 => .text column
    | i + 1 => ((cells[i]?).map .ofCell).getD .null

end Context

/-- The argument in a place; nothing where there is none. -/
def argument (args : List Value) (i : Nat) : Value := args.getD i .null

/-- The argument in a place that a function cannot do without. -/
def required (function : String) (args : List Value) (i : Nat) : Except ScriptError Value :=
  match args[i]? with
  | some v => .ok v
  | none => .error (.argumentCount function (.atLeast (i + 1)) args.length)

/-- What a function makes of its first argument. -/
def fromFirst (function : String) (args : List Value) (f : Value → Value) :
    Except ScriptError Value := do
  return f (← required function args 0)

@[simp] theorem fromFirst_cons (function : String) (v : Value) (args : List Value)
    (f : Value → Value) : fromFirst function (v :: args) f = .ok (f v) := rfl

/-- What a function makes of its first two arguments. -/
def fromFirstTwo (function : String) (args : List Value) (f : Value → Value → Value) :
    Except ScriptError Value := do
  return f (← required function args 0) (← required function args 1)

@[simp] theorem fromFirstTwo_cons (function : String) (v w : Value) (args : List Value)
    (f : Value → Value → Value) : fromFirstTwo function (v :: w :: args) f = .ok (f v w) := rfl

/-- The whole part of an argument, or `default` where it is missing, empty or not a number. -/
def wholeArgument (args : List Value) (i : Nat) (default : Int) : Int :=
  match args[i]? with
  | none | some .null => default
  | some v => if v.toFloat.isNaN then default else Number.toInt v.toFloat

end SheetBoard.Script
