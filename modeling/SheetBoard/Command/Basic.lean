import SheetBoard.Command.Argument
import SheetBoard.Number.Read

/-! The commands of the `dash` program. -/

namespace SheetBoard

namespace Command

/-- Whether a formula is about whole columns or about one row. -/
inductive Mode where
  | column
  | row (index : Nat)
  deriving Repr, DecidableEq

end Command

inductive Command where
  /-- Prints the script of a formula, and its value if asked to. -/
  | script (csv formula : String) (mode : Command.Mode) (evaluate : Bool)
  /-- Adds columns, each given as `NAME=FORMULA`, and prints or stores the table. -/
  | derive (csv : String) (columns : List String) (output : Option String)
  /-- Prints a key figure. -/
  | kpi (csv formula format : String)
  /-- Prints the letters and names of the columns. -/
  | schema (csv : String)
  /-- Prints the board of a dashboard, with values if asked to. -/
  | dashboard (csv spec : String) (evaluate : Bool)
  deriving Repr, DecidableEq

namespace Command

def verbose : Parameter := ⟨"verbose", some 'v', false, none⟩

def help : Parameter := ⟨"help", some 'h', false, some .help⟩

def version : Parameter := ⟨"version", some 'V', false, some .version⟩

/-- A path that may be given once; it is not empty. -/
def path? (name : String) (args : List Argument) : Except Stop (Option String) := do
  let path ← optionValue? name args
  if path = some "" then .error .usage else .ok path

def path (name : String) (args : List Argument) : Except Stop String := do
  let some p ← path? name args | .error .usage
  return p

/-- Only a formula and nothing else may stand without a name. -/
def noValues (args : List Argument) : Except Stop Unit :=
  if (plainValues args).isEmpty then .ok () else .error .usage

/-- The number of a row: decimal digits, of 64 bits, maybe after a plus. -/
def rowNumber (text : String) : Except Stop Nat :=
  let digits := match text.toList with
    | '+' :: rest => rest
    | cs => cs
  if digits.isEmpty || !digits.all Number.isDigit ||
      Number.wordSize ≤ Number.natOfDigits digits then
    .error .usage
  else .ok (Number.natOfDigits digits)

/-- The mode by its name. The number of the row must be right even if it does not matter. -/
def mode (args : List Argument) : Except Stop Mode := do
  let name ← optionValue? "mode" args
  let index ← rowNumber ((← optionValue? "row" args).getD "0")
  match name.getD "column" with
  | "column" => .ok .column
  | "row" => .ok (.row index)
  | _ => .error .usage

def readScript (args : List Argument) : Except Stop Command := do
  match plainValues args with
  | [formula] => return .script (← path "csv" args) formula (← mode args) (← hasFlag "eval" args)
  | _ => .error .usage

def readDerive (args : List Argument) : Except Stop Command := do
  noValues args
  let columns := optionValues "column" args
  if columns.isEmpty then .error .usage
  else return .derive (← path "csv" args) columns (← path? "output" args)

def readKpi (args : List Argument) : Except Stop Command := do
  noValues args
  return .kpi (← path "csv" args) (← optionValue "formula" args)
    ((← optionValue? "format" args).getD "number")

def readSchema (args : List Argument) : Except Stop Command := do
  noValues args
  return .schema (← path "csv" args)

def readDashboard (args : List Argument) : Except Stop Command := do
  noValues args
  return .dashboard (← path "csv" args) (← path "spec" args) (← hasFlag "evaluate" args)

/-- A command's own parameters, and what it makes of its arguments. -/
def formOf? (name : String) : Option (List Parameter × (List Argument → Except Stop Command)) :=
  match name with
  | "translate" =>
    some ([⟨"csv", none, true, none⟩, ⟨"mode", some 'm', true, none⟩, ⟨"row", some 'r', true, none⟩,
      ⟨"eval", some 'e', false, none⟩], readScript)
  | "derive" =>
    some ([⟨"csv", none, true, none⟩, ⟨"column", some 'c', true, none⟩,
      ⟨"output", some 'o', true, none⟩], readDerive)
  | "kpi" =>
    some ([⟨"csv", none, true, none⟩, ⟨"formula", some 'f', true, none⟩,
      ⟨"format", none, true, none⟩], readKpi)
  | "schema" => some ([⟨"csv", none, true, none⟩], readSchema)
  | "dashboard" =>
    some ([⟨"csv", none, true, none⟩, ⟨"spec", some 's', true, none⟩,
      ⟨"evaluate", some 'e', false, none⟩], readDashboard)
  | _ => none

/-- Reads a command from the arguments of the program. -/
def read (args : List String) : Except Stop Command := do
  let (name, rest) ← readLeading [verbose, help, version] args
  match formOf? name with
  | none => .error .usage
  | some (parameters, interpret) =>
    interpret (← readArguments (verbose :: help :: parameters) none rest)

/-- The files that a command reads. -/
def inputs : Command → List String
  | .script csv _ _ _ => [csv]
  | .derive csv _ _ => [csv]
  | .kpi csv _ _ => [csv]
  | .schema csv => [csv]
  | .dashboard csv spec _ => [csv, spec]

end Command

end SheetBoard
