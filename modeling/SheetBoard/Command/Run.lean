import SheetBoard.Command.Basic
import SheetBoard.Dashboard.Decode
import SheetBoard.Dashboard.Document
import SheetBoard.Dashboard.Load
import SheetBoard.Table.Document

/-! What the commands of the `dash` program print and store. -/

namespace SheetBoard.Command

/-- Why a command fails: what it was doing, and what went wrong, from the nearest cause on. -/
structure Failure where
  context : String
  causes : List String := []
  deriving Repr, DecidableEq

/-- Indents all lines of a cause after the first. -/
def indented (width : Nat) (text : String) : String :=
  .ofList (text.toList.flatMap fun c => if c = '\n' then '\n' :: List.replicate width ' ' else [c])

/-- The failure in words. Two or more causes are numbered. -/
def Failure.message (f : Failure) : String :=
  let causes :=
    match f.causes with
    | [] => ""
    | [cause] => "\n\nCaused by:\n    " ++ indented 4 cause
    | causes =>
      "\n\nCaused by:" ++ String.join (causes.zipIdx.map fun (cause, i) =>
        let number := Number.digitsOf i
        "\n" ++ .ofList (List.replicate (5 - number.length) ' ' ++ number) ++ ": " ++
          indented 7 cause)
  "Error: " ++ f.context ++ causes ++ "\n"

/-- A file to be stored. -/
structure StoredFile where
  path : String
  text : String
  /-- What is said once it is stored. -/
  note : String
  deriving Repr, DecidableEq

/-- What a run of the program leaves behind. -/
structure Outcome where
  code : Nat := 0
  /-- The standard output. -/
  output : String := ""
  /-- The error stream. -/
  notes : String := ""
  file : Option StoredFile := none
  deriving Repr, DecidableEq

def Outcome.failed (f : Failure) (output : String) : Outcome where
  code := 1
  output := output
  notes := f.message

/-- The outcome once it is known whether the file could be stored. -/
def Outcome.settle (o : Outcome) (stored : Bool) : Outcome :=
  match o.file with
  | none => o
  | some file =>
    if stored then { o with notes := o.notes ++ file.note }
    else
      let failure : Failure :=
        ⟨"Failed to write '" ++ file.path ++ "'", Dashboard.LoadError.missingFile.messages⟩
      { o with code := 1, notes := o.notes ++ failure.message }

/-- The content of each file that exists. -/
abbrev Files := String → Option ByteArray

def load (files : Files) (path : String) : Except Failure Table :=
  (Dashboard.loadTable (files path)).mapError fun e =>
    ⟨"Failed to load '" ++ path ++ "'", e.messages⟩

def decimal (n : Nat) : String := .ofList (Number.digitsOf n)

/-- The script of a formula over a table, in a mode. -/
def scriptOf (table : Table) (formula : String) : Mode → Except Failure String
  | .column => .ok (Formula.columnScript .standard table.schema formula)
  | .row index =>
    match table.row? index with
    | some row => .ok (Formula.rowScript .standard row formula)
    | none =>
      .error ⟨"Row " ++ decimal index ++ " not found (" ++ decimal table.rowCount ++ " rows)", []⟩

/-- The script is printed before it is evaluated, so it is there even if it has no value. -/
def runScript (files : Files) (today : Calendar.Date) (csv formula : String) (mode : Mode)
    (evaluate : Bool) : Except Failure Outcome := do
  let table ← load files csv
  let script ← scriptOf table formula mode
  let output := script ++ "\n"
  if !evaluate then return { output }
  else
    match Dashboard.evaluate today table script with
    | .ok v => return { output := output ++ .ofList v.asText ++ "\n" }
    | .error e => return .failed ⟨"Failed to evaluate '" ++ script ++ "'", [e.message]⟩ output

/-- Cuts a text at its first equals sign. -/
def splitAtEquals? (cs : List Char) : Option (List Char × List Char) :=
  match cs.dropWhile (· ≠ '=') with
  | _ :: rest => some (cs.takeWhile (· ≠ '='), rest)
  | [] => none

/-- Reads a column given as `NAME=FORMULA`, with blanks allowed around both. -/
def readColumn (arg : String) : Except Failure Transformation :=
  match splitAtEquals? arg.toList with
  | none => .error ⟨"Expected NAME=FORMULA, got '" ++ arg ++ "'", []⟩
  | some (name, formula) =>
    if (Text.trim name).isEmpty then .error ⟨"Missing column name in '" ++ arg ++ "'", []⟩
    else .ok ⟨.ofList (Text.trim name), .ofList (Text.trim formula)⟩

/-- A warning for a column that has rows without a value. -/
def warning (column : NewColumn) : String :=
  if column.failedRows = 0 then ""
  else "Warning: " ++ decimal column.failedRows ++ " rows of '" ++ column.name ++
    "' could not be computed\n"

def runDerive (files : Files) (today : Calendar.Date) (csv : String) (columns : List String)
    (output : Option String) : Except Failure Outcome := do
  let specs ← columns.mapM readColumn
  let table ← load files csv
  let (table, derived) ← (table.transform today specs).mapError fun e =>
    ⟨"Failed to apply transformations", [e.message]⟩
  let text := Delimited.writeText {} table
  let warnings := String.join (derived.map warning)
  match output with
  | none => return { output := text, notes := warnings }
  | some path =>
    let note := "Wrote " ++ decimal table.rowCount ++ " rows to '" ++ path ++ "'\n"
    return { notes := warnings, file := some ⟨path, text, note⟩ }

def runKpi (files : Files) (today : Calendar.Date) (csv formula format : String) :
    Except Failure Outcome := do
  let table ← load files csv
  match Dashboard.figure today table formula format with
  | .ok text => return { output := text ++ "\n" }
  | .error e => .error ⟨"Failed to evaluate '" ++ formula ++ "'", [e.message]⟩

/-- A document as it is printed. -/
def document (v : Json) : Outcome where
  output := .ofList (v.pretty 0) ++ "\n"

def runSchema (files : Files) (csv : String) : Except Failure Outcome := do
  let table ← load files csv
  return document table.schema.toJson

def readSpec (files : Files) (path : String) : Except Failure Dashboard.Spec :=
  match (files path).bind String.fromUTF8? with
  | none => .error ⟨"Failed to read '" ++ path ++ "'", [Dashboard.missingFileMessage]⟩
  | some text =>
    match Dashboard.Spec.read? text with
    | some spec => .ok spec
    | none => .error ⟨"Failed to parse '" ++ path ++ "'", ["Invalid dashboard specification"]⟩

/-- The dashboard is read before its data. -/
def runDashboard (files : Files) (today : Calendar.Date) (csv spec : String) (evaluate : Bool) :
    Except Failure Outcome := do
  let spec ← readSpec files spec
  let table ← (spec.load today (files csv)).mapError fun e =>
    ⟨"Failed to prepare '" ++ csv ++ "'", e.messages⟩
  let board :=
    if evaluate then Dashboard.boardOver .standard today table spec
    else Dashboard.Target.board ⟨.standard, table.schema⟩ spec
  return document board.toJson

def run (files : Files) (today : Calendar.Date) : Command → Except Failure Outcome
  | .script csv formula mode evaluate => runScript files today csv formula mode evaluate
  | .derive csv columns output => runDerive files today csv columns output
  | .kpi csv formula format => runKpi files today csv formula format
  | .schema csv => runSchema files csv
  | .dashboard csv spec evaluate => runDashboard files today csv spec evaluate

def usageText : String :=
  "Usage: dash [-v] <translate|derive|kpi|schema|dashboard> --csv <FILE> [OPTIONS]\n"

/-- What the program does with the outcome of reading its arguments. -/
def perform (files : Files) (today : Calendar.Date) : Except Stop Command → Outcome
  | .error .version => { output := "dash 0.1.0\n" }
  | .error .help => { output := usageText }
  | .error .usage => { code := 2, notes := usageText }
  | .ok command =>
    match run files today command with
    | .ok outcome => outcome
    | .error f => .failed f ""

end SheetBoard.Command
