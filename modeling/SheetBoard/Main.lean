import SheetBoard.Command.Run
import Std.Time.Format

/-! The `dash` program. -/

open SheetBoard

/-- The content of a file, if it can be read. -/
def readFile (path : String) : IO (Option ByteArray) := do
  try
    return some (← IO.FS.readBinFile path)
  catch _ => return none

/-- Stores a file, and tells whether that was possible. -/
def storeFile (file : Command.StoredFile) : IO Bool := do
  try
    IO.FS.writeFile file.path file.text
    return true
  catch _ => return false

/-- The date of today. -/
def currentDate : IO Calendar.Date := do
  let date ← Std.Time.PlainDate.now
  return ⟨date.year.toInt, date.month.val.toNat, date.day.val.toNat⟩

def main (args : List String) : IO UInt32 := do
  let command := Command.read args
  let paths := match command with
    | .ok c => c.inputs
    | .error _ => []
  let contents ← paths.mapM readFile
  let files (path : String) := ((paths.zip contents).lookup path).join
  let outcome := Command.perform files (← currentDate) command
  let stored ← match outcome.file with
    | some file => storeFile file
    | none => pure false
  let outcome := outcome.settle stored
  IO.print outcome.output
  IO.eprint outcome.notes
  return outcome.code.toUInt32
