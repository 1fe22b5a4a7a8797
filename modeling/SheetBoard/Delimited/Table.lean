import SheetBoard.Delimited.Records
import SheetBoard.Table.Basic

/-! Tables read from delimited text, and written as such. -/

namespace SheetBoard.Delimited

structure ReadOptions where
  delimiter : Char := ','
  quote : Char := '"'
  /-- The first record has the column names. Without it, columns are named by their letters. -/
  hasHeader : Bool := true
  /-- Fields are read as numbers and booleans where they can be. -/
  detectTypes : Bool := true
  deriving Repr

structure WriteOptions where
  delimiter : Char := ','
  quote : Char := '"'
  writeHeader : Bool := true
  /-- Lines end with a carriage return and a line feed. -/
  carriageReturns : Bool := false
  deriving Repr

/-- Why no table can be read. -/
inductive ReadError where
  | missingHeader
  /-- A field is not text. -/
  | malformed
  deriving Repr, DecidableEq

def ReadError.message : ReadError → String
  | .missingHeader => "CSV input has no header row"
  | .malformed => "CSV error: invalid UTF-8"

def charDialect (delimiter quote : Char) : Dialect Char := ⟨delimiter, quote, '\n', '\r'⟩

def byteDialect (delimiter quote : Char) : Dialect UInt8 :=
  ⟨delimiter.toNat.toUInt8, quote.toNat.toUInt8, 10, 13⟩

/-- The cell of a field. -/
def ReadOptions.cell (options : ReadOptions) (field : List Char) : Cell :=
  if options.detectTypes then .detect field
  else if field.isEmpty then .empty
  else .text (.ofList field)

/-- The table of some records. -/
def tableOfRecords (options : ReadOptions) (records : List (List (List Char))) :
    Except ReadError Table :=
  if options.hasHeader then
    match records with
    | [] => .error .missingHeader
    | header :: rows =>
      .ok (.ofRows (header.map fun name => .ofList (Text.trim name))
        (rows.map fun row => row.map options.cell))
  else
    let width := (records.map List.length).foldl max 0
    .ok (.ofRows ((List.range width).map fun i => .ofList (Letters.ofIndex i))
      (records.map fun row => row.map options.cell))

/-- Drops a byte order mark at the start. -/
def dropMark : List Char → List Char
  | c :: rest => if c.toNat = 0xFEFF then rest else c :: rest
  | [] => []

/-- Reads a table from text. -/
def readText (options : ReadOptions) (text : String) : Except ReadError Table :=
  tableOfRecords options
    (records (charDialect options.delimiter options.quote) (dropMark text.toList))

def dropMarkBytes : List UInt8 → List UInt8
  | 0xEF :: 0xBB :: 0xBF :: rest => rest
  | bytes => bytes

/-- The text of a field's bytes. -/
def decodeField? (bytes : List UInt8) : Option (List Char) :=
  (String.fromUTF8? ⟨bytes.toArray⟩).map String.toList

/-- Reads a table from bytes. Every field must be UTF-8 on its own. -/
def readBytes (options : ReadOptions) (bytes : List UInt8) : Except ReadError Table :=
  match (records (byteDialect options.delimiter options.quote) (dropMarkBytes bytes)).mapM
      fun record => record.mapM decodeField? with
  | none => .error .malformed
  | some records => tableOfRecords options records

/-- The records of a table, the column names first if they are asked for. -/
def recordsOfTable (options : WriteOptions) (t : Table) : List (List (List Char)) :=
  let rows := t.rows.map fun row => row.cells.map fun cell => cell.display.toList
  if options.writeHeader then t.schema.names.map String.toList :: rows else rows

/-- Writes a table as text. -/
def writeText (options : WriteOptions) (t : Table) : String :=
  let dialect := charDialect options.delimiter options.quote
  let lineEnd := if options.carriageReturns then ['\r', '\n'] else ['\n']
  .ofList ((recordsOfTable options t).flatMap fun record => dialect.writeRecord record ++ lineEnd)

end SheetBoard.Delimited
