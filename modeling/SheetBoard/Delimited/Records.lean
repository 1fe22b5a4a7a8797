/-! Delimited text as records of fields. The symbols may be characters or bytes. -/

namespace SheetBoard.Delimited

/-- The symbols with a meaning in delimited text. -/
structure Dialect (α : Type) where
  delimiter : α
  quote : α
  lineFeed : α
  carriageReturn : α

/-- Where a scan of delimited text stands. -/
inductive Place where
  | recordStart
  | fieldStart
  | unquoted
  | quoted
  /-- Just after a quote in a quoted field, which may close the field or be doubled. -/
  | afterQuote
  deriving Repr, DecidableEq

variable {α : Type} [DecidableEq α]

def Dialect.endsLine (d : Dialect α) (c : α) : Bool := c = d.lineFeed || c = d.carriageReturn

/-- What one symbol does to the scan. -/
inductive Action where
  /-- Nothing, a symbol between records. -/
  | skip
  /-- Opens or closes quoting. -/
  | move (place : Place)
  /-- Adds the symbol to the field. -/
  | push (place : Place)
  | endField
  | endRecord
  deriving Repr, DecidableEq

/-- A symbol outside quotes: it ends the field or the record, or belongs to the field. -/
def Dialect.plainAction (d : Dialect α) (c : α) : Action :=
  if c = d.delimiter then .endField else if d.endsLine c then .endRecord else .push .unquoted

/-- The first symbol of a field: a quote opens a quoted field. -/
def Dialect.startAction (d : Dialect α) (c : α) : Action :=
  if c = d.quote then .move .quoted else d.plainAction c

/-- Empty lines are skipped. A quote within an unquoted field is a symbol like any other, and text
after a closing quote goes on as unquoted. -/
def Dialect.action (d : Dialect α) : Place → α → Action
  | .recordStart, c => if d.endsLine c then .skip else d.startAction c
  | .fieldStart, c => d.startAction c
  | .unquoted, c => d.plainAction c
  | .quoted, c => if c = d.quote then .move .afterQuote else .push .quoted
  | .afterQuote, c => if c = d.quote then .push .quoted else d.plainAction c

/-- The records from a place on. `field` holds the field so far and `fields` the record so far, both
with the last one first. At the end of the text the record is complete, whatever it holds. -/
def recordsFrom (d : Dialect α) (place : Place) (field : List α) (fields : List (List α)) :
    List α → List (List (List α))
  | [] => if place = .recordStart then [] else [(field.reverse :: fields).reverse]
  | c :: rest =>
    match d.action place c with
    | .skip => recordsFrom d .recordStart [] [] rest
    | .move place => recordsFrom d place field fields rest
    | .push place => recordsFrom d place (c :: field) fields rest
    | .endField => recordsFrom d .fieldStart [] (field.reverse :: fields) rest
    | .endRecord => (field.reverse :: fields).reverse :: recordsFrom d .recordStart [] [] rest

def records (d : Dialect α) (text : List α) : List (List (List α)) :=
  recordsFrom d .recordStart [] [] text

/-- A field that would not read back as it is. -/
def Dialect.needsQuotes (d : Dialect α) (field : List α) : Bool :=
  field.any fun c => c = d.delimiter || c = d.quote || d.endsLine c

/-- A field as written: in quotes if it has to be, with its quotes doubled. -/
def Dialect.writeField (d : Dialect α) (field : List α) : List α :=
  if d.needsQuotes field then
    d.quote :: field.flatMap (fun c => if c = d.quote then [c, c] else [c]) ++ [d.quote]
  else field

/-- A record as written, without its line end. A record that would be an empty line is a pair of
quotes. -/
def Dialect.writeRecord (d : Dialect α) (fields : List (List α)) : List α :=
  let text := List.intercalate [d.delimiter] (fields.map d.writeField)
  if text.isEmpty then [d.quote, d.quote] else text

end SheetBoard.Delimited
