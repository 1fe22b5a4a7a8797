import SheetBoard.Calendar.Read
import SheetBoard.Number.Rounded
import SheetBoard.Script.Value

/-! Values written by a format code. -/

namespace SheetBoard.Format

open SheetBoard.Calendar (Date)
open SheetBoard.Script (Value)

def monthNames : List String :=
  ["January", "February", "March", "April", "May", "June", "July", "August", "September", "October",
    "November", "December"]

def monthName (d : Date) : List Char := (monthNames.getD (d.month - 1) "").toList

def shortMonthName (d : Date) : List Char := (monthName d).take 3

def yearText (d : Date) : List Char := Number.signed (d.year < 0) (Number.digitsOf d.year.natAbs)

def monthText (d : Date) : List Char := Calendar.padded 2 d.month

def dayText (d : Date) : List Char := Calendar.padded 2 d.day

/-- A date by its format code, in lower case. -/
def date? (d : Date) (code : String) : Option (List Char) :=
  match code with
  | "mmm yyyy" | "mmm-yyyy" => some (shortMonthName d ++ ' ' :: yearText d)
  | "mmmm yyyy" | "mmmm-yyyy" => some (monthName d ++ ' ' :: yearText d)
  | "mm/yyyy" | "mm-yyyy" => some (monthText d ++ '/' :: yearText d)
  | "yyyy-mm" | "yyyy/mm" => some (yearText d ++ '-' :: monthText d)
  | "yyyy-mm-dd" => some (yearText d ++ '-' :: monthText d ++ '-' :: dayText d)
  | "mm/dd/yyyy" => some (monthText d ++ '/' :: dayText d ++ '/' :: yearText d)
  | "dd/mm/yyyy" => some (dayText d ++ '/' :: monthText d ++ '/' :: yearText d)
  | "mmm" | "mon" => some (shortMonthName d)
  | "mmmm" | "month" => some (monthName d)
  | "yyyy" | "year" => some (yearText d)
  | "mm" | "month_num" => some (monthText d)
  | "dd" | "day" => some (dayText d)
  | _ => none

def isPlaceholder (c : Char) : Bool := c = '#' || c = '0'

/-- A code of placeholders with thousands apart: the number of its places, if it is one. -/
def groupedPlaces? (code : List Char) : Option Nat :=
  let whole := code.takeWhile fun c => isPlaceholder c || c = ','
  if whole.isEmpty then none
  else
    match code.drop whole.length with
    | [] => some 0
    | '.' :: places =>
      if !places.isEmpty && places.all isPlaceholder then some places.length else none
    | _ => none

/-- A number by its format code. -/
def number? (x : Float) (code : String) : Option (List Char) :=
  match code with
  | "0" | "#" => some (Number.withPlaces x 0)
  | "0.0" | "#.#" => some (Number.withPlaces x 1)
  | "0.00" | "#.##" => some (Number.withPlaces x 2)
  | "0%" | "#%" => some (Number.withPlaces (x * 100) 0 ++ ['%'])
  | "0.0%" | "#.#%" => some (Number.withPlaces (x * 100) 1 ++ ['%'])
  | "0.00%" | "#.##%" => some (Number.withPlaces (x * 100) 2 ++ ['%'])
  | "$0" | "$#" => some ('$' :: Number.withPlaces x 0)
  | "$0.00" | "$#.##" => some ('$' :: Number.withPlaces x 2)
  | _ => (groupedPlaces? code.toList).map (Number.withThousands x)

/-- The code that is looked up: without blanks and quotes around it, in lower case. -/
def normalCode (code : List Char) : String :=
  .ofList (Text.lower (Text.dropEndWhile (· = '"') ((Text.trim code).dropWhile (· = '"'))))

/-- A value by a format code: as a date if its text is one, else as a number. A code that fits
neither gives the text of the value, without blanks around it. -/
def text (v : Value) (code : List Char) : List Char :=
  let code := normalCode code
  let shown := Text.trim v.asText
  let byDate := (Calendar.read? shown).bind fun m => date? m.date code
  let byNumber := (v.toFloat?.filter (!·.isNaN)).bind (number? · code)
  (byDate.orElse fun _ => byNumber).getD shown

end SheetBoard.Format
