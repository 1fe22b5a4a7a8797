import SheetBoard.Calendar.Read
import SheetBoard.Script.Context
import SheetBoard.Text.Word

/-! Functions on dates and times. Times of day are hours with a fraction. -/

namespace SheetBoard.Script.Library

/-- A whole number; blanks are zero, and other text must spell one. -/
def integer? : Value → Option Int
  | .null => some 0
  | .text s =>
    let cs := Text.trim s.toList
    if cs.isEmpty then some 0 else Number.readInt? cs
  | v => (v.toFloat?.filter Float.isFinite).map Number.toInt

/-- Hours, minutes and seconds in hours. -/
def hours (h m s : Int) : Float := Float.ofInt h + Float.ofInt m / 60 + Float.ofInt s / 3600

/-- The time of minutes, seconds and hours, in this order. It is zero when one of them is no number.
-/
def time (args : List Value) : Value :=
  let at? (i : Nat) : Option Int := ((args[i]?).map integer?).getD (some 0)
  match at? 0, at? 1, at? 2 with
  | some m, some s, some h => .number (hours h m s)
  | _, _, _ => .number 0

/-- Cuts a text at every colon. -/
def splitColons : List Char → List (List Char)
  | [] => [[]]
  | c :: rest =>
    match splitColons rest with
    | [] => [[c]]
    | piece :: pieces => if c = ':' then [] :: piece :: pieces else (c :: piece) :: pieces

/-- Reads hours and minutes, and seconds if there are any. -/
def readClock? (cs : List Char) : Option (Int × Int × Int) :=
  let number (piece : List Char) := Number.readInt? (Text.trim piece)
  match splitColons (Text.trim cs) with
  | [h, m] => do return (← number h, ← number m, 0)
  | h :: m :: s :: _ => do return (← number h, ← number m, ← number s)
  | _ => none

/-- The hour of a value: of a number its whole part, of a text the hour of the date or clock time
that it spells, or the whole part of its number. -/
def hourIn (v : Value) : Float :=
  let ofText (cs : List Char) : Float :=
    match Calendar.read? cs with
    | some m => Float.ofNat m.hour
    | none =>
      match readClock? cs with
      | some (h, _, _) => Float.ofInt h
      | none => ((Number.read? (Text.trim cs)).map Number.truncate).getD 0
  match v with
  | .number x => if x.isFinite then Number.truncate x else ofText v.asText
  | v => ofText v.asText

def hour (v : Value) : Value := v.map fun v => .number (hourIn v)

/-- A clock time in hours, or zero. -/
def timeValue (v : Value) : Value :=
  v.map fun v => .number (((readClock? v.asText).map fun (h, m, s) => hours h m s).getD 0)

/-- Four digits that stand alone and start with 19 or 20. -/
def yearAt? (before : Option Char) : List Char → Option (List Char)
  | a :: b :: c :: d :: rest =>
    if !before.any Text.isWordChar && ((a = '1' && b = '9') || (a = '2' && b = '0')) &&
        Text.isDecimalDigit c && Text.isDecimalDigit d && !rest.head?.any Text.isWordChar then
      some [a, b, c, d]
    else none
  | _ => none

/-- The first year in a text. -/
def findYear? (before : Option Char) : List Char → Option (List Char)
  | [] => none
  | c :: rest => (yearAt? before (c :: rest)).orElse fun _ => findYear? (some c) rest

/-- The year of a date, or of a text that mentions one. -/
def yearIn (v : Value) : Float :=
  match Calendar.read? v.asText with
  | some m => Float.ofInt m.date.year
  | none => ((findYear? none v.asText).bind Number.read?).getD 0

def year (v : Value) : Value := v.map fun v => .number (yearIn v)

/-- The month of a date, or zero. -/
def month (v : Value) : Value :=
  v.map fun v => .ofNat (((Calendar.read? v.asText).map (·.date.month)).getD 0)

def today (ctx : Context) : Value := .text (.ofList ctx.today.iso)

end SheetBoard.Script.Library
