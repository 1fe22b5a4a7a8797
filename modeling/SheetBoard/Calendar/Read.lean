import SheetBoard.Calendar.Date
import SheetBoard.Number.Read
import SheetBoard.Text.Blank

/-! Reading dates in the forms that tables use. -/

namespace SheetBoard.Calendar

/-- One piece of a date form. -/
inductive Field where
  | year | month | day | hour | minute | second
  | mark (char : Char)
  /-- Any number of blanks, also none. -/
  | blanks
  deriving Repr, DecidableEq

/-- Reads one to `width` digits. -/
def readDigits? (width : Nat) (cs : List Char) : Option (Nat × List Char) :=
  let digits := (cs.takeWhile Number.isDigit).take width
  if digits.isEmpty then none else some (Number.natOfDigits digits, cs.drop digits.length)

/-- A year has up to four digits, or any number of digits after a sign. -/
def readYear? : List Char → Option (Int × List Char)
  | '-' :: cs => (readDigits? cs.length cs).map fun (n, rest) => (-(n : Int), rest)
  | '+' :: cs => (readDigits? cs.length cs).map fun (n, rest) => ((n : Int), rest)
  | cs => (readDigits? 4 cs).map fun (n, rest) => ((n : Int), rest)

/-- Reads one piece into a moment. Blanks before a number do not count. -/
def Field.read? (m : Moment) (field : Field) (cs : List Char) : Option (Moment × List Char) :=
  let number (limit : Nat) (store : Nat → Moment) :=
    (readDigits? 2 (Text.trimStart cs)).bind fun (n, rest) =>
      if n ≤ limit then some (store n, rest) else none
  match field with
  | .year => (readYear? (Text.trimStart cs)).map fun (y, rest) => ({ m with date.year := y }, rest)
  | .month => number 12 fun n => { m with date.month := n }
  | .day => number 31 fun n => { m with date.day := n }
  | .hour => number 23 fun n => { m with hour := n }
  | .minute => number 59 fun n => { m with minute := n }
  | .second => number 60 fun n =>
      if n = 60 then { m with second := 59, nanosecond := 1000000000 } else { m with second := n }
  | .mark c =>
    match cs with
    | d :: rest => if d = c then some (m, rest) else none
    | [] => none
  | .blanks => some (m, Text.trimStart cs)

def midnight : Moment := ⟨⟨0, 0, 0⟩, 0, 0, 0, 0⟩

/-- Reads the whole text in one form. -/
def readForm? (form : List Field) (cs : List Char) : Option Moment := do
  let (m, rest) ← form.foldlM (fun (m, cs) field => field.read? m cs) (midnight, cs)
  guard (rest.isEmpty && m.date.isValid)
  return m

/-- A date with one mark between its pieces. -/
def marked (char : Char) (a b c : Field) : List Field := [a, .mark char, b, .mark char, c]

def clock : List Field := [.hour, .mark ':', .minute, .mark ':', .second]

/-- The forms that are tried, in order. Of two readings of a date with slashes or dots, the one with
the month in front comes first. -/
def forms : List (List Field) := [
  marked '-' .year .month .day,
  marked '/' .month .day .year,
  marked '/' .day .month .year,
  marked '/' .year .month .day,
  marked '-' .day .month .year,
  marked '.' .year .month .day,
  marked '.' .month .day .year,
  marked '.' .day .month .year,
  marked '-' .year .month .day ++ .blanks :: clock,
  marked '/' .month .day .year ++ .blanks :: clock,
  marked '/' .day .month .year ++ .blanks :: clock,
  marked '-' .year .month .day ++ .mark 'T' :: clock,
  marked '-' .year .month .day ++ [.blanks, .hour, .mark ':', .minute]]

/-- Reads a date, with or without a time of day. -/
def read? (cs : List Char) : Option Moment :=
  let cs := Text.trim cs
  forms.findSome? (readForm? · cs)

end SheetBoard.Calendar
