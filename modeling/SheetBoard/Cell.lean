import SheetBoard.Number.Layout
import SheetBoard.Number.Read
import SheetBoard.Text.Blank
import SheetBoard.Text.Case

/-! Cell values: how they are detected in raw text, displayed, compared and ordered. -/

namespace SheetBoard

/-- One value of a table. -/
inductive Cell where
  | empty
  | boolean (value : Bool)
  | number (value : Float)
  | text (value : String)
  deriving Repr, DecidableEq, Inhabited

namespace Number

/-- The order of two floats; none when one of them is NaN. -/
def order? (x y : Float) : Option Ordering :=
  if x < y then some .lt else if x == y then some .eq else if x > y then some .gt else none

/-- A number as a table shows it: whole numbers below `10 ^ 15` without a point, and zero without a
sign. -/
def display (x : Float) : String :=
  match exact x with
  | .finite negative m q =>
    if isWhole m q && wholePart m q < tenTo 15 then
      .ofList (signed (negative && wholePart m q ≠ 0) (digitsOf (wholePart m q)))
    else plain x
  | _ => plain x

end Number

namespace Cell

/-- Reads a raw field. Blanks around it do not count; a field that is blank is missing, the two
truth words are booleans in any case, and text that reads as a number other than NaN is one. -/
def detect (field : List Char) : Cell :=
  let trimmed := Text.trim field
  let lowered := String.ofList (Text.lower trimmed)
  if trimmed.isEmpty then .empty
  else if lowered = "true" then .boolean true
  else if lowered = "false" then .boolean false
  else
    match Number.read? trimmed with
    | some x => if x.isNaN then .text (.ofList trimmed) else .number x
    | none => .text (.ofList trimmed)

/-- The cell holds no value: it is empty or NaN. -/
def isMissing : Cell → Bool
  | .empty => true
  | .number x => x.isNaN
  | _ => false

/-- The numeric reading of a cell. -/
def toFloat? : Cell → Option Float
  | .empty => none
  | .boolean b => some (if b then 1 else 0)
  | .number x => some x
  | .text s => Number.read? (Text.trim s.toList)

def asText? : Cell → Option String
  | .text s => some s
  | _ => none

def kind : Cell → String
  | .empty => "empty"
  | .boolean _ => "boolean"
  | .number _ => "number"
  | .text _ => "string"

/-- The text of a cell in a written table. -/
def display : Cell → String
  | .empty => ""
  | .boolean b => if b then "TRUE" else "FALSE"
  | .number x => Number.display x
  | .text s => s

/-- The same value: numbers are compared as numbers, so the two zeros agree and NaN differs from
itself. -/
def same : Cell → Cell → Bool
  | .empty, .empty => true
  | .boolean a, .boolean b => a == b
  | .number x, .number y => x == y
  | .text s, .text t => s == t
  | _, _ => false

/-- Equality as filters see it: numeric text agrees with its number. -/
def agrees (a b : Cell) : Bool :=
  match a, b with
  | .number _, .text _ | .text _, .number _ =>
    match a.toFloat?, b.toFloat? with
    | some x, some y => x == y
    | _, _ => false
  | _, _ => a.same b

/-- The place of a kind of cell in the sorting order. -/
def rank : Cell → Nat
  | .empty => 0
  | .boolean _ => 1
  | .number _ => 2
  | .text _ => 3

/-- The sorting order: missing cells, booleans, numbers, texts. NaN ties with every number. -/
def order : Cell → Cell → Ordering
  | .number x, .number y => (Number.order? x y).getD .eq
  | .text s, .text t => compare s t
  | .boolean a, .boolean b => compare a b
  | a, b => compare a.rank b.rank

end Cell

end SheetBoard
