import SheetBoard.Cell

/-! The values that scripts compute with, and how operations spread over arrays. -/

namespace SheetBoard.Script

inductive Value where
  | null
  | boolean (value : Bool)
  | number (value : Float)
  | text (value : String)
  | array (items : List Value)
  deriving Repr, Inhabited

namespace Value

def ofCell : Cell → Value
  | .empty => .null
  | .boolean b => .boolean b
  | .number x => .number x
  | .text s => .text s

def nan : Value := .number (0.0 / 0.0)

def ofNat (n : Nat) : Value := .number (Float.ofNat n)

/-- The numeric reading of a value. -/
def toFloat? : Value → Option Float
  | .number x => some x
  | .boolean b => some (if b then 1 else 0)
  | .text s => Number.read? (Text.trim s.toList)
  | .null | .array _ => none

/-- The number that arithmetic uses: nothing and blank text are zero, and what has no reading is
NaN. -/
def toFloat : Value → Float
  | .null => 0
  | .text s =>
    if (Text.trim s.toList).isEmpty then 0
    else (Number.read? (Text.trim s.toList)).getD (0.0 / 0.0)
  | v => v.toFloat?.getD (0.0 / 0.0)

mutual

/-- The text of a value; the items of an array have commas between them. -/
def asText : Value → List Char
  | .null => []
  | .boolean b => if b then "true".toList else "false".toList
  | .number x => (Number.display x).toList
  | .text s => s.toList
  | .array items => itemsText items

def itemsText : List Value → List Char
  | [] => []
  | [v] => asText v
  | v :: w :: rest => asText v ++ ',' :: itemsText (w :: rest)

end

/-- What conditions take for true. -/
def isTrue : Value → Bool
  | .null => false
  | .boolean b => b
  | .number x => x != 0 && !x.isNaN
  | .text s => !s.isEmpty
  | .array items => !items.isEmpty

/-- Nothing, NaN or the empty text. -/
def holdsNothing : Value → Bool
  | .null => true
  | .number x => x.isNaN
  | .text s => s.isEmpty
  | _ => false

/-- The items of an array; any other value is its own only item. -/
def items : Value → List Value
  | .array items => items
  | v => [v]

/-- The cell that holds a value. An array is stored as its text. -/
def toCell : Value → Cell
  | .null => .empty
  | .boolean b => .boolean b
  | .number x => if x.isNaN then .empty else .number x
  | .text s => .text s
  | .array items => .text (.ofList (itemsText items))

mutual

/-- The same value. NaN differs from itself, and the two zeros agree. -/
def same : Value → Value → Bool
  | .null, .null => true
  | .boolean a, .boolean b => a == b
  | .number x, .number y => x == y
  | .text s, .text t => s == t
  | .array vs, .array ws => sameItems vs ws
  | _, _ => false

def sameItems : List Value → List Value → Bool
  | [], [] => true
  | v :: vs, w :: ws => same v w && sameItems vs ws
  | _, _ => false

end

/-- The order of two values, if they can be compared: two texts as texts, and otherwise as numbers.
Nothing is equal to itself only, and arrays are not compared. -/
def order? : Value → Value → Option Ordering
  | .null, .null => some .eq
  | .null, _ => none
  | _, .null => none
  | .text s, .text t => some (compare s t)
  | .array _, _ => none
  | _, .array _ => none
  | v, w =>
    match v.toFloat?, w.toFloat? with
    | some x, some y => Number.order? x y
    | _, _ => none

mutual

/-- Applies a function to a value, or to each item of an array at any depth. -/
def map (f : Value → Value) : Value → Value
  | .array items => .array (mapItems f items)
  | v => f v

def mapItems (f : Value → Value) : List Value → List Value
  | [] => []
  | v :: rest => map f v :: mapItems f rest

end

mutual

/-- Combines two values item by item. Two arrays pair up to the end of the shorter one, and a single
value goes with every item. -/
def combine (f : Value → Value → Value) : Value → Value → Value
  | .array items, w => .array (combineItems f items w)
  | v, w => w.map (f v)

def combineItems (f : Value → Value → Value) : List Value → Value → List Value
  | [], _ => []
  | _ :: _, .array [] => []
  | v :: vs, .array (w :: ws) => combine f v w :: combineItems f vs (.array ws)
  | v :: vs, w => combine f v w :: combineItems f vs w

end

/-- The item of a branch for one row: arrays have nothing past their end. -/
def itemAt (branch : Value) (i : Nat) : Value :=
  match branch with
  | .array items => items.getD i .null
  | v => v

/-- Chooses between two branches item by item. -/
def chooseItems (flags : List Value) (yes no : Value) : Value :=
  .array (flags.zipIdx.map fun (flag, i) => if flag.isTrue then itemAt yes i else itemAt no i)

end Value

end SheetBoard.Script
