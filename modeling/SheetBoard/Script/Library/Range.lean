import SheetBoard.Criterion
import SheetBoard.Script.Context

/-! Functions on ranges: totals, conditional totals, look-ups, and the data of columns. -/

namespace SheetBoard.Script.Library

/-- All arguments, with arrays and arrays in them opened. -/
def allValues (args : List Value) : List Value := (args.flatMap Value.items).flatMap Value.items

/-- A number or numeric text; booleans do not count. -/
def countedNumber? : Value → Option Float
  | .number x => if x.isNaN then none else some x
  | .text s => (Number.read? (Text.trim s.toList)).filter (!·.isNaN)
  | _ => none

def countedNumbers (args : List Value) : List Float := (allValues args).filterMap countedNumber?

/-- The sum of numbers. The empty sum is negative zero, which adds nothing to any number. -/
def total (xs : List Float) : Float := xs.foldl (· + ·) (-0.0)

def sum (args : List Value) : Value := .number (total (countedNumbers args))

def average (args : List Value) : Value :=
  let xs := countedNumbers args
  if xs.isEmpty then .number 0 else .number (xs.foldl (· + ·) 0 / Float.ofNat xs.length)

def count (args : List Value) : Value := .ofNat (countedNumbers args).length

def countFilled (args : List Value) : Value := .ofNat ((allValues args).countP (!·.holdsNothing))

/-- The number that beats all others, the first one on a tie; zero if there are none. -/
def best (beats : Float → Float → Bool) : List Float → Float
  | [] => 0
  | x :: xs => xs.foldl (fun held y => if beats y held then y else held) x

def greatest (args : List Value) : Value := .number (best (fun x y => x > y) (countedNumbers args))

def least (args : List Value) : Value := .number (best (fun x y => x < y) (countedNumbers args))

/-- The sum over a second range, or over the same one, where the first one meets a criterion. -/
def sumIf (range criterion : Value) (addends : Option Value) : Value :=
  let criterion := Criterion.ofValue criterion
  let pairs := range.items.zip (addends.getD range).items
  let chosen := pairs.filter fun (v, _) => criterion.accepts v
  .number (total ((chosen.filterMap fun (_, addend) => addend.toFloat?).filter (!·.isNaN)))

def countIf (range criterion : Value) : Value :=
  .ofNat (range.items.countP (Criterion.ofValue criterion).accepts)

/-- Pairs of a range and its criterion. A range cannot do without one. -/
def criterionPairs : List Value → Except ScriptError (List (List Value × Criterion))
  | [] => .ok []
  | [_] => .error (.argumentCount "COUNTIFS" (.atLeast 2) 1)
  | range :: criterion :: rest =>
    (criterionPairs rest).map ((range.items, .ofValue criterion) :: ·)

/-- The places at which every range meets its criterion. A range has no place past its end. -/
def countPlaces (pairs : List (List Value × Criterion)) : Nat :=
  let places := (pairs.head?.map (·.1.length)).getD 0
  (List.range places).countP fun i =>
    pairs.all fun (range, criterion) => (range[i]?).any criterion.accepts

def countIfs (args : List Value) : Except ScriptError Value :=
  if args.length % 2 ≠ 0 then .error (.argumentCount "COUNTIFS" .pairs args.length)
  else (criterionPairs args).map fun pairs => .ofNat (countPlaces pairs)

/-- The place of a kind of value in the order of distinct values. -/
def sortRank : Value → Nat
  | .number _ => 0
  | .text _ => 1
  | _ => 2

/-- Numbers first, then texts, then all else. -/
def sortOrder (a b : Value) : Ordering :=
  match a, b with
  | .number _, .number _ | .text _, .text _ => (a.order? b).getD .eq
  | _, _ => compare (sortRank a) (sortRank b)

/-- The first of each group of values that are the same, without those that hold nothing. -/
def distinctValues (vs : List Value) : List Value :=
  vs.foldl (fun found v =>
    if v.holdsNothing || found.any (·.same v) then found else found ++ [v]) []

/-- The different values of an array, sorted if the flag is true. -/
def unique (v : Value) (sorted : Value) : Value :=
  let values := distinctValues v.items
  if sorted.isTrue then .array (values.mergeSort fun a b => (sortOrder a b).isLE)
  else .array values

/-- The item in a place, counted from one. -/
def index (v : Value) (place : Int) : Value :=
  if 1 ≤ place then v.items.getD (place.toNat - 1) .null else .null

/-- The place of the first equal item, counted from one, or minus one. -/
def lookup (wanted range : Value) : Value :=
  match range.items.findIdx? fun v => wanted.order? v == some .eq with
  | some i => .ofNat (i + 1)
  | none => .number (-1)

/-- The growth from one value to another in percent; zero where there is nothing to compare with. -/
def growthRate (current previous : Value) : Value :=
  let c := current.toFloat
  let p := previous.toFloat
  if p == 0 || p.isNaN || c.isNaN then .number 0 else .number ((c - p) / p * 100)

def growth (current previous : Value) : Value :=
  .array (List.zipWith growthRate current.items previous.items)

/-- A column from a spreadsheet row on. -/
def columnFrom (ctx : Context) (column : Value) (start : Int) : Value :=
  ctx.columnFrom (.ofList column.asText) start.toNat

/-- A column's value in a row counted from the header. -/
def cellAt (ctx : Context) (column : Value) (row : Int) : Value :=
  if 0 ≤ row then ctx.cellAt (.ofList column.asText) row.toNat else .null

end SheetBoard.Script.Library
