import SheetBoard.Number.Rounded
import SheetBoard.Script.Context

/-! Functions on numbers, and choices between values. -/

namespace SheetBoard.Script.Library

/-- Rounds to a number of places, which may be negative, a half away from zero. -/
def round (v : Value) (places : Int) : Value :=
  let places := max (-15) (min 15 places)
  let factor := Number.powerOfTen places.natAbs
  v.map fun v =>
    .number (if 0 ≤ places then Number.round (v.toFloat * factor) / factor
      else Number.round (v.toFloat / factor) * factor)

def abs (v : Value) : Value := v.map fun v => .number v.toFloat.abs

/-- Rounds down; what is not a number gives zero. -/
def floor (v : Value) : Value :=
  v.map fun v => .number (if v.toFloat.isNaN then 0 else Number.floor v.toFloat)

def truncate (v : Value) : Value := v.map fun v => .number (Number.truncate v.toFloat)

/-- The argument whose place the first argument gives. -/
def choose (args : List Value) : Value :=
  let place := wholeArgument args 0 0
  if 1 ≤ place then argument args place.toNat else .null

/-- A choice by a condition, or item by item where the condition is an array. -/
def choice (condition yes no : Value) : Value :=
  match condition with
  | .array flags => .chooseItems flags yes no
  | condition => if condition.isTrue then yes else no

/-- All values are true, also those in arrays. -/
def allTrue (args : List Value) : Value := .boolean ((args.flatMap Value.items).all Value.isTrue)

/-- One of the values is true, also one in an array. -/
def anyTrue (args : List Value) : Value := .boolean ((args.flatMap Value.items).any Value.isTrue)

end SheetBoard.Script.Library
