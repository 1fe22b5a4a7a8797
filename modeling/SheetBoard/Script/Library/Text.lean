import SheetBoard.Format.Text
import SheetBoard.Script.Context

/-! Functions on text. Those with a text argument apply to every item of an array. -/

namespace SheetBoard.Script.Library

/-- The number of characters that an argument asks for. -/
def countArgument (args : List Value) (i : Nat) (default : Int) : Nat :=
  (wholeArgument args i default).toNat

/-- The last `n` characters. -/
def takeEnd (n : Nat) (cs : List Char) : List Char := cs.drop (cs.length - n)

/-- `n` characters from a place on, counted from one. -/
def takeFrom (place n : Nat) (cs : List Char) : List Char :=
  match place with
  | 0 => []
  | place + 1 => (cs.drop place).take n

def left (args : List Value) : Value :=
  (argument args 0).map fun v => .text (.ofList (v.asText.take (countArgument args 1 1)))

def right (args : List Value) : Value :=
  (argument args 0).map fun v => .text (.ofList (takeEnd (countArgument args 1 1) v.asText))

def mid (args : List Value) : Value :=
  (argument args 0).map fun v =>
    .text (.ofList (takeFrom (countArgument args 1 1) (countArgument args 2 0) v.asText))

/-- The number that a text spells, or zero. -/
def value (args : List Value) : Value :=
  (argument args 0).map fun v => .number ((v.toFloat?.filter (!·.isNaN)).getD 0)

def isNumber (args : List Value) : Value :=
  (argument args 0).map fun v => .boolean (v.toFloat?.any (!·.isNaN))

/-- The first place at which a text contains another, counted from zero. -/
def findText (part : List Char) : List Char → Option Nat
  | [] => if part.isEmpty then some 0 else none
  | c :: rest =>
    if part.isPrefixOf (c :: rest) then some 0 else (findText part rest).map (· + 1)

/-- The place of a part in a text, counted from one, from a start on. Case does not matter: both are
searched in lower case. -/
def searchPlace? (part within : Value) (start : Int) : Option Nat :=
  let within := Text.lower within.asText
  let skip := start - 1
  if 0 ≤ skip ∧ skip ≤ within.length then
    (findText (Text.lower part.asText) (within.drop skip.toNat)).map (skip.toNat + · + 1)
  else none

/-- The places of a text within others, or `missing` where it is not found. -/
def searchWith (missing : Value) (args : List Value) : Value :=
  (argument args 1).map fun within =>
    ((searchPlace? (argument args 0) within (wholeArgument args 2 1)).map .ofNat).getD missing

/-- Not found is NaN. -/
def search (args : List Value) : Value := searchWith .nan args

/-- Not found is minus one. -/
def searchIndex (args : List Value) : Value := searchWith (.number (-1)) args

def formatted (args : List Value) : Value :=
  (argument args 0).map fun v => .text (.ofList (Format.text v (argument args 1).asText))

/-- The length of a text, or the number of items of an array. -/
def size (args : List Value) : Value :=
  match argument args 0 with
  | .array items => .ofNat items.length
  | v => .ofNat v.asText.length

def toText (args : List Value) : Value := .text (.ofList (argument args 0).asText)

end SheetBoard.Script.Library
