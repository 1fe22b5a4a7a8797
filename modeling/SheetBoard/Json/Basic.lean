import SheetBoard.Association
import SheetBoard.Number.Layout

/-! Documents of the JSON format, and their text. -/

namespace SheetBoard

/-- A number of a document: a whole number of 64 bits, or a float. -/
inductive Json.Numeral where
  | whole (value : Int)
  | real (value : Float)
  deriving Repr, DecidableEq

inductive Json where
  | null
  | boolean (value : Bool)
  | number (value : Json.Numeral)
  | text (value : String)
  | array (items : List Json)
  | object (fields : List (String × Json))
  /-- A number past all floats, or a text with half a character: well formed, but without a value.
  -/
  | unusable
  deriving Repr, Inhabited

namespace Json

/-- A character within quotes. Only quotes, backslashes and controls are escaped. -/
def escapeChar (c : Char) : List Char :=
  if c = '"' then ['\\', '"']
  else if c = '\\' then ['\\', '\\']
  else if c = '\n' then ['\\', 'n']
  else if c = '\r' then ['\\', 'r']
  else if c = '\t' then ['\\', 't']
  else if c.toNat = 8 then ['\\', 'b']
  else if c.toNat = 12 then ['\\', 'f']
  else if c.toNat < 32 then
    let digits := Nat.toDigits 16 c.toNat
    ['\\', 'u'] ++ List.replicate (4 - digits.length) '0' ++ digits
  else [c]

def quoted (s : String) : List Char := '"' :: s.toList.flatMap escapeChar ++ ['"']

/-- Numbers that are not finite are written as null. -/
def Numeral.write : Numeral → List Char
  | .whole i => Number.signed (i < 0) (Number.digitsOf i.natAbs)
  | .real x => if x.isFinite then Number.write .document x else "null".toList

/-- The text of anything but an array or an object. -/
def writeScalar : Json → List Char
  | .boolean b => if b then "true".toList else "false".toList
  | .number n => n.write
  | .text s => quoted s
  | _ => "null".toList

mutual

/-- The text without blanks. -/
def compact : Json → List Char
  | .array items => '[' :: compactItems items ++ [']']
  | .object fields => '\x7b' :: compactFields fields ++ ['\x7d']
  | v => v.writeScalar

def compactItems : List Json → List Char
  | [] => []
  | [v] => compact v
  | v :: w :: rest => compact v ++ ',' :: compactItems (w :: rest)

def compactFields : List (String × Json) → List Char
  | [] => []
  | [(key, v)] => quoted key ++ ':' :: compact v
  | (key, v) :: field :: rest =>
    quoted key ++ ':' :: compact v ++ ',' :: compactFields (field :: rest)

end

/-- The start of a line at some depth. -/
def lineStart (depth : Nat) : List Char := '\n' :: List.replicate (2 * depth) ' '

mutual

/-- The text with one item on each line, two blanks for each level. -/
def pretty (depth : Nat) : Json → List Char
  | .array [] => ['[', ']']
  | .array items => '[' :: prettyItems (depth + 1) items ++ lineStart depth ++ [']']
  | .object [] => ['\x7b', '\x7d']
  | .object fields => '\x7b' :: prettyFields (depth + 1) fields ++ lineStart depth ++ ['\x7d']
  | v => v.writeScalar

def prettyItems (depth : Nat) : List Json → List Char
  | [] => []
  | [v] => lineStart depth ++ pretty depth v
  | v :: w :: rest => lineStart depth ++ pretty depth v ++ ',' :: prettyItems depth (w :: rest)

def prettyFields (depth : Nat) : List (String × Json) → List Char
  | [] => []
  | [(key, v)] => lineStart depth ++ quoted key ++ ':' :: ' ' :: pretty depth v
  | (key, v) :: field :: rest =>
    lineStart depth ++ quoted key ++ ':' :: ' ' :: pretty depth v ++
      ',' :: prettyFields depth (field :: rest)

end

mutual

/-- The number of arrays and objects around the innermost value. -/
def depth : Json → Nat
  | .array items => depthItems items + 1
  | .object fields => depthFields fields + 1
  | _ => 0

def depthItems : List Json → Nat
  | [] => 0
  | v :: rest => max (depth v) (depthItems rest)

def depthFields : List (String × Json) → Nat
  | [] => 0
  | (_, v) :: rest => max (depth v) (depthFields rest)

end

mutual

/-- Every part has a value. -/
def isUsable : Json → Bool
  | .array items => isUsableItems items
  | .object fields => isUsableFields fields
  | .unusable => false
  | _ => true

def isUsableItems : List Json → Bool
  | [] => true
  | v :: rest => isUsable v && isUsableItems rest

def isUsableFields : List (String × Json) → Bool
  | [] => true
  | (_, v) :: rest => isUsable v && isUsableFields rest

end

mutual

/-- The same document with the fields of its objects sorted by key, the last one of each key. -/
def sorted : Json → Json
  | .array items => .array (sortedItems items)
  | .object fields => .object (sortedFields fields [])
  | v => v

def sortedItems : List Json → List Json
  | [] => []
  | v :: rest => sorted v :: sortedItems rest

def sortedFields : List (String × Json) → List (String × Json) → List (String × Json)
  | [], done => done
  | (key, v) :: rest, done => sortedFields rest (Association.insert key (sorted v) done)

end

end Json

end SheetBoard
