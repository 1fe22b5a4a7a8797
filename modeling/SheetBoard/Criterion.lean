import SheetBoard.Script.Value
import SheetBoard.Table.Filter
import SheetBoard.Text.Glob

/-! Criteria on values: comparisons with an operand, and wildcard texts. -/

namespace SheetBoard

open SheetBoard.Script (Value)

inductive Comparison where
  | equal | notEqual | less | lessEqual | greater | greaterEqual
  deriving Repr, DecidableEq

namespace Comparison

/-- The comparison that a text spells; equality and inequality have two spellings. -/
def ofText? (cs : List Char) : Option Comparison :=
  match cs with
  | ['='] | ['=', '='] => some .equal
  | ['!', '='] | ['<', '>'] => some .notEqual
  | ['<'] => some .less
  | ['<', '='] => some .lessEqual
  | ['>'] => some .greater
  | ['>', '='] => some .greaterEqual
  | _ => none

def spelling : Comparison → String
  | .equal => "="
  | .notEqual => "!="
  | .less => "<"
  | .lessEqual => "<="
  | .greater => ">"
  | .greaterEqual => ">="

/-- The comparison holds between a value and an operand in this order. -/
def holds : Comparison → Ordering → Bool
  | .equal, o => o == .eq
  | .notEqual, o => o != .eq
  | .less, o => o == .lt
  | .lessEqual, o => o != .gt
  | .greater, o => o == .gt
  | .greaterEqual, o => o != .lt

end Comparison

/-- What values are compared with. -/
inductive Operand where
  | number (value : Float)
  | boolean (value : Bool)
  | text (value : String)
  deriving Repr, DecidableEq

namespace Operand

/-- Reads an operand: a truth word, a number, or else text. -/
def ofText (cs : List Char) : Operand :=
  let trimmed := String.ofList (Text.trim cs)
  if Text.equalIgnoringCase trimmed "true" then .boolean true
  else if Text.equalIgnoringCase trimmed "false" then .boolean false
  else
    match Number.read? (Text.trim cs) with
    | some x => .number x
    | none => .text trimmed

/-- The truth value that a value stands for. -/
def truth? : Value → Option Bool
  | .boolean b => some b
  | .text s =>
    if Text.equalIgnoringCase s "true" then some true
    else if Text.equalIgnoringCase s "false" then some false
    else none
  | _ => none

/-- Compares a value with the operand. A value that cannot be compared with it is only unequal to
it, and every number counts as less than NaN. -/
def compare (operand : Operand) (op : Comparison) (v : Value) : Bool :=
  match operand with
  | .number x =>
    match v.toFloat? with
    | some y => if y.isNaN then op == .notEqual else op.holds ((Number.order? y x).getD .lt)
    | none => op == .notEqual
  | .boolean b =>
    match op, truth? v with
    | .equal, some t => t == b
    | .notEqual, some t => t != b
    | .notEqual, none => true
    | _, _ => false
  | .text s =>
    if v.holdsNothing then op == .notEqual
    else
      op.holds (Ord.compare (String.ofList (Text.lower v.asText))
        (String.ofList (Text.lower s.toList)))

end Operand

/-- A condition on one value. -/
inductive Criterion where
  | compares (op : Comparison) (operand : Operand)
  /-- A wildcard pattern in lower case. -/
  | like (pattern : List Char)
  /-- Matches what holds nothing. -/
  | blank
  deriving Repr

namespace Criterion

def isOperatorChar (c : Char) : Bool := c = '>' || c = '<' || c = '=' || c = '!'

/-- A comparison in front of an operand on one line. -/
def comparison? (cs : List Char) : Option (Comparison × Operand) := do
  let rest := cs.dropWhile isOperatorChar
  guard (!rest.contains '\n')
  let op ← Comparison.ofText? (cs.takeWhile isOperatorChar)
  return (op, .ofText rest)

/-- Reads a criterion from text: nothing, a comparison, a value to be equal to, or a pattern. -/
def ofText (cs : List Char) : Criterion :=
  let cs := Text.trim cs
  if cs.isEmpty then .blank
  else
    match comparison? cs with
    | some (op, operand) => .compares op operand
    | none =>
      match Operand.ofText cs with
      | .text s => .like (Text.lower s.toList)
      | operand => .compares .equal operand

def ofValue : Value → Criterion
  | .number x => .compares .equal (.number x)
  | .boolean b => .compares .equal (.boolean b)
  | .text s => .ofText s.toList
  | .null | .array _ => .blank

/-- A pattern without wildcards matches only itself. -/
def matchesPattern (pattern text : List Char) : Bool :=
  if pattern.contains '*' || pattern.contains '?' then Text.glob pattern text else pattern == text

def accepts (c : Criterion) (v : Value) : Bool :=
  match c with
  | .compares op operand => operand.compare op v
  | .like pattern => matchesPattern pattern (Text.lower v.asText)
  | .blank => v.holdsNothing

end Criterion

end SheetBoard
