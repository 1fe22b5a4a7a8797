import SheetBoard.Formula.Script
import SheetBoard.Proofs.Formula.Quoting
import SheetBoard.Proofs.Number.Numeral
import SheetBoard.Script.Parser

/-! Formulas as trees: how a tree is written, and the expression it stands for, either in one row or
over whole columns. -/

namespace SheetBoard.Formula

/-- ASCII letters, digits and underscores, of which the first is no digit. -/
structure IsName (cs : List Char) : Prop where
  start : cs.head?.any isNameStart = true
  all : ∀ c ∈ cs, isNameChar c = true

instance (cs : List Char) : Decidable (IsName cs) :=
  decidable_of_iff (cs.head?.any isNameStart = true ∧ ∀ c ∈ cs, isNameChar c = true)
    ⟨fun h => ⟨h.1, h.2⟩, fun h => ⟨h.start, h.all⟩⟩

structure Identifier where
  chars : List Char
  isName : IsName chars := by decide

/-- One or more capitals. -/
structure Capitals where
  chars : List Char
  ne_nil : chars ≠ [] := by decide
  all : ∀ c ∈ chars, isCapital c = true := by decide

/-- The binary operators of formulas. -/
inductive Operator where
  | add | subtract | multiply | divide | concat
  | equal | notEqual | less | lessEqual | greater | greaterEqual
  deriving Repr, DecidableEq

def Operator.text : Operator → List Char
  | .add => ['+']
  | .subtract => ['-']
  | .multiply => ['*']
  | .divide => ['/']
  | .concat => ['&']
  | .equal => ['=']
  | .notEqual => ['<', '>']
  | .less => ['<']
  | .lessEqual => ['<', '=']
  | .greater => ['>']
  | .greaterEqual => ['>', '=']

/-- Texts are joined by the addition of scripts. -/
def Operator.meaning : Operator → Script.BinaryOp
  | .add => .add
  | .subtract => .subtract
  | .multiply => .multiply
  | .divide => .divide
  | .concat => .add
  | .equal => .equal
  | .notEqual => .notEqual
  | .less => .less
  | .lessEqual => .lessEqual
  | .greater => .greater
  | .greaterEqual => .greaterEqual

/-- A reference to data: a cell such as `B3`, a range within one column such as `B2:B`, or the
header of a column. -/
inductive Ref where
  | cell (letters : Capitals) (row : Nat)
  | range (letters : Capitals) (first last : Option Nat)
  | header (name : String)

/-- The digits of a row number that may be left out. -/
def rowDigits (row : Option Nat) : List Char := (row.map Number.digitsOf).getD []

def Ref.text : Ref → List Char
  | .cell letters row => letters.chars ++ Number.digitsOf row
  | .range letters first last =>
    letters.chars ++ rowDigits first ++ ':' :: (letters.chars ++ rowDigits last)
  | .header name => name.toList

inductive Tree where
  | number (value : Number.Numeral)
  | text (value : String)
  | boolean (value : Bool)
  | reference (ref : Ref)
  | negate (operand : Tree)
  | binary (op : Operator) (left right : Tree)
  | call (name : Identifier) (arguments : List Tree)
  /-- Parentheses that no operator asks for. -/
  | paren (inner : Tree)

namespace Tree

/-- A tree whose outermost form is an operator. It is put in parentheses where it is an operand. -/
def isOperator : Tree → Bool
  | negate _ => true
  | binary _ _ _ => true
  | _ => false

def parenthesised (cs : List Char) : List Char := '(' :: cs ++ [')']

/-- The text of an operand, which is put in parentheses if it is compound. -/
def operandText (compound : Bool) (cs : List Char) : List Char :=
  if compound then parenthesised cs else cs

/-- Induction with a hypothesis for each argument of a call. -/
@[elab_as_elim, induction_eliminator]
theorem induction {motive : Tree → Prop} (number : ∀ n, motive (number n))
    (text : ∀ s, motive (text s)) (boolean : ∀ b, motive (boolean b))
    (reference : ∀ r, motive (reference r)) (negate : ∀ e, motive e → motive (negate e))
    (binary : ∀ op l r, motive l → motive r → motive (binary op l r))
    (call : ∀ name arguments, (∀ a ∈ arguments, motive a) → motive (call name arguments))
    (paren : ∀ e, motive e → motive (paren e)) : ∀ e, motive e
  | .number n => number n
  | .text s => text s
  | .boolean b => boolean b
  | .reference r => reference r
  | .negate e => negate e (induction number text boolean reference negate binary call paren e)
  | .binary op l r =>
    binary op l r (induction number text boolean reference negate binary call paren l)
      (induction number text boolean reference negate binary call paren r)
  | .call name arguments =>
    call name arguments fun a _ =>
      induction number text boolean reference negate binary call paren a
  | .paren e => paren e (induction number text boolean reference negate binary call paren e)

/-- The text of a tree, without blanks. -/
def render : Tree → List Char
  | number n => n.text
  | text s => quote s.toList
  | boolean b => if b then "TRUE".toList else "FALSE".toList
  | reference r => r.text
  | negate e => '-' :: operandText e.isOperator e.render
  | binary op l r =>
    operandText l.isOperator l.render ++ op.text ++ operandText r.isOperator r.render
  | call name arguments =>
    name.chars ++ parenthesised ([','].intercalate (arguments.map fun a => a.render))
  | paren e => parenthesised e.render

/-- Every reference satisfies `reference`, and every call, with its arguments, satisfies `call`. -/
def All (reference : Ref → Prop) (call : Identifier → List Tree → Prop) : Tree → Prop
  | number _ => True
  | text _ => True
  | boolean _ => True
  | .reference r => reference r
  | negate e => e.All reference call
  | binary _ l r => l.All reference call ∧ r.All reference call
  | .call name arguments => call name arguments ∧ ∀ a ∈ arguments, a.All reference call
  | paren e => e.All reference call

/-- The expression of a tree, given what references and calls stand for. -/
def compile (reference : Ref → Script.Expr)
    (call : Identifier → List Script.Expr → Script.Expr) : Tree → Script.Expr
  | number n => .number n.value
  | text s => .text s
  | boolean b => .boolean b
  | .reference r => reference r
  | negate e => .unary .negate (e.compile reference call)
  | binary op l r => .binary op.meaning (l.compile reference call) (r.compile reference call)
  | .call name arguments => call name (arguments.map fun a => a.compile reference call)
  | paren e => e.compile reference call

end Tree

/-! ### In one row -/

/-- Calls that become statements of a script. -/
inductive Keyword where
  | choice | conjunction | disjunction
  deriving Repr, DecidableEq

def Keyword.spelling : Keyword → List Char
  | .choice => "IF".toList
  | .conjunction => "AND".toList
  | .disjunction => "OR".toList

/-- The number of arguments with which the call becomes a statement. -/
def Keyword.Admits : Keyword → Nat → Prop
  | .choice, n => n = 3
  | _, n => 2 ≤ n

/-- The statement that a call becomes, whatever the case of its letters. -/
def keyword? (name : List Char) : Option Keyword :=
  [Keyword.choice, .conjunction, .disjunction].find? (name.map Char.toUpper = ·.spelling)

/-- The number that a literal gives. -/
def numeralExpr (digits : List Char) : Script.Expr :=
  .number ((Number.read? digits).getD (0.0 / 0.0))

/-- The expression of a cell's literal: the sign of a number is an operator. -/
def cellExpr (c : Cell) : Script.Expr :=
  if c.isMissing then numeralExpr ['0']
  else
    match c with
    | .empty => numeralExpr ['0']
    | .boolean b => .boolean b
    | .number x =>
      match (Number.display x).toList with
      | '-' :: digits => .unary .negate (numeralExpr digits)
      | digits => numeralExpr digits
    | .text s => .text s

/-- What a reference stands for in a row: a cell, or the letters themselves where they name no
column. Row numbers do not matter. -/
def rowReference (row : Row) : Ref → Script.Expr
  | .cell letters _ =>
    ((row.getByLetters? letters.chars).map cellExpr).getD (.text (.ofList letters.chars))
  | .range letters _ _ =>
    ((row.getByLetters? letters.chars).map cellExpr).getD (.text (.ofList letters.chars))
  | .header name => ((row.get? name).map cellExpr).getD (.text name)

/-- What a call stands for in a row. -/
def rowCall (name : Identifier) (arguments : List Script.Expr) : Script.Expr :=
  match keyword? name.chars, arguments with
  | some .choice, [condition, yes, no] => .conditional condition yes no
  | some .conjunction, first :: more => more.foldl (.binary .and) first
  | some .disjunction, first :: more => more.foldl (.binary .or) first
  | _, _ => .call (.ofList name.chars) arguments

/-- The expression of a tree in a row. -/
def Tree.compileRow (row : Row) (e : Tree) : Script.Expr := e.compile (rowReference row) rowCall

/-- The words that scripts use between expressions, other than those of statements. -/
def isDialectWord (name : List Char) : Bool := name = "not".toList || name = "else".toList

/-- A tree that can be compiled in a row: its headers are columns, choices have three arguments and
chains at least two. -/
def Tree.IsRowFormula (schema : Schema) : Tree → Prop :=
  All (fun | .header name => name ∈ schema.names | _ => True)
    (fun name arguments =>
      match keyword? name.chars with
      | some keyword => keyword.Admits arguments.length
      | none => isDialectWord name.chars = false)

/-! ### Over whole columns -/

/-- The name of the column with the given letters, or the letters themselves. -/
def columnName (schema : Schema) (letters : List Char) : String :=
  (schema.nameAt? letters).getD (.ofList letters)

def natExpr (n : Nat) : Script.Expr := .number (Number.ofDecimal n 0)

/-- What a reference stands for over whole columns. Data rows are counted from one less than
spreadsheet rows, and a range from row 1 on has no limit. -/
def columnReference (schema : Schema) : Ref → Script.Expr
  | .cell letters row =>
    .call "getCellValue" [.text (columnName schema letters.chars), natExpr (row - 1)]
  | .range letters first _ =>
    .call "getColumnData"
      (.text (columnName schema letters.chars) ::
        ((first.filter (· ≠ 1)).map natExpr).toList)
  | .header name => .call "getColumnData" [.text name]

/-- Calls go by the name that the function table gives them. -/
def columnCall (functions : FunctionTable) (name : Identifier) (arguments : List Script.Expr) :
    Script.Expr :=
  .call ((functions.get? (.ofList name.chars)).getD (.ofList name.chars)) arguments

/-- The expression of a tree over whole columns. -/
def Tree.compileColumns (functions : FunctionTable) (schema : Schema) (e : Tree) : Script.Expr :=
  e.compile (columnReference schema) (columnCall functions)

/-- Capitals and digits around a colon, such as `B2:B`. -/
def IsRangeText (cs : List Char) : Prop :=
  ∃ first digits letters, isReference first = true ∧ (∀ c ∈ digits, Text.isDecimalDigit c = true) ∧
    (∀ c ∈ letters, isCapital c = true) ∧ cs = first ++ ':' :: (digits ++ letters)

/-- The argument of the average growth of `y` to `x`. -/
def growthText (x y z : List Char) : List Char :=
  '(' :: '(' :: (x ++ '-' :: (y ++ ')' :: '/' :: (z ++ [')', '*', '1', '0', '0'])))

/-- The average growth, which has a script form of its own. Its word may end a longer name. -/
def IsGrowth (name : List Char) (arguments : List (List Char)) : Prop :=
  "AVERAGE".toList <:+ name.map Char.toUpper ∧
    ∃ x y z, IsRangeText x ∧ IsRangeText y ∧ IsRangeText z ∧ arguments = [growthText x y z]

/-- A tree that can be compiled over whole columns: its headers are columns, its cells have row
numbers of 64 bits, and no call is an average growth. -/
def Tree.IsColumnFormula (schema : Schema) : Tree → Prop :=
  All (fun
    | .header name => name ∈ schema.names
    | .cell _ row => 1 ≤ row ∧ row < Number.halfWord
    | .range _ _ _ => True)
    (fun name arguments =>
      isDialectWord name.chars = false ∧ ¬IsGrowth name.chars (arguments.map Tree.render))

/-! ### Schemas and rows -/

/-- The headers are identifiers that are neither reserved words nor spelled like a reference. -/
def PlainHeaders (schema : Schema) : Prop :=
  ∀ name ∈ schema.names,
    IsName name.toList ∧ name ∉ reservedWords ∧ isReference name.toList = false

end SheetBoard.Formula

namespace SheetBoard

/-- The number is neither infinite nor NaN. -/
def Number.IsFinite (x : Float) : Prop := ∃ negative m q, exact x = .finite negative m q

/-- The row has a cell for each column, and its numbers are finite. -/
structure Row.Complete (r : Row) : Prop where
  width : r.cells.length = r.schema.size
  finite : ∀ x, Cell.number x ∈ r.cells → Number.IsFinite x

end SheetBoard
