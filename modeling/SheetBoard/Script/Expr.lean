/-! The expressions of a script. -/

namespace SheetBoard.Script

inductive BinaryOp where
  | add | subtract | multiply | divide | modulo
  | concat
  | equal | notEqual | less | lessEqual | greater | greaterEqual
  | and | or
  deriving Repr, DecidableEq

inductive UnaryOp where
  | negate | plus | not
  deriving Repr, DecidableEq

inductive Expr where
  | number (value : Float)
  | text (value : String)
  | boolean (value : Bool)
  | null
  | array (items : List Expr)
  /-- A bare name that is neither a literal nor called. -/
  | name (name : String)
  | binary (op : BinaryOp) (left right : Expr)
  | unary (op : UnaryOp) (operand : Expr)
  | conditional (condition yes no : Expr)
  | call (function : String) (arguments : List Expr)
  deriving Repr, Inhabited

end SheetBoard.Script
