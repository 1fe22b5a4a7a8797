import SheetBoard.Script.Token

/-! Why a script cannot be read or evaluated, and the wording of each cause. -/

namespace SheetBoard.Script

/-- Why a script cannot be read. A missing token stands for the end of the script. -/
inductive ParseError where
  /-- The expression is complete, and a token follows. -/
  | trailing (token : Token)
  | expected (wanted : Token) (found : Option Token)
  | expectedElse (found : Option Token)
  /-- No expression starts here. -/
  | unexpected (found : Option Token)
  deriving Repr, DecidableEq

def ParseError.message : ParseError → String
  | .trailing token => "Unexpected " ++ token.describe ++ " after expression"
  | .expected wanted found => "Expected " ++ wanted.describe ++ ", got " ++ describeNext found
  | .expectedElse found => "Expected 'else', got " ++ describeNext found
  | .unexpected found => "Unexpected token: " ++ describeNext found

/-- The number of arguments that a function takes. -/
inductive Arity where
  | atLeast (count : Nat)
  | atMost (count : Nat)
  | pairs
  deriving Repr, DecidableEq

def Arity.message : Arity → String
  | .atLeast n => "at least " ++ .ofList (Number.digitsOf n)
  | .atMost n => "at most " ++ .ofList (Number.digitsOf n)
  | .pairs => "range/criteria pairs"

/-- Why a script has no value. -/
inductive ScriptError where
  | parse (cause : ParseError)
  | unknownFunction (name : String)
  | unknownName (name : String)
  | argumentCount (function : String) (expected : Arity) (actual : Nat)
  deriving Repr, DecidableEq

def ScriptError.message : ScriptError → String
  | .parse cause => "Parse error: " ++ cause.message
  | .unknownFunction name => "Unknown function: " ++ name
  | .unknownName name => "Unknown name: " ++ name
  | .argumentCount function expected actual =>
    "Wrong number of arguments for " ++ function ++ ": expected " ++ expected.message ++ ", got " ++
      .ofList (Number.digitsOf actual)

end SheetBoard.Script
