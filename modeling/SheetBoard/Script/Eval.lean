import SheetBoard.Script.Builtin
import SheetBoard.Script.Parser

/-! The value of a script. -/

namespace SheetBoard.Script

/-- A binary operation on two single values. A sum with a text is the joined text, and division by
zero is NaN. -/
def binaryValue (op : BinaryOp) (v w : Value) : Value :=
  match op with
  | .add =>
    match v, w with
    | .text _, _ | _, .text _ => .text (.ofList (v.asText ++ w.asText))
    | _, _ => .number (v.toFloat + w.toFloat)
  | .subtract => .number (v.toFloat - w.toFloat)
  | .multiply => .number (v.toFloat * w.toFloat)
  | .divide => if w.toFloat == 0 then .nan else .number (v.toFloat / w.toFloat)
  | .modulo => .number (Number.remainder v.toFloat w.toFloat)
  | .concat => .text (.ofList (v.asText ++ w.asText))
  | .equal => .boolean (v.order? w == some .eq)
  | .notEqual => .boolean (v.order? w != some .eq)
  | .less => .boolean (v.order? w == some .lt)
  | .lessEqual => .boolean (v.order? w == some .lt || v.order? w == some .eq)
  | .greater => .boolean (v.order? w == some .gt)
  | .greaterEqual => .boolean (v.order? w == some .gt || v.order? w == some .eq)
  | .and | .or => .null

/-- A sign applied to a value. A sign goes to every item of an array, negation looks at the whole.
-/
def unaryValue (op : UnaryOp) (v : Value) : Value :=
  match op with
  | .negate => v.map fun w => .number (-w.toFloat)
  | .plus => v.map fun w => .number w.toFloat
  | .not => .boolean !v.isTrue

/-- The function of a call with `count` arguments, if there is one and it takes so many. -/
def resolveCall (name : String) (count : Nat) : Except ScriptError Builtin :=
  match Builtin.find? name with
  | none => .error (.unknownFunction name)
  | some (_, function) =>
    let signature := function.signature
    if count < signature.least then .error (.argumentCount name (.atLeast signature.least) count)
    else
      match signature.most with
      | some most =>
        if most < count then .error (.argumentCount name (.atMost most) count) else .ok function
      | none => .ok function

/-- The value of a name that stands alone. -/
def nameValue (name : String) : Except ScriptError Value :=
  if name = "NaN" then .ok .nan
  else if name = "Infinity" then .ok (.number (1.0 / 0.0))
  else .error (.unknownName name)

mutual

/-- The value of an expression. Logical operators give one of their operands and skip the right one
where the left one decides; a conditional on an array evaluates both branches. -/
def eval (ctx : Context) : Expr → Except ScriptError Value
  | .number x => .ok (.number x)
  | .text s => .ok (.text s)
  | .boolean b => .ok (.boolean b)
  | .null => .ok .null
  | .array items =>
    match evalAll ctx items with
    | .error e => .error e
    | .ok values => .ok (.array values)
  | .name name => nameValue name
  | .binary op left right =>
    match eval ctx left with
    | .error e => .error e
    | .ok v =>
      if op = .and ∧ v.isTrue = false then .ok v
      else if op = .or ∧ v.isTrue = true then .ok v
      else
        match eval ctx right with
        | .error e => .error e
        | .ok w => if op = .and ∨ op = .or then .ok w else .ok (v.combine (binaryValue op) w)
  | .unary op operand =>
    match eval ctx operand with
    | .error e => .error e
    | .ok v => .ok (unaryValue op v)
  | .conditional condition yes no =>
    match eval ctx condition with
    | .error e => .error e
    | .ok (.array flags) =>
      match eval ctx yes with
      | .error e => .error e
      | .ok v =>
        match eval ctx no with
        | .error e => .error e
        | .ok w => .ok (.chooseItems flags v w)
    | .ok flag => if flag.isTrue then eval ctx yes else eval ctx no
  | .call name arguments =>
    match resolveCall name arguments.length with
    | .error e => .error e
    | .ok function =>
      match evalAll ctx arguments with
      | .error e => .error e
      | .ok args => function.apply ctx args

/-- The values of expressions, in order; the first one that fails decides. -/
def evalAll (ctx : Context) : List Expr → Except ScriptError (List Value)
  | [] => .ok []
  | expr :: rest =>
    match eval ctx expr with
    | .error e => .error e
    | .ok v =>
      match evalAll ctx rest with
      | .error e => .error e
      | .ok vs => .ok (v :: vs)

end

/-- Reads and evaluates a script. -/
def run (ctx : Context) (script : List Char) : Except ScriptError Value :=
  match read script with
  | .error e => .error (.parse e)
  | .ok expr => eval ctx expr

end SheetBoard.Script
