import SheetBoard.Script.Error
import SheetBoard.Script.Expr

/-! Reading a script. From the loosest to the tightest, its forms are the conditional, `or`, `and`,
`not`, comparisons, sums, products, signs, and single values. For each form there is a plan, which
says what is done between the calls for other forms. Reading carries the plans out. -/

namespace SheetBoard.Script

/-- The levels of binary operators, each of which groups from the left. -/
inductive Level where
  | or | and | comparison | sum | product
  deriving Repr, DecidableEq

/-- The operator that a token stands for at a level. -/
def Level.operator? : Level → Token → Option BinaryOp
  | .or, .orOr => some .or
  | .or, .name n => if n = "or" then some .or else none
  | .and, .andAnd => some .and
  | .and, .name n => if n = "and" then some .and else none
  | .comparison, .equal => some .equal
  | .comparison, .notEqual => some .notEqual
  | .comparison, .less => some .less
  | .comparison, .lessEqual => some .lessEqual
  | .comparison, .greater => some .greater
  | .comparison, .greaterEqual => some .greaterEqual
  | .sum, .plus => some .add
  | .sum, .minus => some .subtract
  | .sum, .ampersand => some .concat
  | .product, .star => some .multiply
  | .product, .slash => some .divide
  | .product, .percent => some .modulo
  | _, _ => none

/-- The place of a level among all forms, tighter forms being lower. -/
def Level.height : Level → Nat
  | .product => 2
  | .sum => 3
  | .comparison => 4
  | .and => 6
  | .or => 7

/-- What is left of `ts` after at least one token was taken. -/
abbrev Rest (ts : List Token) := { rest : List Token // rest.length < ts.length }

/-- A sign in front of a value. -/
def sign? : Token → Option UnaryOp
  | .minus => some .negate
  | .plus => some .plus
  | .bang => some .not
  | _ => none

/-- Takes a given word. -/
def takeWord? (word : String) : (ts : List Token) → Option (Rest ts)
  | .name n :: rest => if n = word then some ⟨rest, by simp⟩ else none
  | _ => none

/-- Takes a given token. -/
def take? (token : Token) : (ts : List Token) → Option (Rest ts)
  | t :: rest => if t = token then some ⟨rest, by simp⟩ else none
  | [] => none

/-- The value of a bare name. -/
def wordValue (n : String) : Expr :=
  if n = "True" ∨ n = "true" ∨ n = "TRUE" then .boolean true
  else if n = "False" ∨ n = "false" ∨ n = "FALSE" then .boolean false
  else if n = "None" ∨ n = "null" ∨ n = "undefined" then .null
  else .name n

/-! ### Goals -/

/-- What is to be read at a point of a script. -/
inductive Goal where
  | conditional
  | level (level : Level)
  /-- Further operators of a level after an operand. -/
  | operators (level : Level) (left : Expr)
  | negation
  | signed
  | value
  /-- Items up to and with a closing token. -/
  | items (close : Token)
  /-- Further items, each after a comma. -/
  | more (close : Token)

namespace Goal

/-- The type of what is read for a goal. -/
@[reducible] def Result : Goal → Type
  | .conditional | .level _ | .operators _ _ | .negation | .signed | .value => Expr
  | .items _ | .more _ => List Expr

/-- The place of a goal among those that call each other at one point, callers being higher. -/
def height : Goal → Nat
  | .items _ => 9
  | .conditional => 8
  | .level l => l.height
  | .negation => 5
  | .signed => 1
  | .value | .operators _ _ | .more _ => 0

/-- What decreases from call to call: first the number of tokens counts and then the height. -/
def size (goal : Goal) (ts : List Token) : Nat := 10 * ts.length + goal.height

end Goal

/-- The form of the operands of a level. -/
def Level.operand : Level → Goal
  | .or => .level .and
  | .and => .negation
  | .comparison => .level .sum
  | .sum => .level .product
  | .product => .signed

/-- What is read for the operands of a level is one expression. -/
def Level.expr : (l : Level) → l.operand.Result → Expr
  | .or, e | .and, e | .comparison, e | .sum, e | .product, e => e

theorem Goal.height_lt (goal : Goal) : goal.height < 10 := by
  cases goal with
  | level l => cases l <;> decide
  | _ => simp [height]

/-- Whatever is called for behind a token is smaller. -/
theorem Goal.size_lt {goal callee : Goal} {ts us : List Token} (h : us.length < ts.length) :
    callee.size us < goal.size ts := by
  have hheight := callee.height_lt
  unfold Goal.size
  omega

theorem Level.height_operand (l : Level) : l.operand.height < l.height := by
  cases l <;> decide

theorem Level.size_operand (l : Level) (ts : List Token) :
    l.operand.size ts < (Goal.level l).size ts := Nat.add_lt_add_left l.height_operand _

theorem Level.size_operators (l : Level) (left : Expr) {ts us : List Token}
    (h : us.length ≤ ts.length) : (Goal.operators l left).size us < (Goal.level l).size ts := by
  have hheight := l.height_operand
  simp only [Goal.size, Goal.height]
  omega

/-! ### Plans -/

/-- What may be left of `ts`. -/
abbrev Left (ts : List Token) := { rest : List Token // rest.length ≤ ts.length }

/-- The outcome of reading for a goal, with what is left. -/
abbrev Goal.Outcome (goal : Goal) (ts : List Token) := Except ParseError (goal.Result × Left ts)

/-- What is done for a goal between its calls: it fails, it is done, or another goal is called for
and the plan goes on with what was read and left there. -/
inductive Plan (goal : Goal) (ts : List Token) where
  | fail (cause : ParseError)
  | done (found : goal.Result) (rest : Left ts)
  | call (callee : Goal) (us : List Token) (next : callee.Result → Left us → Plan goal ts)
      (h : callee.size us < goal.size ts := by
        simp only [Goal.size, Goal.height, Level.height, List.length_cons]; omega)

namespace Plan

/-- A conditional in either spelling, or what it would be about. -/
def conditional (ts : List Token) : Plan .conditional ts :=
  .call (.level .or) ts fun body ⟨rest, _⟩ =>
    match takeWord? "if" rest with
    | some ⟨afterIf, _⟩ =>
      .call (.level .or) afterIf fun condition ⟨rest, _⟩ =>
        match takeWord? "else" rest with
        | none => .fail (.expectedElse rest.head?)
        | some ⟨afterElse, _⟩ =>
          .call .conditional afterElse fun no ⟨rest, _⟩ =>
            .done (.conditional condition body no) ⟨rest, by omega⟩
    | none =>
      match take? .question rest with
      | some ⟨afterMark, _⟩ =>
        .call .conditional afterMark fun yes ⟨rest, _⟩ =>
          match take? .colon rest with
          | none => .fail (.expected .colon rest.head?)
          | some ⟨afterColon, _⟩ =>
            .call .conditional afterColon fun no ⟨rest, _⟩ =>
              .done (.conditional body yes no) ⟨rest, by omega⟩
      | none => .done body ⟨rest, by omega⟩

/-- Operands of one level with its operators between them. -/
def level (l : Level) (ts : List Token) : Plan (.level l) ts :=
  .call l.operand ts
    (fun left ⟨rest, h⟩ =>
      .call (.operators l (l.expr left)) rest
        (fun expr ⟨rest, _⟩ => .done expr ⟨rest, by omega⟩)
        (l.size_operators _ h))
    (l.size_operand ts)

/-- Further operators of a level with their right operands. -/
def operators (l : Level) (left : Expr) : (ts : List Token) → Plan (.operators l left) ts
  | [] => .done left ⟨[], by simp⟩
  | t :: afterOp =>
    match l.operator? t with
    | none => .done left ⟨t :: afterOp, by simp⟩
    | some op =>
      .call l.operand afterOp
        (fun right ⟨rest, _⟩ =>
          .call (.operators l (.binary op left (l.expr right))) rest
            fun expr ⟨rest, _⟩ => .done expr ⟨rest, by simp only [List.length_cons]; omega⟩)
        (Goal.size_lt (by simp))

/-- Any number of `not` in front of a comparison. -/
def negation (ts : List Token) : Plan .negation ts :=
  match takeWord? "not" ts with
  | none => .call (.level .comparison) ts fun operand rest => .done operand rest
  | some ⟨afterNot, _⟩ =>
    .call .negation afterNot fun operand ⟨rest, _⟩ => .done (.unary .not operand) ⟨rest, by omega⟩

/-- Any number of signs in front of a value. -/
def signed : (ts : List Token) → Plan .signed ts
  | [] => .call .value [] fun operand rest => .done operand rest
  | t :: afterSign =>
    match sign? t with
    | none => .call .value (t :: afterSign) fun operand rest => .done operand rest
    | some op =>
      .call .signed afterSign fun operand ⟨rest, _⟩ =>
        .done (.unary op operand) ⟨rest, by simp only [List.length_cons]; omega⟩

/-- A literal, a name, a call, an array, or an expression in parentheses. -/
def value : (ts : List Token) → Plan .value ts
  | .number x :: rest => .done (.number x) ⟨rest, by simp⟩
  | .text s :: rest => .done (.text s) ⟨rest, by simp⟩
  | .leftParen :: inner =>
    .call .conditional inner fun expr ⟨rest, _⟩ =>
      match take? .rightParen rest with
      | none => .fail (.expected .rightParen rest.head?)
      | some ⟨rest, _⟩ => .done expr ⟨rest, by simp only [List.length_cons]; omega⟩
  | .leftBracket :: inner =>
    .call (.items .rightBracket) inner fun items ⟨rest, _⟩ =>
      .done (.array items) ⟨rest, by simp only [List.length_cons]; omega⟩
  | .name n :: .leftParen :: inner =>
    .call (.items .rightParen) inner fun arguments ⟨rest, _⟩ =>
      .done (.call n arguments) ⟨rest, by simp only [List.length_cons]; omega⟩
  | .name n :: rest => .done (wordValue n) ⟨rest, by simp⟩
  | ts => .fail (.unexpected ts.head?)

/-- Expressions with commas between them, up to and with the closing token. -/
def items (close : Token) (ts : List Token) : Plan (.items close) ts :=
  match take? close ts with
  | some ⟨rest, _⟩ => .done [] ⟨rest, by omega⟩
  | none =>
    .call .conditional ts fun first ⟨rest, _⟩ =>
      .call (.more close) rest fun more ⟨rest, _⟩ => .done (first :: more) ⟨rest, by omega⟩

/-- Further items, each after a comma, up to and with the closing token. -/
def more (close : Token) (ts : List Token) : Plan (.more close) ts :=
  match take? .comma ts with
  | none =>
    match take? close ts with
    | none => .fail (.expected close ts.head?)
    | some ⟨rest, _⟩ => .done [] ⟨rest, by omega⟩
  | some ⟨afterComma, _⟩ =>
    .call .conditional afterComma fun item ⟨rest, _⟩ =>
      .call (.more close) rest fun more ⟨rest, _⟩ => .done (item :: more) ⟨rest, by omega⟩

/-- Carries a plan out, with an answer to each call. -/
def run {goal : Goal} {ts : List Token} {m : Type → Type} [Monad m] [MonadExcept ParseError m]
    (answer : (callee : Goal) → (us : List Token) → callee.size us < goal.size ts →
      m (callee.Result × Left us)) : Plan goal ts → m (goal.Result × Left ts)
  | .fail cause => throw cause
  | .done found rest => pure (found, rest)
  | .call callee us next h => do
    let (found, rest) ← answer callee us h
    (next found rest).run answer

end Plan

/-- The plan of a goal. -/
def Goal.plan : (goal : Goal) → (ts : List Token) → Plan goal ts
  | .conditional => Plan.conditional
  | .level l => Plan.level l
  | .operators l left => Plan.operators l left
  | .negation => Plan.negation
  | .signed => Plan.signed
  | .value => Plan.value
  | .items close => Plan.items close
  | .more close => Plan.more close

/-- Reads for a goal. Each call is answered by reading for the goal that is called. -/
def Goal.read (goal : Goal) (ts : List Token) : goal.Outcome ts :=
  (goal.plan ts).run fun callee us _ => callee.read us
termination_by goal.size ts

/-- Reads a whole script. -/
def readTokens (ts : List Token) : Except ParseError Expr :=
  match Goal.conditional.read ts with
  | .error e => .error e
  | .ok (expr, ⟨[], _⟩) => .ok expr
  | .ok (_, ⟨token :: _, _⟩) => .error (.trailing token)

def read (script : List Char) : Except ParseError Expr := readTokens (tokens (Text.trim script))

end SheetBoard.Script
