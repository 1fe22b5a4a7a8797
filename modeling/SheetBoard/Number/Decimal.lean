import SheetBoard.Number.Exact

/-! Decimal expansions of floats: the fewest digits that read back, and a fixed number of places. -/

namespace SheetBoard.Number

/-- The number `digits * 10 ^ exponent`. -/
structure Decimal where
  digits : Nat
  exponent : Int
  deriving Repr, DecidableEq

/-- Which of two equally near decimals is taken. -/
inductive Tie where
  | up
  | even
  deriving Repr, DecidableEq

/-- `num / den` to the nearest whole number, a half to the even neighbour. -/
def roundDiv (num den : Nat) : Nat :=
  let quotient := num / den
  let twice := 2 * (num % den)
  if den < twice ∨ (den = twice ∧ quotient % 2 = 1) then quotient + 1 else quotient

/-- A positive rational, kept as a fraction. -/
structure Fraction where
  num : Nat
  den : Nat
  deriving Repr

/-- `n * 2 ^ e` as a fraction. -/
def Fraction.scaleTwo (n : Nat) (e : Int) : Fraction := ⟨n * twoTo e.toNat, twoTo (-e).toNat⟩

/-- `d * 10 ^ k` compared with a fraction. -/
def Decimal.compare (d : Decimal) (f : Fraction) : Ordering :=
  compareOfLessAndEq (d.digits * tenTo d.exponent.toNat * f.den) (f.num * tenTo (-d.exponent).toNat)

/-- The decimals that read back as `significand * 2 ^ exponent`: those between the midpoints to the
two neighbouring floats, the midpoints included when the significand is even. -/
structure Interval where
  low : Fraction
  high : Fraction
  closed : Bool

def interval (significand : Nat) (exponent : Int) : Interval :=
  let below := if significand = twoTo 52 ∧ -1074 < exponent then 1 else 2
  { low := .scaleTwo (4 * significand - below) (exponent - 2)
    high := .scaleTwo (4 * significand + 2) (exponent - 2)
    closed := significand % 2 = 0 }

def Interval.contains (i : Interval) (d : Decimal) : Bool :=
  match d.compare i.low, d.compare i.high with
  | .gt, .lt => true
  | .eq, .lt | .gt, .eq | .eq, .eq => i.closed
  | _, _ => false

/-- The number of decimal digits of `n`; one for zero. -/
def digitCount (n : Nat) : Nat := (Nat.toDigits 10 n).length

/-- The exponent `e` with `10 ^ e ≤ f < 10 ^ (e + 1)`. -/
def Fraction.magnitude (f : Fraction) : Int :=
  let guess : Int := (digitCount f.num : Int) - digitCount f.den
  if (Decimal.mk 1 guess).compare f = .gt then guess - 1 else guess

/-- The two multiples of `10 ^ exponent` next to the value, the lower one first. -/
def Fraction.neighbours (f : Fraction) (exponent : Int) : Decimal × Decimal :=
  let quotient := f.num * tenTo (-exponent).toNat / (f.den * tenTo exponent.toNat)
  (⟨quotient, exponent⟩, ⟨quotient + 1, exponent⟩)

/-- The upper of two neighbouring decimals is taken when the value lies past their midpoint, and at
the midpoint as `tie` says. -/
def Fraction.prefersUpper (f : Fraction) (tie : Tie) (lower : Decimal) : Bool :=
  match (Decimal.mk (10 * lower.digits + 5) (lower.exponent - 1)).compare f with
  | .lt => true
  | .gt => false
  | .eq =>
    match tie with
    | .up => true
    | .even => lower.digits % 2 = 1

/-- The neighbour on the grid `10 ^ exponent` that reads back, the nearer one when both do. -/
def Interval.pick? (i : Interval) (f : Fraction) (tie : Tie) (exponent : Int) : Option Decimal :=
  let (lower, upper) := f.neighbours exponent
  match i.contains lower, i.contains upper with
  | true, true => some (if f.prefersUpper tie lower then upper else lower)
  | true, false => some lower
  | false, true => some upper
  | false, false => none

/-- The fewest digits that read back as `significand * 2 ^ exponent`. Seventeen always do. -/
def shortest (tie : Tie) (significand : Nat) (exponent : Int) : Decimal :=
  let value := Fraction.scaleTwo significand exponent
  let range := interval significand exponent
  let top := value.magnitude
  ((List.range 17).findSome? fun (n : Nat) => range.pick? value tie (top - n)).getD
    (value.neighbours (top - 16)).1

/-- Drops the zeros at the end of the digits. -/
def Decimal.trim (d : Decimal) : Decimal :=
  if h : d.digits ≠ 0 ∧ d.digits % 10 = 0 then
    Decimal.trim ⟨d.digits / 10, d.exponent + 1⟩
  else d
termination_by d.digits
decreasing_by exact Nat.div_lt_self (Nat.pos_of_ne_zero h.1) (by decide)

end SheetBoard.Number
