import SheetBoard.Number.Exact

/-! Reading numbers from text: decimal floats, and 64-bit integers. -/

namespace SheetBoard.Number

def isDigit (c : Char) : Bool := '0' ≤ c && c ≤ '9'

def digitValue (c : Char) : Nat := c.toNat - '0'.toNat

/-- The value of a run of decimal digits. -/
def natOfDigits (ds : List Char) : Nat := ds.foldl (fun n c => 10 * n + digitValue c) 0

/-- `n * 10 ^ e`, rounded to the nearest float. A power far outside the range of floats is not
computed: the text then stands for infinity or zero. -/
def ofDecimal (n : Nat) (e : Int) : Float :=
  let size : Int := (Nat.toDigits 10 n).length + e
  if n = 0 ∨ size < -400 then 0
  else if 400 < size then 1.0 / 0.0
  else Float.ofScientific n (e < 0) e.natAbs

/-- Splits an optional sign off; true stands for a minus. -/
def splitSign : List Char → Bool × List Char
  | '-' :: cs => (true, cs)
  | '+' :: cs => (false, cs)
  | cs => (false, cs)

/-- An exponent mark with its digits, or nothing at all. -/
def readExponent? : List Char → Option Int
  | [] => some 0
  | c :: cs =>
    if c = 'e' || c = 'E' then
      let (negative, digits) := splitSign cs
      if digits.isEmpty || !digits.all isDigit then none
      else some (if negative then -(natOfDigits digits : Int) else natOfDigits digits)
    else none

/-- Digits with an optional point and exponent; at least one digit stands beside the point. -/
def readDecimal? (cs : List Char) : Option Float :=
  let whole := cs.takeWhile isDigit
  let rest := cs.dropWhile isDigit
  let (fraction, rest) :=
    match rest with
    | '.' :: tail => (tail.takeWhile isDigit, tail.dropWhile isDigit)
    | _ => ([], rest)
  if whole.isEmpty && fraction.isEmpty then none
  else
    (readExponent? rest).map fun e =>
      ofDecimal (natOfDigits (whole ++ fraction)) (e - fraction.length)

/-- The words for infinity and NaN, in any case. -/
def readWord? (cs : List Char) : Option Float :=
  match String.ofList (cs.map Char.toLower) with
  | "inf" | "infinity" => some (1.0 / 0.0)
  | "nan" => some (0.0 / 0.0)
  | _ => none

/-- Reads the whole text as a float, with an optional sign. -/
def read? (cs : List Char) : Option Float :=
  let (negative, body) := splitSign cs
  ((readWord? body).orElse fun _ => readDecimal? body).map (withSign negative)

/-- Reads the whole text as an integer of 64 bits, with an optional sign. -/
def readInt? (cs : List Char) : Option Int :=
  let (negative, digits) := splitSign cs
  if digits.isEmpty || !digits.all isDigit then none
  else
    let i : Int := if negative then -(natOfDigits digits : Int) else natOfDigits digits
    if -(halfWord : Int) ≤ i ∧ i < halfWord then some i else none

end SheetBoard.Number
