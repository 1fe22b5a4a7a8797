import SheetBoard.Number.Power

/-! The exact value of a 64-bit float, and the operations that only need whole-number arithmetic on
it. -/

namespace SheetBoard.Number

/-- A float read exactly: a finite one is `± significand * 2 ^ exponent`. -/
inductive Exact where
  | nan
  | infinite (negative : Bool)
  | finite (negative : Bool) (significand : Nat) (exponent : Int)
  deriving Repr, DecidableEq

/-- Reads the sign bit, the eleven exponent bits and the 52 fraction bits. -/
def exact (x : Float) : Exact :=
  let bits := x.toBits.toNat
  let negative := decide (halfWord ≤ bits)
  let biased : Nat := bits / twoTo 52 % 2048
  let fraction : Nat := bits % twoTo 52
  if biased = 2047 then
    if fraction = 0 then .infinite negative else .nan
  else if biased = 0 then .finite negative fraction (-1074)
  else .finite negative (twoTo 52 + fraction) ((biased : Int) - 1075)

def withSign (negative : Bool) (x : Float) : Float := if negative then -x else x

/-- The float `significand * 2 ^ exponent`, for a significand below `2 ^ 53` and a value on the grid
of floats. -/
def ofParts (significand : Nat) (exponent : Int) : Float :=
  if significand = 0 then 0
  else
    let shift := min (52 - significand.log2) (exponent + 1074).toNat
    let m := significand * twoTo shift
    let biased := (exponent - shift + 1075).toNat
    if m < twoTo 52 then Float.ofBits m.toUInt64
    else Float.ofBits (biased * twoTo 52 + (m - twoTo 52)).toUInt64

/-- The whole part of `significand * 2 ^ exponent`. -/
def wholePart (significand : Nat) (exponent : Int) : Nat :=
  if 0 ≤ exponent then significand * twoTo exponent.toNat else significand / twoTo (-exponent).toNat

/-- `significand * 2 ^ exponent` is a whole number. -/
def isWhole (significand : Nat) (exponent : Int) : Bool :=
  0 ≤ exponent || significand % twoTo (-exponent).toNat = 0

/-- A value with no fraction, an infinity or NaN comes back as it is; for any other float the
magnitude is replaced by `f significand exponent`, and the sign is kept. -/
def mapFraction (f : Bool → Nat → Int → Nat) (x : Float) : Float :=
  match exact x with
  | .finite negative m q =>
    if isWhole m q then x else withSign negative (Float.ofNat (f negative m q))
  | _ => x

/-- Drops the fraction. -/
def truncate (x : Float) : Float := mapFraction (fun _ => wholePart) x

/-- The largest whole number that is not above `x`. -/
def floor (x : Float) : Float :=
  mapFraction (fun negative m q => if negative then wholePart m q + 1 else wholePart m q) x

/-- The nearest whole number; a half goes away from zero. -/
def round (x : Float) : Float := mapFraction (fun _ m q => (wholePart m (q + 1) + 1) / 2) x

/-- The whole part as an integer, clamped to 64 bits; NaN gives zero. -/
def toInt (x : Float) : Int :=
  let clamp (i : Int) : Int := max (-halfWord) (min (halfWord - 1) i)
  match exact x with
  | .nan => 0
  | .infinite negative => if negative then -halfWord else halfWord - 1
  | .finite negative m q => clamp (if negative then -(wholePart m q : Int) else wholePart m q)

/-- The remainder of division with the quotient cut off toward zero. It has the sign of the dividend
and is computed without rounding. -/
def remainder (x y : Float) : Float :=
  match exact x, exact y with
  | .finite negative m q, .finite _ n r =>
    if n = 0 then 0.0 / 0.0
    else
      let base := min q r
      let a := m * twoTo (q - base).toNat
      let b := n * twoTo (r - base).toNat
      withSign negative (ofParts (a % b) base)
  | .finite .., .infinite _ => x
  | _, _ => 0.0 / 0.0

end SheetBoard.Number
