import SheetBoard.Number.Decimal

/-! How a float is written: positional or with an exponent, with its fewest digits or with a fixed
number of places. -/

namespace SheetBoard.Number

/-- The choices of one way to write a float with its fewest digits. A number of magnitude `0.d * 10
^ p` is written positionally when `p` lies between the two bounds, where there are bounds. -/
structure Layout where
  least : Option Int
  most : Option Int
  /-- A whole number keeps a point and one zero. -/
  keepPoint : Bool
  tie : Tie

/-- Plain text: never an exponent, and no point on whole numbers. -/
def Layout.plain : Layout := ⟨none, none, false, .up⟩

/-- Literal text: a point always, and an exponent below `1e-4` and from `1e16` on. -/
def Layout.literal : Layout := ⟨some (-3), some 16, true, .up⟩

/-- Number text of an exchange document: a point always, and an exponent below `1e-5` and from
`1e16` on. -/
def Layout.document : Layout := ⟨some (-4), some 16, true, .even⟩

def digitsOf (n : Nat) : List Char := Nat.toDigits 10 n

def zeros (n : Int) : List Char := List.replicate n.toNat '0'

/-- Puts the point after the first `point` digits, with zeros where there are no digits. -/
def positional (keepPoint : Bool) (digits : List Char) (point : Int) : List Char :=
  if point ≤ 0 then '0' :: '.' :: zeros (-point) ++ digits
  else if digits.length ≤ point then
    digits ++ zeros (point - digits.length) ++ if keepPoint then ['.', '0'] else []
  else digits.take point.toNat ++ '.' :: digits.drop point.toNat

/-- One digit before the point, and the exponent after an `e`. -/
def scientific (digits : List Char) (point : Int) : List Char :=
  let exponent := point - 1
  let mark := if exponent < 0 then ['e', '-'] else ['e']
  digits.take 1 ++ (if digits.length ≤ 1 then [] else '.' :: digits.drop 1) ++
    mark ++ digitsOf exponent.natAbs

def Layout.isPositional (l : Layout) (point : Int) : Bool :=
  (l.least.all (· ≤ point)) && (l.most.all (point ≤ ·))

def Layout.magnitude (l : Layout) (significand : Nat) (exponent : Int) : List Char :=
  if significand = 0 then '0' :: if l.keepPoint then ['.', '0'] else []
  else
    let d := (shortest l.tie significand exponent).trim
    let digits := digitsOf d.digits
    let point := digits.length + d.exponent
    if l.isPositional point then positional l.keepPoint digits point else scientific digits point

def signed (negative : Bool) (text : List Char) : List Char :=
  if negative then '-' :: text else text

def write (l : Layout) (x : Float) : List Char :=
  match exact x with
  | .nan => ['N', 'a', 'N']
  | .infinite negative => signed negative ['i', 'n', 'f']
  | .finite negative m q => signed negative (l.magnitude m q)

/-- The fewest digits that read back, without exponent. -/
def plain (x : Float) : String := .ofList (write .plain x)

/-- The number `n / 10 ^ places`, all places written. -/
def placed (n places : Nat) : List Char :=
  if places = 0 then digitsOf n
  else
    let digits := digitsOf n
    let padded := List.replicate (places + 1 - digits.length) '0' ++ digits
    padded.take (padded.length - places) ++ '.' :: padded.drop (padded.length - places)

/-- A fixed number of places, rounded from the exact value, a half to the even digit. A negative
number keeps its sign when all digits are zero. -/
def fixedPlaces (x : Float) (places : Nat) : List Char :=
  match exact x with
  | .nan => ['N', 'a', 'N']
  | .infinite negative => signed negative ['i', 'n', 'f']
  | .finite negative m q =>
    let f := Fraction.scaleTwo m q
    signed negative (placed (roundDiv (f.num * tenTo places) f.den) places)

end SheetBoard.Number
