import SheetBoard.Number.Layout

/-! Numbers rounded to a number of places, half away from zero, and written with thousands apart. -/

namespace SheetBoard.Number

/-- Multiplies `result` by the `n`-th power of `base`, squaring the base as it goes. -/
def timesPower (result base : Float) (n : Nat) : Float :=
  let result := if n % 2 = 1 then result * base else result
  if n / 2 = 0 then result else timesPower result (base * base) (n / 2)
termination_by n
decreasing_by omega

def powerOfTen (n : Nat) : Float := timesPower 1 10 n

def toPlaces (x : Float) (places : Nat) : Float :=
  round (x * powerOfTen places) / powerOfTen places

/-- Rounded and written with all its places. -/
def withPlaces (x : Float) (places : Nat) : List Char := fixedPlaces (toPlaces x places) places

/-- Puts a comma before every group of three that does not start the digits. -/
def groupThousands : List Char → List Char
  | [] => []
  | [c] => [c]
  | c :: rest =>
    if rest.length % 3 = 0 then c :: ',' :: groupThousands rest else c :: groupThousands rest

/-- Rounded, with commas between the thousands of the whole part. -/
def withThousands (x : Float) (places : Nat) : List Char :=
  let text := withPlaces x places
  let (sign, body) := match text with
    | '-' :: body => (['-'], body)
    | body => ([], body)
  sign ++ groupThousands (body.takeWhile (· ≠ '.')) ++ body.dropWhile (· ≠ '.')

end SheetBoard.Number
