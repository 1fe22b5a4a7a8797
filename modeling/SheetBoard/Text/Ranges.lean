/-! Sets of characters given by ranges of code points. -/

namespace SheetBoard.Text

/-- The code point lies in one of the ranges, whose ends are included. -/
def inRanges (ranges : List (Nat × Nat)) (c : Char) : Bool :=
  ranges.any fun r => r.1 ≤ c.toNat && c.toNat ≤ r.2

/-- The code points of ASCII. -/
def isAscii (c : Char) : Bool := c.toNat < 128

end SheetBoard.Text
