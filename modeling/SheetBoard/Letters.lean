import SheetBoard.Number.Power
import SheetBoard.Text.Alphabetic

/-! Column letters: `A` to `Z`, then `AA` and so on, and the positions they stand for. -/

namespace SheetBoard.Letters

/-- The capital letter with the given place in the alphabet, counted from zero. -/
def letter (n : Nat) : Char := Char.ofNat ('A'.toNat + n)

/-- The letters of a column, without a limit on its position. -/
def spell (n : Nat) : List Char :=
  if n < 26 then [letter n] else spell (n / 26 - 1) ++ [letter (n % 26)]

/-- The letters of a column. Positions from `2 ^ 63` on have none. -/
def ofIndex (n : Nat) : List Char := if n < Number.halfWord then spell n else []

/-- The place of a letter in the alphabet, counted from one. -/
def value (c : Char) : Nat := c.toUpper.toNat - 'A'.toNat + 1

/-- Reads one more letter; fails on any other character and past 64 bits. -/
def extend? (n : Nat) (c : Char) : Option Nat :=
  if Text.isAsciiLetter c ∧ 26 * n + value c < Number.wordSize then some (26 * n + value c)
  else none

/-- The position that letters of either case stand for. -/
def toIndex? (letters : List Char) : Option Nat :=
  if letters.isEmpty then none else (letters.foldlM extend? 0).map (· - 1)

end SheetBoard.Letters
