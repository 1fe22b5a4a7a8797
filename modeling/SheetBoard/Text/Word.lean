import SheetBoard.Text.Alphabetic
import SheetBoard.Text.Digit
import SheetBoard.Text.Mark

/-! Word characters, and the boundaries between words. -/

namespace SheetBoard.Text

/-- A letter or a number of any script. -/
def isAlphanumeric (c : Char) : Bool := isAlphabetic c || isNumeric c

/-- Connector punctuation, such as the underscore. -/
def connectorRanges : List (Nat × Nat) := [
  (0x5F, 0x5F), (0x203F, 0x2040), (0x2054, 0x2054), (0xFE33, 0xFE34), (0xFE4D, 0xFE4F),
  (0xFF3F, 0xFF3F)]

/-- The characters that belong to a word: letters, marks, decimal digits, connectors and the two
joiners. -/
def isWordChar (c : Char) : Bool :=
  if isAscii c then isAsciiLetter c || isAsciiDigit c || c = '_'
  else isAlphabetic c || isMark c || isDecimalDigit c || inRanges connectorRanges c ||
    c.toNat = 0x200C || c.toNat = 0x200D

/-- A word begins or ends between the two characters, where `none` is an end of the text. -/
def isBoundary (before after : Option Char) : Bool := before.any isWordChar != after.any isWordChar

end SheetBoard.Text
