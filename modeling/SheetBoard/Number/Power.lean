/-! Powers of two and of ten, and the sizes of machine words. -/

namespace SheetBoard.Number

/-- The `n`-th power of two. -/
def twoTo (n : Nat) : Nat := Nat.pow 2 n

/-- The `n`-th power of ten. -/
def tenTo (n : Nat) : Nat := Nat.pow 10 n

/-- How many values a word of 64 bits has. -/
def wordSize : Nat := twoTo 64

/-- How many values a signed word of 64 bits has below zero. -/
def halfWord : Nat := twoTo 63

end SheetBoard.Number
