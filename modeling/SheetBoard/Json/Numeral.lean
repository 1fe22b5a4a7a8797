import SheetBoard.Json.Basic
import SheetBoard.Number.Read

/-! Numbers in documents. A whole number is exact, any other is a float: its digits make an integer
of 64 bits, which is multiplied or divided by a power of ten. -/

namespace SheetBoard.Json

/-- The parts of a number as written. -/
structure Lexeme where
  negative : Bool
  whole : List Char
  fraction : List Char
  /-- The sign and the digits of the exponent. -/
  exponent : Option (Bool × List Char)

/-- Cuts off a fraction, which has at least one digit after the point. -/
def readFraction : List Char → Option (List Char × List Char)
  | '.' :: rest =>
    let digits := rest.takeWhile Number.isDigit
    if digits.isEmpty then none else some (digits, rest.dropWhile Number.isDigit)
  | rest => some ([], rest)

/-- Cuts off an exponent, which has at least one digit. -/
def readExponent : List Char → Option (Option (Bool × List Char) × List Char)
  | c :: rest =>
    if c = 'e' || c = 'E' then
      let (negative, tail) := Number.splitSign rest
      let digits := tail.takeWhile Number.isDigit
      if digits.isEmpty then none else some (some (negative, digits), tail.dropWhile Number.isDigit)
    else some (none, c :: rest)
  | [] => some (none, [])

def readMinus : List Char → Bool × List Char
  | '-' :: rest => (true, rest)
  | cs => (false, cs)

/-- Cuts off a number. A zero in front of other digits is refused. -/
def readLexeme (cs : List Char) : Option (Lexeme × List Char) :=
  let (negative, body) := readMinus cs
  let whole := body.takeWhile Number.isDigit
  if whole.isEmpty || (whole.head? = some '0' && 1 < whole.length) then none
  else
    match readFraction (body.dropWhile Number.isDigit) with
    | none => none
    | some (fraction, rest) =>
      (readExponent rest).map fun (exponent, rest) => (⟨negative, whole, fraction, exponent⟩, rest)

/-- Takes digits as long as their value has 64 bits: the value, and the digits left. -/
def takeValue (n : Nat) : List Char → Nat × List Char
  | [] => (n, [])
  | c :: rest =>
    let m := 10 * n + Number.digitValue c
    if m < Number.wordSize then takeValue m rest else (n, c :: rest)

/-- `significand * 10 ^ exponent`, with the rounding of one product or of at most two quotients.
None if it grows past all floats. -/
def scale? (significand : Nat) (exponent : Int) : Option Float :=
  let start := Float.ofNat significand
  let power (n : Nat) : Float := Number.ofDecimal 1 n
  let places := (-exponent).toNat
  if 0 ≤ exponent then
    if significand = 0 then some 0
    else if 308 < exponent then none
    else
      let x := start * power exponent.toNat
      if x.isInf then none else some x
  else if places ≤ 308 then some (start / power places)
  else if places ≤ 616 then some (start / power 308 / power (places - 308))
  else some 0

/-- The float that a number stands for. Whole digits past 64 bits count as places, and digits of the
fraction past them do not count at all. -/
def Lexeme.real? (l : Lexeme) : Option Float :=
  let (head, extra) := takeValue 0 l.whole
  let (significand, dropped) := takeValue head l.fraction
  let places : Int := (l.fraction.length : Int) - dropped.length - extra.length
  let exponent : Int :=
    match l.exponent with
    | none => -places
    | some (negative, digits) =>
      let n := Number.natOfDigits digits
      if negative then -places - n else n - places
  (scale? significand exponent).map (Number.withSign l.negative)

def Lexeme.real (l : Lexeme) : Json :=
  match l.real? with
  | some x => .number (.real x)
  | none => .unusable

/-- What a number stands for. Minus zero is a float, like whole numbers past 64 bits. -/
def Lexeme.value (l : Lexeme) : Json :=
  let n := Number.natOfDigits l.whole
  if !l.fraction.isEmpty || l.exponent.isSome then l.real
  else if l.negative then
    if 0 < n ∧ n ≤ Number.halfWord then .number (.whole (-n)) else l.real
  else if n < Number.wordSize then .number (.whole n)
  else l.real

theorem length_readFraction_le {cs rest digits : List Char}
    (h : readFraction cs = some (digits, rest)) : rest.length ≤ cs.length := by
  have hdrop (l : List Char) := (List.dropWhile_sublist Number.isDigit (l := l)).length_le
  unfold readFraction at h
  grind

theorem length_readMinus_le (cs : List Char) : (readMinus cs).2.length ≤ cs.length := by
  unfold readMinus
  split <;> simp

theorem length_splitSign_le (cs : List Char) : (Number.splitSign cs).2.length ≤ cs.length := by
  unfold Number.splitSign
  split <;> simp

theorem length_readExponent_le {cs rest : List Char} {exponent : Option (Bool × List Char)}
    (h : readExponent cs = some (exponent, rest)) : rest.length ≤ cs.length := by
  have hdrop (l : List Char) := (List.dropWhile_sublist Number.isDigit (l := l)).length_le
  have hsign := length_splitSign_le
  unfold readExponent at h
  grind

theorem length_takeWhile_add_dropWhile {α : Type} (p : α → Bool) (l : List α) :
    (l.takeWhile p).length + (l.dropWhile p).length = l.length := by
  rw [← List.length_append, List.takeWhile_append_dropWhile]

theorem length_readLexeme_lt {cs rest : List Char} {l : Lexeme}
    (h : readLexeme cs = some (l, rest)) : rest.length < cs.length := by
  have hminus := length_readMinus_le cs
  have hsplit := length_takeWhile_add_dropWhile Number.isDigit (readMinus cs).2
  simp only [readLexeme] at h
  split at h
  · cases h
  · rename_i hwhole
    have hpos : 0 < ((readMinus cs).2.takeWhile Number.isDigit).length := by
      rw [List.length_pos_iff]
      intro hnil
      simp [hnil] at hwhole
    split at h
    · cases h
    · rename_i fraction tail hfraction
      have hle := length_readFraction_le hfraction
      obtain ⟨⟨exponent, left⟩, hexponent, heq⟩ := Option.map_eq_some_iff.1 h
      have hle' := length_readExponent_le hexponent
      cases heq
      simp only
      omega

end SheetBoard.Json
