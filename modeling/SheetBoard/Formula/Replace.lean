import SheetBoard.Text.Blank

/-! Replacing what a pattern finds in a text, from left to right and without overlap. -/

namespace SheetBoard.Formula

/-- Looks for something at one place of a text, given the character before it. What is found comes
with the text after it. -/
abbrev Pattern (α : Type) := Option Char → List Char → Option (α × List Char)

/-- Writes `text` for the next `size` characters. -/
structure Edit where
  size : Nat
  text : List Char

/-- Applies the edits found at each place. The first `skip` characters belong to an earlier edit. -/
def replaceFrom (edit? : Option Char → List Char → Option Edit) (skip : Nat)
    (before : Option Char) : List Char → List Char
  | [] => []
  | c :: rest =>
    match skip with
    | skip + 1 => replaceFrom edit? skip (some c) rest
    | 0 =>
      match edit? before (c :: rest) with
      | some edit => edit.text ++ replaceFrom edit? (edit.size - 1) (some c) rest
      | none => c :: replaceFrom edit? 0 (some c) rest

/-- Replaces everything the pattern finds. What `form` refuses is kept, and the search goes on after
it. `form` is given the character before the place and the text after it. -/
def replaceAll {α : Type} (find : Pattern α)
    (form : Option Char → α → List Char → Option (List Char)) (cs : List Char) : List Char :=
  replaceFrom
    (fun before cs =>
      (find before cs).map fun (found, rest) =>
        let size := cs.length - rest.length
        ⟨size, (form before found rest).getD (cs.take size)⟩)
    0 none cs

/-- What the pattern finds. The first `skip` characters belong to an earlier find. -/
def findFrom {α : Type} (find : Pattern α) (skip : Nat) (before : Option Char) : List Char → List α
  | [] => []
  | c :: rest =>
    match skip with
    | skip + 1 => findFrom find skip (some c) rest
    | 0 =>
      match find before (c :: rest) with
      | some (found, left) => found :: findFrom find (rest.length - left.length) (some c) rest
      | none => findFrom find 0 (some c) rest

/-- Everything the pattern finds, in order. -/
def findAll {α : Type} (find : Pattern α) (cs : List Char) : List α := findFrom find 0 none cs

/-- The next character that is not blank opens a parenthesis, so what stands before it is a call. -/
def opensCall (rest : List Char) : Bool := (Text.trimStart rest).head? == some '('

/-- Replaces everything the pattern finds that is neither the name of a call nor a member after a
point. -/
def replaceReferences {α : Type} (find : Pattern α)
    (form : Option Char → α → List Char → Option (List Char)) (cs : List Char) : List Char :=
  replaceAll find
    (fun before found rest =>
      if opensCall rest || before == some '.' then none else form before found rest)
    cs

end SheetBoard.Formula
