import SheetBoard.Json.Numeral
import SheetBoard.Json.Units

/-! Reading documents of the JSON format. -/

namespace SheetBoard.Json

def isBlank (c : Char) : Bool := c = ' ' || c = '\n' || c = '\t' || c = '\r'

def skipBlanks (cs : List Char) : List Char := cs.dropWhile isBlank

theorem length_skipBlanks_le (cs : List Char) : (skipBlanks cs).length ≤ cs.length :=
  (List.dropWhile_sublist isBlank).length_le

/-- What is left of `cs` after at least one character was taken. -/
abbrev Rest (cs : List Char) := { rest : List Char // rest.length < cs.length }

/-- Takes a given character after any blanks. -/
def takeChar? (c : Char) (cs : List Char) : Option (Rest cs) :=
  match h : skipBlanks cs with
  | [] => none
  | d :: rest =>
    if d = c then
      some ⟨rest, by
        have := length_skipBlanks_le cs
        simp only [h, List.length_cons] at this
        omega⟩
    else none

/-- Takes a given word. -/
def takeWord? : (word cs : List Char) → Option (List Char)
  | [], cs => some cs
  | w :: word, c :: cs => if w = c then takeWord? word cs else none
  | _ :: _, [] => none

theorem length_takeWord? {word cs rest : List Char} (h : takeWord? word cs = some rest) :
    rest.length + word.length = cs.length := by
  fun_induction takeWord? word cs with
  | case1 cs => simp_all
  | case2 word c cs ih =>
    have := ih h
    simp only [List.length_cons]
    omega
  | case3 => cases h
  | case4 => cases h

/-- The words with a value. -/
def words : List (List Char × Json) :=
  [("null".toList, .null), ("true".toList, .boolean true), ("false".toList, .boolean false)]

/-- Reads a word or a number. -/
def readAtom (cs : List Char) : Option (Json × List Char) :=
  (words.findSome? fun (word, v) => (takeWord? word cs).map fun rest => (v, rest)).orElse fun _ =>
    (readLexeme cs).map fun (l, rest) => (l.value, rest)

theorem length_readAtom_lt {cs rest : List Char} {v : Json} (h : readAtom cs = some (v, rest)) :
    rest.length < cs.length := by
  unfold readAtom at h
  rcases hword : words.findSome? fun (word, v) => (takeWord? word cs).map fun rest => (v, rest) with
    _ | ⟨w, left⟩
  · rw [hword] at h
    obtain ⟨⟨l, left⟩, hl, heq⟩ := Option.map_eq_some_iff.1 h
    cases heq
    exact length_readLexeme_lt hl
  · rw [hword] at h
    obtain ⟨⟨word, w'⟩, hmem, hw⟩ := List.exists_of_findSome?_eq_some hword
    obtain ⟨left', hleft, heq⟩ := Option.map_eq_some_iff.1 hw
    cases heq
    cases h
    have hlength := length_takeWord? hleft
    have hpos : 0 < word.length := by
      simp only [words, List.mem_cons, List.not_mem_nil, or_false, Prod.mk.injEq] at hmem
      rcases hmem with ⟨rfl, _⟩ | ⟨rfl, _⟩ | ⟨rfl, _⟩ <;> decide
    omega

/-- Reads the key of a field and the colon after it. -/
def readKey (cs : List Char) : Option (String × Rest cs) :=
  match takeChar? '"' cs with
  | none => none
  | some ⟨body, hbody⟩ =>
    match h : readUnits body with
    | none => none
    | some (units, rest) =>
      match joinUnits units, takeChar? ':' rest with
      | some key, some ⟨tail, htail⟩ =>
        some (.ofList key, ⟨tail, by
          have := length_readUnits_lt h
          omega⟩)
      | _, _ => none

/-- The value of a text's code units. -/
def textOfUnits (units : List Nat) : Json :=
  match joinUnits units with
  | some s => .text (.ofList s)
  | none => .unusable

/-- Reads a text, a word or a number. -/
def readScalar (cs : List Char) : Option (Json × Rest cs) :=
  match takeChar? '"' cs with
  | some ⟨body, hbody⟩ =>
    match h : readUnits body with
    | none => none
    | some (units, rest) =>
      some (textOfUnits units, ⟨rest, by
        have := length_readUnits_lt h
        omega⟩)
  | none =>
    match h : readAtom (skipBlanks cs) with
    | none => none
    | some (v, rest) =>
      some (v, ⟨rest, Nat.lt_of_lt_of_le (length_readAtom_lt h) (length_skipBlanks_le cs)⟩)

mutual

/-- Reads a value, with any blanks before it. -/
def readValue (cs : List Char) : Option (Json × Rest cs) :=
  match takeChar? '[' cs with
  | some ⟨body, hbody⟩ =>
    match takeChar? ']' body with
    | some ⟨rest, hrest⟩ => some (.array [], ⟨rest, by omega⟩)
    | none =>
      match readItems body with
      | none => none
      | some (items, ⟨rest, hrest⟩) => some (.array items, ⟨rest, by omega⟩)
  | none =>
    match takeChar? '\x7b' cs with
    | some ⟨body, hbody⟩ =>
      match takeChar? '\x7d' body with
      | some ⟨rest, hrest⟩ => some (.object [], ⟨rest, by omega⟩)
      | none =>
        match readFields body with
        | none => none
        | some (fields, ⟨rest, hrest⟩) => some (.object fields, ⟨rest, by omega⟩)
    | none => readScalar cs
termination_by (cs.length, 0)

/-- Reads the items of an array up to its end; there is at least one. -/
def readItems (cs : List Char) : Option (List Json × Rest cs) :=
  match readValue cs with
  | none => none
  | some (v, ⟨left, hleft⟩) =>
    match takeChar? ',' left with
    | some ⟨more, hmore⟩ =>
      match readItems more with
      | none => none
      | some (items, ⟨rest, hrest⟩) => some (v :: items, ⟨rest, by omega⟩)
    | none =>
      match takeChar? ']' left with
      | none => none
      | some ⟨rest, hrest⟩ => some ([v], ⟨rest, by omega⟩)
termination_by (cs.length, 1)

/-- Reads the fields of an object up to its end; there is at least one. -/
def readFields (cs : List Char) : Option (List (String × Json) × Rest cs) :=
  match readKey cs with
  | none => none
  | some (key, ⟨body, hbody⟩) =>
    match readValue body with
    | none => none
    | some (v, ⟨left, hleft⟩) =>
      match takeChar? ',' left with
      | some ⟨more, hmore⟩ =>
        match readFields more with
        | none => none
        | some (fields, ⟨rest, hrest⟩) => some ((key, v) :: fields, ⟨rest, by omega⟩)
      | none =>
        match takeChar? '\x7d' left with
        | none => none
        | some ⟨rest, hrest⟩ => some ([(key, v)], ⟨rest, by omega⟩)
termination_by (cs.length, 0)

end

/-- Reads a whole document; only blanks may follow the value. -/
def read? (text : String) : Option Json :=
  match readValue text.toList with
  | none => none
  | some (v, ⟨rest, _⟩) => if (skipBlanks rest).isEmpty then some v else none

end SheetBoard.Json
