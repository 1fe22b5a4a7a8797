import SheetBoard.Letters
import SheetBoard.Number.Layout

/-! The columns of a table: distinct names in order, each reached by its name or by its letters. -/

namespace SheetBoard

/-- The column names of a table, in order. -/
structure Schema where
  names : List String
  deriving Repr, DecidableEq, Inhabited

namespace Schema

def empty : Schema := ⟨[]⟩

/-- The `n`-th spelling that is tried for a header whose own spelling is taken. -/
def alternative (header : String) (n : Nat) : String :=
  header ++ "." ++ String.ofList (Number.digitsOf n)

/-- The header itself, or its first alternative that is not taken. One of `names.length + 1`
alternatives is always free. -/
def freeName (names : List String) (header : String) : String :=
  if header ∈ names then
    (((List.range (names.length + 1)).map fun n => alternative header (n + 1)).find?
      fun candidate => candidate ∉ names).getD header
  else header

/-- The schema of a list of headers; a repeated header gets a number. -/
def ofHeaders (headers : List String) : Schema :=
  ⟨headers.foldl (fun names header => names ++ [freeName names header]) []⟩

def size (s : Schema) : Nat := s.names.length

def contains (s : Schema) (name : String) : Bool := s.names.contains name

def indexOf? (s : Schema) (name : String) : Option Nat := s.names.idxOf? name

/-- The name of the column with the given letters. -/
def nameAt? (s : Schema) (letters : List Char) : Option String :=
  (Letters.toIndex? letters).bind fun i => s.names[i]?

/-- The letters of the column with the given name. -/
def lettersOf? (s : Schema) (name : String) : Option (List Char) :=
  (s.indexOf? name).map Letters.ofIndex

/-- Appends a column, unless there is one of that name, and gives the column's letters. -/
def extend (s : Schema) (name : String) : Schema × List Char :=
  match s.indexOf? name with
  | some i => (s, Letters.ofIndex i)
  | none => (⟨s.names ++ [name]⟩, Letters.ofIndex s.size)

/-- The letters and name of each column, in order. -/
def mapping (s : Schema) : List (String × String) :=
  s.names.zipIdx.map fun (name, i) => (String.ofList (Letters.ofIndex i), name)

/-- One `letters=name` entry for each column. -/
def display (s : Schema) : String :=
  String.intercalate ", " (s.mapping.map fun (letters, name) => letters ++ "=" ++ name)

end Schema

end SheetBoard
