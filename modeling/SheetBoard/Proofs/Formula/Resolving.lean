import SheetBoard.Proofs.Formula.Replacing

/-! Resolving references in pieces: each pass replaces one kind of reference by pieces that no later
pass touches, and leaves the other pieces as they are. -/

namespace SheetBoard.Formula

/-! ### What references are replaced by -/

/-- The pieces of a cell's literal. -/
def cellPieces (c : Cell) : List Piece :=
  if c.isMissing then [.numeral ['0']]
  else
    match c with
    | .empty => [.numeral ['0']]
    | .boolean b => [.truth false b]
    | .number x =>
      match (Number.display x).toList with
      | '-' :: digits => [.mark .negation, .numeral digits]
      | digits => [.numeral digits]
    | .text s => [.literal s.toList]

/-- The pieces of a call that fetches data of a column, with a row number if one is given. -/
def fetchPieces (callee : String) (name : String) (row : Option Nat) : List Piece :=
  .callee callee.toList :: .literal name.toList ::
    ((row.map fun n => [.mark .listComma, .numeral (Number.digitsOf n)]).getD [] ++ [.mark .right])

/-- The pieces that a reference becomes. -/
def Scope.pieces : Scope → Ref → List Piece
  | .row r, .cell letters _ =>
    ((r.getByLetters? letters.chars).map cellPieces).getD [.literal letters.chars]
  | .row r, .range letters _ _ =>
    ((r.getByLetters? letters.chars).map cellPieces).getD [.literal letters.chars]
  | .row r, .header name => ((r.get? name).map cellPieces).getD [.literal name.toList]
  | .columns schema, .cell letters n =>
    fetchPieces "getCellValue" (columnName schema letters.chars) (some (n - 1))
  | .columns schema, .range letters first _ =>
    fetchPieces "getColumnData" (columnName schema letters.chars) (first.filter (· ≠ 1))
  | .columns _, .header name => fetchPieces "getColumnData" name none

/-- Replaces the references of one kind. -/
def Scope.write (scope : Scope) (kind : Ref → Bool) : Piece → List Piece
  | .reference r => if kind r then scope.pieces r else [.reference r]
  | p => [p]

theorem Scope.write_of_ne (scope : Scope) (kind : Ref → Bool) {p : Piece}
    (h : ∀ r, p ≠ .reference r) : scope.write kind p = [p] := by
  cases p with
  | reference r => exact absurd rfl (h r)
  | _ => rfl

theorem textOf_cellPieces (c : Cell) : textOf (cellPieces c) = cellLiteral c := by
  unfold cellPieces cellLiteral
  split
  · rfl
  · cases c with
    | empty => rfl
    | boolean b => cases b <;> rfl
    | number x =>
        dsimp only
        split
        · simp [Piece.text, Mark.text, *]
        · simp [Piece.text]
    | text s => simp [Piece.text]

theorem textOf_fetchPieces (schema : Schema) (name : String) (start : Option Nat) :
    textOf (fetchPieces "getColumnData" name start) =
      (Scope.columns schema).column name (start.map Number.digitsOf) := by
  unfold Scope.column fetchPieces
  cases start with
  | none => simp [Piece.text, Mark.text]
  | some row => simp [Piece.text, Mark.text]

/-- Every column has a cell in the row. -/
def Scope.Full : Scope → Prop
  | .row r => ∀ name ∈ r.schema.names, (r.get? name).isSome = true
  | .columns _ => True

/-- The row number of a cell can be read. In one row it does not matter. -/
def Scope.Admits : Scope → Ref → Prop
  | .columns _, .cell _ n => 1 ≤ n ∧ n < Number.halfWord
  | _, _ => True

/-- Row numbers are read up to 63 bits. -/
theorem readInt?_digitsOf (n : Nat) : Number.readInt? (Number.digitsOf n) =
    if n < Number.halfWord then some (n : Int) else none := by
  obtain ⟨c, cs, hcs⟩ := List.exists_cons_of_ne_nil (Number.digitsOf_ne_nil n)
  have hdigits : ∀ d ∈ Number.digitsOf n, Number.isDigit d = true :=
    fun d => Number.isDigit_of_mem_digitsOf
  have hsign : Number.splitSign (Number.digitsOf n) = (false, Number.digitsOf n) := by
    rw [hcs]
    exact Number.splitSign_of_isDigit cs (hdigits c (by simp [hcs]))
  have hall : (Number.digitsOf n).all Number.isDigit = true := by simpa using hdigits
  have hempty : (Number.digitsOf n).isEmpty = false := by simp [hcs]
  simp only [Number.readInt?, hsign, hall, hempty, Number.natOfDigits_digitsOf]
  simp

theorem intText_pred {n : Nat} (h : 1 ≤ n) : intText ((n : Int) - 1) = Number.digitsOf (n - 1) := by
  obtain ⟨m, rfl⟩ := Nat.exists_eq_add_of_le' h
  simp [intText, Number.signed]

theorem nameAt?_mem {schema : Schema} {letters : List Char} {name : String}
    (h : schema.nameAt? letters = some name) : name ∈ schema.names := by
  obtain ⟨i, -, hi⟩ := Option.bind_eq_some_iff.1 h
  exact List.mem_of_getElem? hi

theorem textOf_pieces_header (scope : Scope) (name : String) :
    textOf (scope.pieces (.header name)) = scope.column name none := by
  cases scope with
  | row r =>
      unfold Scope.column Scope.pieces
      cases hget : r.get? name with
      | none => simp [hget, Piece.text]
      | some c => simp [hget, textOf_cellPieces]
  | columns schema => exact textOf_fetchPieces schema name none

theorem rowDigits_limit (first : Option Nat) :
    (if rowDigits first = [] ∨ rowDigits first = ['1'] then none else some (rowDigits first)) =
      (first.filter (· ≠ 1)).map Number.digitsOf := by
  cases first with
  | none => rfl
  | some row =>
      have hne : Number.digitsOf row ≠ [] := Number.digitsOf_ne_nil row
      have hone : Number.digitsOf row = ['1'] ↔ row = 1 := by
        constructor
        · intro h
          rw [← Number.natOfDigits_digitsOf row, h]
          rfl
        · rintro rfl
          decide +kernel
      have hdigits : rowDigits (some row) = Number.digitsOf row := rfl
      by_cases hrow : row = 1
      · rw [hdigits, if_pos (.inr (hone.2 hrow))]
        simp [Option.filter, hrow]
      · simp [hdigits, Option.filter, hone, hrow, hne]

/-- The text of a range, as its columns are found. -/
theorem textOf_pieces_range (scope : Scope) (letters : Capitals) (first last : Option Nat) :
    scope.Full → some (textOf (scope.pieces (.range letters first last))) =
      match scope, scope.schema.nameAt? letters.chars with
      | .row _, none => some (quote letters.chars)
      | _, some name => some (scope.column name ((first.filter (· ≠ 1)).map Number.digitsOf))
      | .columns _, none =>
        some (scope.column (.ofList letters.chars)
          ((first.filter (· ≠ 1)).map Number.digitsOf)) := by
  intro hfull
  cases scope with
  | row r =>
      cases hname : (Scope.row r).schema.nameAt? letters.chars with
      | none =>
          have hnone : r.schema.nameAt? letters.chars = none := hname
          simp [Scope.pieces, Row.getByLetters?, hnone, Piece.text]
      | some name =>
          have hsome : r.schema.nameAt? letters.chars = some name := hname
          obtain ⟨c, hc⟩ := Option.isSome_iff_exists.1 (hfull name (nameAt?_mem hsome))
          unfold Scope.column
          simp [Scope.pieces, Row.getByLetters?, hsome, hc, textOf_cellPieces]
  | columns schema =>
      have htext : textOf ((Scope.columns schema).pieces (.range letters first last)) =
          (Scope.columns schema).column (columnName schema letters.chars)
            ((first.filter (· ≠ 1)).map Number.digitsOf) := textOf_fetchPieces _ _ _
      rw [htext]
      cases hname : (Scope.columns schema).schema.nameAt? letters.chars with
      | none =>
          have hnone : schema.nameAt? letters.chars = none := hname
          simp [columnName, hnone]
      | some name =>
          have hsome : schema.nameAt? letters.chars = some name := hname
          simp [columnName, hsome]

theorem textOf_pieces_cell_row (r : Row) (letters : Capitals) (row : Nat) :
    textOf ((Scope.row r).pieces (.cell letters row)) =
      (((r.schema.nameAt? letters.chars).bind r.get?).map cellLiteral).getD
        (quote letters.chars) := by
  have hpieces : (Scope.row r).pieces (.cell letters row) =
      (((r.schema.nameAt? letters.chars).bind r.get?).map cellPieces).getD
        [.literal letters.chars] := rfl
  rw [hpieces]
  cases (r.schema.nameAt? letters.chars).bind r.get? with
  | none => simp [Piece.text]
  | some c => simp [textOf_cellPieces]

theorem textOf_pieces_cell_columns (schema : Schema) (letters : Capitals) {row : Nat}
    (h : 1 ≤ row ∧ row < Number.halfWord) :
    some (textOf ((Scope.columns schema).pieces (.cell letters row))) =
      (Number.readInt? (Number.digitsOf row)).map fun row =>
        "getCellValue(".toList ++
          quote (((schema.nameAt? letters.chars).map String.toList).getD letters.chars) ++
          [',', ' '] ++ intText (row - 1) ++ [')'] := by
  have hname : (columnName schema letters.chars).toList =
      ((schema.nameAt? letters.chars).map String.toList).getD letters.chars := by
    unfold columnName
    cases schema.nameAt? letters.chars <;> simp
  rw [readInt?_digitsOf, if_pos h.2, Option.map_some, intText_pred h.1, ← hname]
  simp [Scope.pieces, fetchPieces, Piece.text, Mark.text]

/-! ### Pieces that stay -/

/-- The words of formulas and scripts that are neither references nor calls. -/
def fixedWords : List (List Char) :=
  [Particle.word .ifWord, Particle.word .elseWord, Particle.word .andWord, Particle.word .orWord,
    Piece.truthText true true, Piece.truthText true false, Piece.truthText false true,
    Piece.truthText false false]

theorem isName_of_mem_fixedWords : ∀ w ∈ fixedWords, IsName w := by decide

theorem Particle.word_mem (p : Particle) : p.word ∈ fixedWords := by cases p <;> decide

theorem truthText_mem (capitals value : Bool) : Piece.truthText capitals value ∈ fixedWords := by
  cases capitals <;> cases value <;> decide

/-- The pattern does not match a fixed word. -/
def Spares {α : Type} (find : Pattern α) : Prop :=
  ∀ w ∈ fixedWords, ∀ before rest, rest.head?.any Text.isWordChar = false →
    rest.head? ≠ some ':' → find before (w ++ rest) = none

section

variable {α : Type} {find : Pattern α} {form : Option Char → α → List Char → Option (List Char)}
  {write : Piece → List Piece}

theorem writesPiece_mark (hword : WordPattern find) (hspares : Spares find) {m : Mark}
    (hwrite : write (.mark m) = [.mark m]) : WritesPiece find form write (.mark m) := by
  intro before rest _ _
  have hstays : Replaces (editOf find form) before m.text m.text rest := by
    cases m with
    | particle p =>
        have hblank : ∀ before rest, Replaces (editOf find form) before [' '] [' '] rest :=
          fun _ _ => hword.replaces_plain (by decide)
        have hw : Replaces (editOf find form) (some ' ') p.word p.word ([' '] ++ rest) :=
          hword.replaces_name (isName_of_mem_fixedWords _ p.word_mem)
            (hspares _ p.word_mem _ _ rfl (by simp))
        exact (hblank _ _).append (hw.append (hblank _ _))
    | operator op => exact hword.replaces_plain (by cases op <;> decide)
    | scriptOperator op => exact hword.replaces_plain (by cases op <;> decide)
    | _ => exact hword.replaces_plain (by decide)
  simpa [hwrite, Piece.text] using hstays

theorem writesPiece_numeral (hword : WordPattern find) {digits : List Char}
    (hdigits : Number.IsNumeral digits) (hwrite : write (.numeral digits) = [.numeral digits]) :
    WritesPiece find form write (.numeral digits) := by
  intro before rest _ _
  have hstays : Replaces (editOf find form) before digits digits rest := by
    refine hword.replaces_plain fun c hc => ?_
    rcases isDigit_or_point_of_isNumeral hdigits c hc with hc | rfl
    · exact isNameStart_of_isDigit hc
    · rfl
  simpa [hwrite, Piece.text] using hstays

theorem writesPiece_truth (hword : WordPattern find) (hspares : Spares find)
    {capitals value : Bool} (hwrite : write (.truth capitals value) = [.truth capitals value]) :
    WritesPiece find form write (.truth capitals value) := by
  intro before rest _ hrest
  have hmem := truthText_mem capitals value
  have hstays : Replaces (editOf find form) before (Piece.truthText capitals value)
      (Piece.truthText capitals value) rest :=
    hword.replaces_name (isName_of_mem_fixedWords _ hmem)
      (hspares _ hmem before rest (hrest rfl).word (hrest rfl).colon)
  simpa [hwrite, Piece.text] using hstays

/-- References are neither the names of calls nor members after a point. -/
def referenceForm (form : Option Char → α → List Char → Option (List Char))
    (before : Option Char) (found : α) (rest : List Char) : Option (List Char) :=
  if opensCall rest || before == some '.' then none else form before found rest

theorem replaceReferences_eq (find : Pattern α)
    (form : Option Char → α → List Char → Option (List Char)) :
    replaceReferences find form = replaceAll find (referenceForm form) := rfl

theorem referenceForm_call (before : Option Char) (found : α) (rest : List Char) :
    referenceForm form before found ('(' :: rest) = none := by
  have hopens : opensCall ('(' :: rest) = true := rfl
  simp [referenceForm, hopens]

theorem referenceForm_none {before : Option Char} {found : α} {rest : List Char}
    (h : form before found rest = none) : referenceForm form before found rest = none := by
  simp [referenceForm, h]

theorem referenceForm_operand {before : Option Char} {rest : List Char} (hbefore : Clear before)
    (hrest : Ends rest) (found : α) :
    referenceForm form before found rest = form before found rest := by
  simp [referenceForm, hrest.opensCall, hbefore.beq_some (c := '.') (by decide)]

/-- The name of a call stays, even if the pattern matches it. -/
theorem writesPiece_callee (hword : WordPattern find) {name : List Char} (hname : IsName name)
    (hwrite : write (.callee name) = [.callee name])
    (hfind : ∀ before rest found tail,
      find before (name ++ '(' :: rest) = some (found, tail) → tail = '(' :: rest) :
    WritesPiece find (referenceForm form) write (.callee name) := by
  intro before rest _ _
  have hparen :
      Replaces (editOf find (referenceForm form)) (lastChar before name) ['('] ['('] rest :=
    hword.replaces_plain (by decide)
  have hstays : Replaces (editOf find (referenceForm form)) before name name (['('] ++ rest) := by
    cases hfound : find before (name ++ '(' :: rest) with
    | none => exact hword.replaces_name hname hfound
    | some result =>
        obtain ⟨found, tail⟩ := result
        obtain rfl := hfind before rest found tail hfound
        have hkept : Replaces (editOf find (referenceForm form)) before name
            ((referenceForm form before found ('(' :: rest)).getD name) ('(' :: rest) :=
          replaces_found hname.ne_nil hfound
        rwa [referenceForm_call] at hkept
  simpa [hwrite, Piece.text] using hstays.append hparen

end

/-! ### The spelling of references -/

theorem PlainHeaders.not_contains {schema : Schema} (h : PlainHeaders schema) {cs : List Char}
    (hcs : isReference cs = true) : schema.contains (.ofList cs) = false := by
  cases hcontains : schema.contains (.ofList cs) with
  | false => rfl
  | true =>
      have hmem : String.ofList cs ∈ schema.names := by simpa [Schema.contains] using hcontains
      have hnot := (h _ hmem).2.2
      rw [String.toList_ofList, hcs] at hnot
      cases hnot

/-- Letters name a column by its place alone, since no header is spelled like that. -/
theorem PlainHeaders.columnByLetters? {schema : Schema} (h : PlainHeaders schema)
    (letters : Capitals) :
    columnByLetters? schema letters.chars = schema.nameAt? letters.chars := by
  have hletters : isReference (letters.chars ++ []) = true := isReference_letters letters (by simp)
  rw [List.append_nil] at hletters
  simp [Formula.columnByLetters?, h.not_contains hletters]

/-! ### The passes -/

def Ref.isCell : Ref → Bool
  | .cell _ _ => true
  | _ => false

def Ref.isRange : Ref → Bool
  | .range _ _ _ => true
  | _ => false

def Ref.isHeaderOf (names : List String) : Ref → Bool
  | .header name => name ∈ names
  | _ => false

theorem Ref.exists_of_isRange {r : Ref} (h : r.isRange = true) :
    ∃ letters first last, r = .range letters first last := by
  cases r with
  | range letters first last => exact ⟨letters, first, last, rfl⟩
  | _ => cases h

theorem Ref.isName_text {r : Ref} (h : r.IsPlain) (hrange : r.isRange = false) : IsName r.text := by
  cases r with
  | cell letters row => exact .cell letters row
  | range letters first last => cases hrange
  | header name => exact h.1

theorem spares_nameRange : Spares nameRange := fun w hw _ _ hrest hcolon =>
  nameRange_eq_none (isName_of_mem_fixedWords w hw) hrest hcolon

theorem spares_letterRange : Spares letterRange := fun w hw _ _ hrest hcolon =>
  letterRange_eq_none (isName_of_mem_fixedWords w hw).all hrest hcolon

theorem spares_cellReference : Spares cellReference := by
  intro w hw before rest hrest _
  refine cellReference_eq_none (isName_of_mem_fixedWords w hw).all hrest fun r tail hread => ?_
  have hmiss : ∀ w ∈ fixedWords,
      (Reference.read? w).all (fun found => found.1.digits = [] ∨ found.2 ≠ []) = true := by
    decide
  simpa [hread] using hmiss w hw

theorem spares_wholeName {name : String} (hname : IsName name.toList)
    (hreserved : name ∉ reservedWords) : Spares (wholeName name.toList) := by
  intro w hw before rest hrest _
  refine wholeName_eq_none hname (isName_of_mem_fixedWords w hw).all hrest ?_
  have hwords : ∀ w ∈ fixedWords, String.ofList w ∈ reservedWords := by decide
  rintro rfl
  exact hreserved (by simpa using hwords _ hw)

section

variable {α : Type} {find : Pattern α} {form : Option Char → α → List Char → Option (List Char)}
  {write : Piece → List Piece} {r : Ref}

theorem writesPiece_kept (hword : WordPattern find) (hname : IsName r.text)
    (hwrite : write (.reference r) = [.reference r])
    (hfind : ∀ before rest, Ends rest → find before (r.text ++ rest) = none) :
    WritesPiece find form write (.reference r) := by
  intro before rest _ hrest
  have hstays : Replaces (editOf find form) before r.text r.text rest :=
    hword.replaces_name hname (hfind before rest (hrest rfl))
  simpa [hwrite, Piece.text] using hstays

theorem writesPiece_found (hne : r.text ≠ [])
    (hfind : ∀ before rest, Clear before → Ends rest → ∃ found,
      find before (r.text ++ rest) = some (found, rest) ∧
        form before found rest = some (textOf (write (.reference r)))) :
    WritesPiece find (referenceForm form) write (.reference r) := by
  intro before rest hbefore hrest
  obtain ⟨found, hfound, hform⟩ := hfind before rest (hbefore rfl) (hrest rfl)
  have hreplaced : Replaces (editOf find (referenceForm form)) before r.text
      ((referenceForm form before found rest).getD r.text) rest := replaces_found hne hfound
  rwa [referenceForm_operand (hbefore rfl) (hrest rfl), hform, Option.getD_some] at hreplaced

end

section

variable {a b : List Char} {before : Option Char} {rest : List Char} (hrest : Ends rest)

include hrest

theorem letterRange_colon (hbefore : Clear before) {first last : Reference}
    (hfirst : Reference.read? a = some (first, [])) (hlast : Reference.read? b = some (last, [])) :
    letterRange before (a ++ ':' :: (b ++ rest)) = some ((first, last), rest) := by
  have hcolon : (':' :: (b ++ rest)).head?.any Text.isWordChar = false := rfl
  simp [letterRange, read?_append hcolon, read?_append hrest.word, hfirst, hlast, ↓guard_eq_ite,
    hbefore.startsWord, endsWord, hrest.word]

/-- Two names around a colon are found, unless one of them has a single character. -/
theorem nameRange_colon (ha : IsName a) (hb : IsName b) (before : Option Char) :
    nameRange before (a ++ ':' :: (b ++ rest)) =
      if startsWord before = true ∧ 2 ≤ a.length ∧ 2 ≤ b.length then some ((a, b), rest)
      else none := by
  have hcolon : (':' :: (b ++ rest)).head?.any Text.isWordChar = false := rfl
  simp only [nameRange, ↓guard_eq_ite, readName?_append hcolon ha]
  cases startsWord before with
  | false => simp
  | true =>
      by_cases hfirst : 2 ≤ a.length
      · by_cases hlast : 2 ≤ b.length
        · simp [hfirst, hlast, readName?_append hrest.word hb, endsWord, hrest.word]
        · simp [hfirst, hlast, readName?_append hrest.word hb]
      · simp [hfirst]

/-- A range stays where it is not found. -/
theorem replaces_nameRange_of_eq_none (ha : IsName a) (hb : IsName b)
    {form : Option Char → List Char × List Char → List Char → Option (List Char)}
    (hnone : nameRange before (a ++ ':' :: (b ++ rest)) = none) :
    Replaces (editOf nameRange form) before (a ++ ':' :: b) (a ++ ':' :: b) rest := by
  have hcolon : Replaces (editOf nameRange form) (lastChar before a) [':'] [':'] (b ++ rest) :=
    wordPattern_nameRange.replaces_plain (by decide)
  have hlast : Replaces (editOf nameRange form) (lastChar (lastChar before a) [':']) b b rest :=
    wordPattern_nameRange.replaces_name hb (nameRange_eq_none hb hrest.word hrest.colon)
  have hfirst : Replaces (editOf nameRange form) before a a ([':'] ++ b ++ rest) :=
    wordPattern_nameRange.replaces_name ha (by simpa using hnone)
  exact hfirst.append (hcolon.append hlast)

/-- A range stays where ranges of names are replaced, if `form` refuses its ends. -/
theorem replaces_nameRange (ha : IsName a) (hb : IsName b)
    {form : Option Char → List Char × List Char → List Char → Option (List Char)}
    (hform : form before (a, b) rest = none) :
    Replaces (editOf nameRange form) before (a ++ ':' :: b) (a ++ ':' :: b) rest := by
  have htext := nameRange_colon hrest ha hb before
  split at htext
  · have hjoined : a ++ ':' :: (b ++ rest) = (a ++ ':' :: b) ++ rest := by simp
    rw [hjoined] at htext
    have hkept : Replaces (editOf nameRange form) before (a ++ ':' :: b)
        ((form before (a, b) rest).getD (a ++ ':' :: b)) rest := replaces_found (by simp) htext
    rwa [hform] at hkept
  · exact replaces_nameRange_of_eq_none hrest ha hb htext

end

theorem Ref.text_range_append (letters : Capitals) (first last : Option Nat) (rest : List Char) :
    (Ref.range letters first last).text ++ rest =
      (letters.chars ++ rowDigits first) ++ ':' :: ((letters.chars ++ rowDigits last) ++ rest) := by
  simp [Ref.text]

theorem read?_row (letters : Capitals) (row : Option Nat) :
    Reference.read? (letters.chars ++ rowDigits row) = some (⟨letters.chars, rowDigits row⟩, []) :=
  read?_letters letters fun _ h => isDecimalDigit_of_isDigit (isDigit_of_mem_rowDigits h)

theorem isReference_row (letters : Capitals) (row : Option Nat) :
    isReference (letters.chars ++ rowDigits row) = true :=
  isReference_letters letters fun _ h => isDecimalDigit_of_isDigit (isDigit_of_mem_rowDigits h)

section

variable {scope : Scope} (hheaders : PlainHeaders scope.schema) {ps : List Piece}
  (hchain : ps.IsChain Piece.Adjacent) (hvalid : ∀ p ∈ ps, p.Valid)

include hchain hvalid

/-- What a pass makes of pieces, from what it makes of references. -/
theorem editUnquoted_references {α : Type} {find : Pattern α}
    {form : Option Char → α → List Char → Option (List Char)} {write : Piece → List Piece}
    (hword : WordPattern find) (hspares : Spares find)
    (hwrite : ∀ p, (∀ r, p ≠ .reference r) → write p = [p])
    (hcallee : ∀ name, IsName name → ∀ before rest found tail,
      find before (name ++ '(' :: rest) = some (found, tail) → tail = '(' :: rest)
    (hreference : ∀ r, .reference r ∈ ps → r.IsPlain →
      WritesPiece find (referenceForm form) write (.reference r)) :
    editUnquoted (replaceReferences find form) (textOf ps) = textOf (ps.flatMap write) := by
  rw [replaceReferences_eq]
  refine editUnquoted_textOf hchain hvalid (fun p hp hliteral => ?_) (fun s => hwrite _ (by simp))
  have hpvalid := hvalid p hp
  cases p with
  | mark m => exact writesPiece_mark hword hspares (hwrite _ (by simp))
  | callee name =>
      exact writesPiece_callee hword hpvalid (hwrite _ (by simp)) (hcallee name hpvalid)
  | numeral digits => exact writesPiece_numeral hword hpvalid (hwrite _ (by simp))
  | literal value => cases hliteral
  | truth capitals value => exact writesPiece_truth hword hspares (hwrite _ (by simp))
  | reference r => exact hreference r hp hpvalid

include hheaders

/-- Ranges of names are left alone: both ends of a range are spelled like references. -/
theorem resolveNameRanges_textOf :
    editUnquoted (resolveNameRanges scope) (textOf ps) = textOf ps := by
  have hpass : editUnquoted (resolveNameRanges scope) (textOf ps) =
      textOf (ps.flatMap fun p => [p]) := by
    refine editUnquoted_references hchain hvalid wordPattern_nameRange spares_nameRange
      (fun _ _ => rfl) ?_ ?_
    · intro name hname before rest found tail hfound
      rw [nameRange_eq_none hname rfl (by simp)] at hfound
      cases hfound
    · intro r _ hr
      cases hrange : r.isRange with
      | false =>
          exact writesPiece_kept wordPattern_nameRange (r.isName_text hr hrange) rfl
            fun _ _ hrest => nameRange_eq_none (r.isName_text hr hrange) hrest.word hrest.colon
      | true =>
          obtain ⟨letters, first, last, rfl⟩ := Ref.exists_of_isRange hrange
          intro before rest _ hrest
          simp only [textOf_cons, textOf_nil, List.append_nil]
          refine replaces_nameRange (hrest rfl) (.row letters first) (.row letters last)
            (referenceForm_none ?_)
          have ha := isReference_row letters first
          have hb := isReference_row letters last
          have hbase : scope.schema.contains (.ofList
              (if (letters.chars ++ rowDigits last).length ≤
                  (letters.chars ++ rowDigits first).length
                then letters.chars ++ rowDigits last else letters.chars ++ rowDigits first)) =
              false := by
            split
            · exact hheaders.not_contains hb
            · exact hheaders.not_contains ha
          simp only [ha, hb, hbase]
          simp
  rwa [List.flatMap_singleton'] at hpass

theorem resolveLetterRanges_textOf (hfull : scope.Full) :
    editUnquoted (resolveLetterRanges scope) (textOf ps) =
      textOf (ps.flatMap (scope.write Ref.isRange)) := by
  refine editUnquoted_references hchain hvalid wordPattern_letterRange spares_letterRange
    (fun p hp => scope.write_of_ne _ hp) ?_ ?_
  · intro name hname before rest found tail hfound
    rw [letterRange_eq_none hname.all rfl (by simp)] at hfound
    cases hfound
  · intro r _ hr
    cases hrange : r.isRange with
    | false =>
        have hname := r.isName_text hr hrange
        exact writesPiece_kept wordPattern_letterRange hname (by simp [Scope.write, hrange])
          fun _ _ hrest => letterRange_eq_none hname.all hrest.word hrest.colon
    | true =>
        obtain ⟨letters, first, last, rfl⟩ := Ref.exists_of_isRange hrange
        refine writesPiece_found (by simp [Ref.text]) fun before rest hbefore hrest => ?_
        rw [Ref.text_range_append]
        refine ⟨_, letterRange_colon hrest hbefore (read?_row letters first)
          (read?_row letters last), ?_⟩
        have hwrite : scope.write Ref.isRange (.reference (.range letters first last)) =
            scope.pieces (.range letters first last) := by simp [Scope.write, hrange]
        rw [hwrite, textOf_pieces_range scope letters first last hfull, ← rowDigits_limit,
          ← hheaders.columnByLetters?]
        dsimp only
        exact (if_neg (by simp)).trans rfl

theorem resolveCells_textOf (hranges : ∀ r, .reference r ∈ ps → r.isRange = false)
    (hrows : ∀ r, .reference r ∈ ps → scope.Admits r) :
    editUnquoted (resolveCells scope) (textOf ps) =
      textOf (ps.flatMap (scope.write Ref.isCell)) := by
  refine editUnquoted_references hchain hvalid wordPattern_cellReference spares_cellReference
    (fun p hp => scope.write_of_ne _ hp) ?_ ?_
  · intro name hname before rest found tail hfound
    exact rest_of_cellReference hname.all rfl hfound
  · intro r hmem hr
    have hname := r.isName_text hr (hranges r hmem)
    cases r with
    | cell letters row =>
        refine writesPiece_found hname.ne_nil fun before rest hbefore hrest => ?_
        have hread := read?_letters letters fun c hc =>
          isDecimalDigit_of_isDigit (Number.isDigit_of_mem_digitsOf (n := row) hc)
        refine ⟨_, cellReference_of_read? hbefore hrest.word hread (Number.digitsOf_ne_nil row), ?_⟩
        have hafter : (rest.head? == some ':') = false := by simpa using hrest.colon
        simp only [hafter, hbefore.beq_some (c := ':') (by decide), hheaders.columnByLetters?]
        have hadmits := hrows _ hmem
        cases scope with
        | row r => exact congrArg some (textOf_pieces_cell_row r letters row).symm
        | columns schema => exact (textOf_pieces_cell_columns schema letters hadmits).symm
    | range letters first last => cases hranges _ hmem
    | header name =>
        have hleft : ∀ r tail, Reference.read? name.toList = some (r, tail) → tail ≠ [] := by
          rintro r tail hread rfl
          have hnot := hr.2.2
          simp [isReference, hread] at hnot
        exact writesPiece_kept wordPattern_cellReference hname rfl fun _ _ hrest =>
          cellReference_eq_none hname.all hrest.word fun r tail hread => .inr (hleft r tail hread)

omit hheaders

variable (scope) in
theorem resolveName_textOf {name : String} (hname : (Ref.header name).IsPlain)
    (hranges : ∀ r, .reference r ∈ ps → r.isRange = false)
    (hcells : ∀ r, .reference r ∈ ps → r.isCell = false) :
    editUnquoted (replaceReferences (wholeName name.toList)
      fun _ _ _ => some (scope.column name none)) (textOf ps) =
      textOf (ps.flatMap (scope.write (Ref.isHeaderOf [name]))) := by
  have hword := wordPattern_wholeName hname.1
  refine editUnquoted_references hchain hvalid hword (spares_wholeName hname.1 hname.2.1)
    (fun p hp => scope.write_of_ne _ hp) ?_ ?_
  · intro callee hcallee before rest found tail hfound
    by_cases hsame : name.toList = callee
    · subst hsame
      exact rest_of_wholeName hfound
    · rw [wholeName_eq_none hname.1 hcallee.all rfl hsame] at hfound
      cases hfound
  · intro r hmem hr
    cases r with
    | cell letters row => cases hcells _ hmem
    | range letters first last => cases hranges _ hmem
    | header other =>
        by_cases hsame : other = name
        · subst hsame
          refine writesPiece_found hname.1.ne_nil fun before rest hbefore hrest => ?_
          refine ⟨_, wholeName_self hbefore hname.1 hrest.word, ?_⟩
          have hwrite : scope.write (Ref.isHeaderOf [other]) (.reference (.header other)) =
              scope.pieces (.header other) := by simp [Scope.write, Ref.isHeaderOf]
          rw [hwrite, textOf_pieces_header]
        · have hne : name.toList ≠ other.toList := fun h => hsame (String.toList_inj.1 h.symm)
          refine writesPiece_kept hword hr.1 (by simp [Scope.write, Ref.isHeaderOf, hsame]) ?_
          exact fun _ _ hrest => wholeName_eq_none hname.1 hr.1.all hrest.word hne

end

/-! ### All passes -/

theorem reference_notMem_cellPieces (c : Cell) (r : Ref) : .reference r ∉ cellPieces c := by
  unfold cellPieces
  split
  · simp
  · cases c with
    | number x =>
        dsimp only
        split <;> simp
    | _ => simp

theorem reference_notMem_fetchPieces (callee name : String) (row : Option Nat) (r : Ref) :
    .reference r ∉ fetchPieces callee name row := by
  cases row <;> simp [fetchPieces]

/-- What a reference becomes holds no further references. -/
theorem Scope.reference_notMem_pieces (scope : Scope) (r s : Ref) :
    .reference s ∉ scope.pieces r := by
  have hcell : ∀ (c : Option Cell) (letters : List Char),
      .reference s ∉ (c.map cellPieces).getD [.literal letters] := by
    intro c letters
    cases c with
    | none => simp
    | some c => exact reference_notMem_cellPieces c s
  cases scope with
  | row row => cases r <;> exact hcell _ _
  | columns schema => cases r <;> exact reference_notMem_fetchPieces _ _ _ s

theorem Scope.mem_write {scope : Scope} {kind : Ref → Bool} {ps : List Piece} {r : Ref}
    (h : .reference r ∈ ps.flatMap (scope.write kind)) : .reference r ∈ ps ∧ kind r = false := by
  obtain ⟨p, hp, hr⟩ := List.mem_flatMap.1 h
  cases p with
  | reference s =>
      simp only [write] at hr
      split at hr
      · exact absurd hr (scope.reference_notMem_pieces s r)
      · rename_i hkind
        obtain rfl : r = s := by simpa using hr
        exact ⟨hp, by simpa using hkind⟩
  | _ => simp [write] at hr

theorem Scope.write_write (scope : Scope) (kind more : Ref → Bool) (ps : List Piece) :
    (ps.flatMap (scope.write kind)).flatMap (scope.write more) =
      ps.flatMap (scope.write fun r => kind r || more r) := by
  rw [List.flatMap_assoc]
  refine List.flatMap_congr fun p _ => ?_
  have hkept : ∀ qs : List Piece, (∀ r, .reference r ∉ qs) →
      qs.flatMap (scope.write more) = qs := by
    intro qs hqs
    induction qs with
    | nil => rfl
    | cons q qs ih =>
        have hq : ∀ r, q ≠ .reference r := by
          rintro r rfl
          exact hqs r (by simp)
        rw [List.flatMap_cons, scope.write_of_ne more hq, ih fun r hr => hqs r (by simp [hr])]
        rfl
  cases p with
  | reference r =>
      cases hkind : kind r with
      | true => simp [write, hkind, hkept _ (scope.reference_notMem_pieces r)]
      | false => simp [write, hkind]
  | _ => simp [write]

/-- References become operands, of valid pieces. -/
structure Scope.Sound (scope : Scope) : Prop where
  headers : PlainHeaders scope.schema
  full : scope.Full
  operand : ∀ r, IsOperand (scope.pieces r)
  valid : ∀ r, ∀ p ∈ scope.pieces r, p.Valid

theorem Scope.write_cases (scope : Scope) (kind : Ref → Bool) (p : Piece) :
    scope.write kind p = [p] ∨ ∃ r, p = .reference r ∧ scope.write kind p = scope.pieces r := by
  cases p with
  | reference r =>
      cases hkind : kind r with
      | true => exact .inr ⟨r, rfl, by simp [write, hkind]⟩
      | false => exact .inl (by simp [write, hkind])
  | _ => exact .inl rfl

namespace Scope.Sound

variable {scope : Scope} (h : scope.Sound) (kind : Ref → Bool) {ps : List Piece}

include h

theorem write_ne_nil (p : Piece) : scope.write kind p ≠ [] := by
  rcases scope.write_cases kind p with hp | ⟨r, -, hp⟩
  · simp [hp]
  · rw [hp]
    exact (h.operand r).ne_nil

theorem isChain_write (p : Piece) : (scope.write kind p).IsChain Piece.Adjacent := by
  rcases scope.write_cases kind p with hp | ⟨r, -, hp⟩
  · rw [hp]
    exact .singleton p
  · rw [hp]
    exact (h.operand r).chain

theorem valid_write (hvalid : ∀ p ∈ ps, p.Valid) :
    ∀ p ∈ ps.flatMap (scope.write kind), p.Valid := by
  intro q hq
  obtain ⟨p, hp, hqp⟩ := List.mem_flatMap.1 hq
  rcases scope.write_cases kind p with hwrite | ⟨r, -, hwrite⟩
  · rw [hwrite] at hqp
    obtain rfl := List.mem_singleton.1 hqp
    exact hvalid q hp
  · rw [hwrite] at hqp
    exact h.valid r q hqp

/-- Neighbours stay neighbours: a reference is an operand, and becomes one. -/
theorem adjacent_write {p q x y : Piece} (hpq : p.Adjacent q)
    (hsign : ∀ r, p = .mark (.operator .concat) →
      (scope.pieces r).head? ≠ some (.mark .negation))
    (hx : x ∈ (scope.write kind p).getLast?) (hy : y ∈ (scope.write kind q).head?) :
    x.Adjacent y := by
  rcases scope.write_cases kind p with hp | ⟨r, rfl, hp⟩
  · obtain rfl : p = x := by simpa [hp] using hx
    rcases scope.write_cases kind q with hq | ⟨s, rfl, hq⟩
    · obtain rfl : q = y := by simpa [hq] using hy
      exact hpq
    · rw [hq] at hy
      cases hends : p.ends with
      | true => simp [Piece.Adjacent, hends, Piece.follows] at hpq
      | false =>
          simp only [Piece.Adjacent, hends, Bool.false_eq_true, if_false]
          refine ⟨.inl ((h.operand s).starts_of_mem hy), ?_⟩
          rintro hconcat rfl
          exact hsign s hconcat (Option.mem_def.1 hy)
  · rw [hp] at hx
    have hfollows : q.follows = true := by simpa [Piece.Adjacent, Piece.ends] using hpq
    rcases scope.write_cases kind q with hq | ⟨s, rfl, -⟩
    · obtain rfl : q = y := by simpa [hq] using hy
      simpa [Piece.Adjacent, (h.operand r).ends_of_mem hx] using hfollows
    · cases hfollows

theorem chain_write (hchain : ps.IsChain Piece.Adjacent)
    (hsign : ∀ r, .mark (.operator .concat) ∈ ps →
      (scope.pieces r).head? ≠ some (.mark .negation)) :
    (ps.flatMap (scope.write kind)).IsChain Piece.Adjacent := by
  induction ps with
  | nil => exact .nil
  | cons p ps ih =>
      rw [List.flatMap_cons]
      refine (h.isChain_write kind p).append
        (ih hchain.tail fun r hr => hsign r (by simp [hr])) ?_
      intro x hx y hy
      cases ps with
      | nil => cases hy
      | cons q ps =>
          rw [List.flatMap_cons, List.head?_append_of_ne_nil _ (h.write_ne_nil kind q)] at hy
          refine h.adjacent_write kind (List.isChain_cons_cons.1 hchain).1 (fun r hp => ?_) hx hy
          exact hsign r (by simp [hp])

end Scope.Sound

theorem isSearchable_of_isName {name : String} (hname : IsName name.toList)
    (hreserved : name ∉ reservedWords) : isSearchable name = true := by
  obtain ⟨c, rest, hcs, hc⟩ := hname.exists_cons
  have hhead : name.toList.head?.any isOperandChar = true := by
    simpa [hcs] using isOperandChar_of_isNameChar (isNameChar_of_isNameStart hc)
  have hlast : name.toList.getLast?.any isOperandChar = true := by
    rw [List.getLast?_eq_some_getLast hname.ne_nil, Option.any_some]
    exact isOperandChar_of_isNameChar (hname.all _ (List.getLast_mem _))
  have hdigits : name.toList.all (fun c => Text.isAsciiDigit c || c = '.') = false := by
    have hdigit : Text.isAsciiDigit c = false := by
      cases hd : Text.isAsciiDigit c with
      | false => rfl
      | true =>
          rw [isNameStart_of_isDigit hd] at hc
          cases hc
    have hpoint : c ≠ '.' := ne_of_isNameChar (isNameChar_of_isNameStart hc) (by decide)
    simp [hcs, hdigit, hpoint]
  have hwords : reservedWords.contains name = false := by simpa using hreserved
  unfold isSearchable
  simp only [hdigits, hwords, Bool.not_false, Bool.and_true, Bool.and_eq_true]
  exact ⟨hhead, hlast⟩

theorem PlainHeaders.isPlain {schema : Schema} (h : PlainHeaders schema) {name : String}
    (hname : name ∈ schema.names) : (Ref.header name).IsPlain := h name hname

theorem PlainHeaders.mem_searchedNames {schema : Schema} (h : PlainHeaders schema) {name : String}
    (hname : name ∈ schema.names) : name ∈ searchedNames schema := by
  rw [searchedNames, List.mem_mergeSort, List.mem_filter]
  exact ⟨hname, isSearchable_of_isName (h.isPlain hname).1 (h.isPlain hname).2.1⟩

theorem mem_names_of_mem_searchedNames {schema : Schema} {name : String}
    (h : name ∈ searchedNames schema) : name ∈ schema.names := by
  rw [searchedNames, List.mem_mergeSort, List.mem_filter] at h
  exact h.1

section

variable {scope : Scope} (hscope : scope.Sound) {ps : List Piece}
  (hchain : ps.IsChain Piece.Adjacent) (hvalid : ∀ p ∈ ps, p.Valid)
  (hsign : ∀ r, .mark (.operator .concat) ∈ ps →
    (scope.pieces r).head? ≠ some (.mark .negation))

include hscope hchain hvalid hsign

/-- Headers are resolved one after the other, once ranges and cells are gone. -/
theorem foldl_resolveName_textOf {names : List String}
    (hnames : ∀ name ∈ names, (Ref.header name).IsPlain) {kind : Ref → Bool}
    (hranges : ∀ r, r.isRange = true → kind r = true)
    (hcells : ∀ r, r.isCell = true → kind r = true) :
    names.foldl (fun cs name =>
      editUnquoted (replaceReferences (wholeName name.toList)
        fun _ _ _ => some (scope.column name none)) cs) (textOf (ps.flatMap (scope.write kind))) =
      textOf (ps.flatMap (scope.write fun r => kind r || r.isHeaderOf names)) := by
  induction names generalizing kind with
  | nil =>
      have hkind : (fun r : Ref => kind r || r.isHeaderOf []) = kind := by
        funext r
        cases r <;> simp [Ref.isHeaderOf]
      simp [hkind]
  | cons name names ih =>
      have hgone : ∀ (p : Ref → Bool), (∀ r, p r = true → kind r = true) →
          ∀ r, .reference r ∈ ps.flatMap (scope.write kind) → p r = false := by
        intro p hp r hr
        cases hpr : p r with
        | false => rfl
        | true =>
            have hkind := (Scope.mem_write hr).2
            rw [hp r hpr] at hkind
            cases hkind
      have hstep := resolveName_textOf scope (hscope.chain_write kind hchain hsign)
        (hscope.valid_write kind hvalid) (hnames name (by simp)) (hgone _ hranges) (hgone _ hcells)
      rw [List.foldl_cons, hstep, scope.write_write]
      refine (ih (fun other hother => hnames other (by simp [hother]))
        (fun r hr => by simp [hranges r hr]) (fun r hr => by simp [hcells r hr])).trans ?_
      congr 3
      funext r
      cases r <;> simp [Ref.isHeaderOf, Bool.or_assoc]

/-- Every reference is replaced, and nothing else changes. -/
theorem resolve_textOf (hrows : ∀ r, .reference r ∈ ps → scope.Admits r)
    (hheaders : ∀ name, .reference (.header name) ∈ ps → name ∈ scope.schema.names) :
    resolve scope (textOf ps) = textOf (ps.flatMap (scope.write fun _ => true)) := by
  have hranges := resolveLetterRanges_textOf hscope.headers hchain hvalid hscope.full
  have hcells := resolveCells_textOf hscope.headers (hscope.chain_write Ref.isRange hchain hsign)
    (hscope.valid_write Ref.isRange hvalid) (fun r hr => (Scope.mem_write hr).2)
    (fun r hr => hrows r (Scope.mem_write hr).1)
  rw [scope.write_write] at hcells
  simp only [resolve, resolveNameRanges_textOf hscope.headers hchain hvalid, hranges, hcells,
    resolveNames]
  rw [foldl_resolveName_textOf hscope hchain hvalid hsign
    (fun name hname => hscope.headers.isPlain (mem_names_of_mem_searchedNames hname))
    (fun r hr => by simp [hr]) (fun r hr => by simp [hr])]
  refine congrArg textOf (List.flatMap_congr fun p hp => ?_)
  cases p with
  | reference r =>
      have hall : (r.isRange || r.isCell || r.isHeaderOf (searchedNames scope.schema)) = true := by
        cases r with
        | cell letters row => rfl
        | range letters first last => rfl
        | header name =>
            simpa [Ref.isHeaderOf, Ref.isRange, Ref.isCell] using
              hscope.headers.mem_searchedNames (hheaders name hp)
      simp [Scope.write, hall]
  | _ => rfl

end

/-! ### Rows and columns -/

theorem isNumeral_zero : Number.IsNumeral ['0'] :=
  Number.isNumeral_of_digits (by simp) (by decide)

/-- The literal of a number is a numeral, perhaps with a sign. -/
theorem cellPieces_number {x : Float} (h : Number.IsFinite x)
    (hmissing : (Cell.number x).isMissing = false) :
    ∃ digits, Number.IsNumeral digits ∧ (cellPieces (.number x) = [.numeral digits] ∨
      cellPieces (.number x) = [.mark .negation, .numeral digits]) := by
  obtain ⟨negative, m, q, hexact⟩ := h
  obtain ⟨minus, n, hdisplay⟩ := Number.exists_numeral_of_finite hexact
  refine ⟨n.text, ⟨n, rfl⟩, ?_⟩
  simp only [cellPieces, hmissing, Bool.false_eq_true, if_false, hdisplay]
  cases minus with
  | true => exact .inr rfl
  | false =>
      left
      obtain ⟨c, rest, htext, hc⟩ := n.text_eq_cons
      have hsign : c ≠ '-' := by
        rintro rfl
        cases hc
      simp only [Number.signed, htext]
      split
      · simp_all
      · rfl

theorem cellPieces_operand {c : Cell} (h : ∀ x, c = .number x → Number.IsFinite x) :
    IsOperand (cellPieces c) ∧ ∀ p ∈ cellPieces c, p.Valid := by
  have hnumeral : ∀ digits, Number.IsNumeral digits →
      IsOperand [.numeral digits] ∧ ∀ p ∈ [Piece.numeral digits], p.Valid := by
    intro digits hdigits
    exact ⟨.single rfl rfl, by simpa [Piece.Valid] using hdigits⟩
  cases hmissing : c.isMissing with
  | true =>
      have hzero : cellPieces c = [.numeral ['0']] := by simp [cellPieces, hmissing]
      rw [hzero]
      exact hnumeral _ isNumeral_zero
  | false =>
      cases c with
      | empty => cases hmissing
      | boolean b => exact ⟨.single rfl rfl, by simp [cellPieces, Cell.isMissing, Piece.Valid]⟩
      | number x =>
          obtain ⟨digits, hdigits, hpieces | hpieces⟩ := cellPieces_number (h x rfl) hmissing
          · rw [hpieces]
            exact hnumeral digits hdigits
          · rw [hpieces]
            refine ⟨(hnumeral digits hdigits).1.negated, ?_⟩
            simpa [Piece.Valid] using hdigits
      | text s => exact ⟨.single rfl rfl, by simp [cellPieces, Cell.isMissing, Piece.Valid]⟩

theorem fetchPieces_operand {callee : String} (hcallee : IsName callee.toList) (name : String)
    (row : Option Nat) : IsOperand (fetchPieces callee name row) ∧
      ∀ p ∈ fetchPieces callee name row, p.Valid := by
  have hname : IsOperand [.literal name.toList] := .single rfl rfl
  cases row with
  | none =>
      refine ⟨.group rfl rfl (.inr hname), ?_⟩
      simpa [fetchPieces, Piece.Valid] using hcallee
  | some n =>
      have hdigits : IsOperand [.numeral (Number.digitsOf n)] := .single rfl rfl
      have hlist : IsOperand ([.literal name.toList] ++
          .mark .listComma :: [.numeral (Number.digitsOf n)]) :=
        hname.infixed hdigits rfl (by simp) (by simp)
      refine ⟨.group rfl rfl (.inr hlist), ?_⟩
      simpa [fetchPieces, Piece.Valid, Number.isNumeral_digitsOf] using hcallee

theorem sound_columns {schema : Schema} (h : PlainHeaders schema) :
    (Scope.columns schema).Sound := by
  have hpieces : ∀ r, IsOperand ((Scope.columns schema).pieces r) ∧
      ∀ p ∈ (Scope.columns schema).pieces r, p.Valid := by
    intro r
    cases r with
    | cell letters row => exact fetchPieces_operand (by decide) _ _
    | range letters first last => exact fetchPieces_operand (by decide) _ _
    | header name => exact fetchPieces_operand (by decide) _ _
  exact ⟨h, trivial, fun r => (hpieces r).1, fun r => (hpieces r).2⟩

theorem Row.Complete.full {r : Row} (h : r.Complete) : (Scope.row r).Full := by
  intro name hname
  obtain ⟨i, hi⟩ := Option.isSome_iff_exists.1 (List.isSome_idxOf?.2 hname)
  have hlt : i < r.cells.length := by
    rw [h.width]
    unfold List.idxOf? at hi
    exact (List.findIdx?_eq_some_iff_getElem.1 hi).1
  have hget : r.get? name = r.cells[i]? := by simp [Row.get?, Schema.indexOf?, hi]
  simp [hget, hlt]

theorem Row.Complete.sound {r : Row} (h : r.Complete) (hheaders : PlainHeaders r.schema) :
    (Scope.row r).Sound := by
  have hcell : ∀ (c : Option Cell) (missing : List Char), (∀ c' ∈ c, c' ∈ r.cells) →
      IsOperand ((c.map cellPieces).getD [.literal missing]) ∧
        ∀ p ∈ (c.map cellPieces).getD [.literal missing], p.Valid := by
    intro c missing hc
    cases c with
    | none => exact ⟨.single rfl rfl, by simp [Piece.Valid]⟩
    | some c =>
        refine cellPieces_operand ?_
        rintro x rfl
        exact h.finite x (hc _ rfl)
  have hget : ∀ name, ∀ c ∈ r.get? name, c ∈ r.cells := by
    intro name c hc
    obtain ⟨i, -, hi⟩ := Option.bind_eq_some_iff.1 hc
    exact List.mem_of_getElem? hi
  have hletters : ∀ letters, ∀ c ∈ r.getByLetters? letters, c ∈ r.cells := by
    intro letters c hc
    obtain ⟨name, -, hname⟩ := Option.bind_eq_some_iff.1 hc
    exact hget name c hname
  have hpieces : ∀ s, IsOperand ((Scope.row r).pieces s) ∧
      ∀ p ∈ (Scope.row r).pieces s, p.Valid := by
    intro s
    cases s with
    | cell letters row => exact hcell _ _ (hletters _)
    | range letters first last => exact hcell _ _ (hletters _)
    | header name => exact hcell _ _ (hget name)
  exact ⟨hheaders, Row.Complete.full h, fun s => (hpieces s).1, fun s => (hpieces s).2⟩

end SheetBoard.Formula
