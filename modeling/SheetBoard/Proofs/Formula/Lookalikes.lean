import SheetBoard.Proofs.Formula.Substituting

/-! Headers that are spelled like references. A range whose letters are a header of two or more
characters is taken for a range of that header, and loses its start row; a header that looks like a
cell is taken for the cell. -/

namespace SheetBoard.Formula

/-! ### Ranges of a header that is its own letters -/

section

variable (letters : Capitals) (first : Option Nat)

theorem rangeText_append_nil : rangeText letters first ++ [] =
    (letters.chars ++ rowDigits first) ++ ':' :: (letters.chars ++ []) := by
  simp [rangeText]

theorem rangeText_ne_nil : rangeText letters first ≠ [] := by simp [rangeText]

theorem unquoted_rangeText : Unquoted (rangeText letters first) := by
  simpa [Ref.text, rangeText, rowDigits_none] using
    Ref.unquoted_text (r := .range letters first none) trivial

/-- One letter is too short for the name of a range. -/
theorem resolveNameRanges_letter (h : letters.chars.length = 1) (scope : Scope) :
    editUnquoted (resolveNameRanges scope) (rangeText letters first) = rangeText letters first := by
  refine editUnquoted_replaced (unquoted_rangeText letters first) ?_
  refine replaces_nameRange_of_eq_none (.inl rfl) (.row letters first) letters.isName ?_
  rw [nameRange_colon (.inl rfl) (.row letters first) letters.isName, if_neg (by omega)]

/-- The header is found before the letters are, and its range has no start row. -/
theorem resolveNameRanges_letters (h : 2 ≤ letters.chars.length) {schema : Schema}
    (hmem : String.ofList letters.chars ∈ schema.names) :
    editUnquoted (resolveNameRanges (.columns schema)) (rangeText letters first) =
      textOf (fetchPieces "getColumnData" (.ofList letters.chars) none) := by
  have hfound : nameRange none (rangeText letters first ++ []) =
      some ((letters.chars ++ rowDigits first, letters.chars), []) := by
    have hlength : 2 ≤ (letters.chars ++ rowDigits first).length := by
      rw [List.length_append]
      omega
    rw [rangeText_append_nil, nameRange_colon (.inl rfl) (.row letters first) letters.isName,
      if_pos ⟨rfl, hlength, h⟩]
  have hcontains : schema.contains (.ofList letters.chars) = true := by
    simpa [Schema.contains] using hmem
  refine editUnquoted_found (unquoted_rangeText letters first) (rangeText_ne_nil letters first)
    hfound ?_
  simp [Scope.schema, hcontains, textOf_fetchPieces schema]

theorem resolveLetterRanges_range {schema : Schema} {name : String}
    (hname : schema.nameAt? letters.chars = some name) :
    editUnquoted (resolveLetterRanges (.columns schema)) (rangeText letters first) =
      textOf (fetchPieces "getColumnData" name (first.filter (· ≠ 1))) := by
  have hlast : Reference.read? letters.chars = some (⟨letters.chars, []⟩, []) := by
    simpa [rowDigits_none] using read?_row letters none
  have hfound : letterRange none (rangeText letters first ++ []) =
      some ((⟨letters.chars, rowDigits first⟩, ⟨letters.chars, []⟩), []) := by
    rw [rangeText_append_nil]
    exact letterRange_colon (.inl rfl) (by decide) (read?_row letters first) hlast
  refine editUnquoted_found (unquoted_rangeText letters first) (rangeText_ne_nil letters first)
    hfound ?_
  rw [textOf_fetchPieces schema, ← rowDigits_limit]
  simp [Scope.schema, columnByLetters?_of_nameAt? hname]

/-- A range of one letter is fetched from its start row on, whatever the headers are. -/
theorem resolve_letterRange (h : letters.chars.length = 1) {schema : Schema} {name : String}
    (hname : schema.nameAt? letters.chars = some name) :
    resolve (.columns schema) (rangeText letters first) =
      textOf (fetchPieces "getColumnData" name (first.filter (· ≠ 1))) := by
  have hcallee : IsName "getColumnData".toList := by decide
  obtain ⟨hoperand, hvalid⟩ := fetchPieces_operand hcallee name (first.filter (· ≠ 1))
  simp only [resolve, resolveNameRanges_letter letters first h,
    resolveLetterRanges_range letters first hname,
    resolveCells_resolved hoperand.chain hvalid (reference_notMem_fetchPieces _ name _)]
  exact resolveNames_fetchPieces (by decide) name _ _

/-- A range of two or more letters that are a header is fetched from the top. -/
theorem resolve_headerRange (h : 2 ≤ letters.chars.length) {schema : Schema}
    (hmem : String.ofList letters.chars ∈ schema.names) :
    resolve (.columns schema) (rangeText letters first) =
      textOf (fetchPieces "getColumnData" (.ofList letters.chars) none) := by
  have hcallee : IsName "getColumnData".toList := by decide
  obtain ⟨hoperand, hvalid⟩ := fetchPieces_operand hcallee (.ofList letters.chars) none
  have hresolved := reference_notMem_fetchPieces "getColumnData" (.ofList letters.chars) none
  simp only [resolve, resolveNameRanges_letters letters first h hmem,
    resolveLetterRanges_resolved hoperand.chain hvalid hresolved,
    resolveCells_resolved hoperand.chain hvalid hresolved]
  exact resolveNames_fetchPieces (by decide) _ _ _

end

/-! ### Headers that look like cells -/

/-- No column is in the place of the letters, and none is spelled like them. -/
structure Unplaced (schema : Schema) (letters : Capitals) : Prop where
  place : schema.nameAt? letters.chars = none
  spelling : String.ofList letters.chars ∉ schema.names

namespace Unplaced

variable {schema : Schema} {letters : Capitals} (h : Unplaced schema letters)
include h

theorem columnByLetters?_eq_none : columnByLetters? schema letters.chars = none := by
  have hcontains : schema.contains (.ofList letters.chars) = false := by
    simpa [Schema.contains] using h.spelling
  simp [columnByLetters?, h.place, hcontains]

/-- The letters are fetched as if they were a header. -/
theorem resolve_cell {row : Nat} (hrow : 1 ≤ row ∧ row < Number.halfWord) :
    resolve (.columns schema) (letters.chars ++ Number.digitsOf row) =
      textOf (fetchPieces "getCellValue" (.ofList letters.chars) (some (row - 1))) := by
  have hw : IsName (letters.chars ++ Number.digitsOf row) := .cell letters row
  have hcells : editUnquoted (resolveCells (.columns schema))
      (letters.chars ++ Number.digitsOf row) =
        textOf (fetchPieces "getCellValue" (.ofList letters.chars) (some (row - 1))) := by
    have htext := textOf_pieces_cell_columns schema letters hrow
    simp only [Scope.pieces, columnName, h.place, Option.getD_none, Option.map_none] at htext
    refine editUnquoted_cell letters row ?_
    rw [htext]
    simp [Scope.schema, h.columnByLetters?_eq_none]
  simp only [resolve, resolveNameRanges_name hw, resolveLetterRanges_name hw, hcells]
  exact resolveNames_fetchPieces (by decide) _ _ _

/-- In one row the letters are a text. -/
theorem resolve_rowCell {row : Row} (hrow : row.schema = schema) (n : Nat) :
    resolve (.row row) (letters.chars ++ Number.digitsOf n) =
      cellLiteral (.text (.ofList letters.chars)) := by
  have hw : IsName (letters.chars ++ Number.digitsOf n) := .cell letters n
  have hcells : editUnquoted (resolveCells (.row row)) (letters.chars ++ Number.digitsOf n) =
      cellLiteral (.text (.ofList letters.chars)) := by
    refine editUnquoted_cell letters n ?_
    simp [Scope.schema, hrow, h.columnByLetters?_eq_none, cellLiteral, Cell.isMissing]
  simp only [resolve, resolveNameRanges_name hw, resolveLetterRanges_name hw, hcells]
  exact resolveNames_cellLiteral rfl _

end Unplaced

/-- A row number past 63 bits is no cell's. -/
theorem resolveCells_of_le (schema : Schema) (letters : Capitals) {row : Nat}
    (hrow : Number.halfWord ≤ row) :
    editUnquoted (resolveCells (.columns schema)) (letters.chars ++ Number.digitsOf row) =
      letters.chars ++ Number.digitsOf row := by
  have hw : IsName (letters.chars ++ Number.digitsOf row) := .cell letters row
  refine editUnquoted_refused hw.unquoted hw.ne_nil (cellReference_cell letters row) ?_
  simp [readInt?_digitsOf, Nat.not_lt.2 hrow]

theorem notMem_reservedWords_cell (letters : Capitals) (row : Nat) :
    String.ofList (letters.chars ++ Number.digitsOf row) ∉ reservedWords := by
  have hletters : ∀ word ∈ reservedWords, ∀ c ∈ word.toList, Number.isDigit c = false := by decide
  intro hmem
  obtain ⟨c, cs, hcs⟩ := List.exists_cons_of_ne_nil (Number.digitsOf_ne_nil row)
  have hdigit : Number.isDigit c = true := Number.isDigit_of_mem_digitsOf (n := row) (by simp [hcs])
  have hletter := hletters _ hmem c (by simp [hcs])
  rw [hdigit] at hletter
  cases hletter

end SheetBoard.Formula
