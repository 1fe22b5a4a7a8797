import SheetBoard.Proofs.Formula.Headers

/-! References over whole columns, under headers of any spelling: a reference becomes the call that
fetches its column, and no header is found again in that call. -/

namespace SheetBoard.Formula

/-! ### Fetches stay -/

/-- The calls that fetch data. -/
def fetchNames : List String := ["getCellValue", "getColumnData"]

theorem isName_of_mem_fetchNames : ∀ callee ∈ fetchNames, IsName callee.toList := by decide

theorem isGround_fetchPieces {callee : String} (hcallee : IsName callee.toList) (name : String)
    (row : Option Nat) : ∀ p ∈ fetchPieces callee name row, p.IsGround := by
  cases row with
  | none =>
      simp only [fetchPieces, Option.map_none, Option.getD_none, List.nil_append,
        List.forall_mem_cons]
      exact ⟨hcallee, trivial, rfl, by simp⟩
  | some n =>
      simp only [fetchPieces, Option.map_some, Option.getD_some, List.cons_append, List.nil_append,
        List.forall_mem_cons]
      exact ⟨hcallee, trivial, rfl, ⟨n, rfl⟩, rfl, by simp⟩

theorem noNumberEnds_fetchPieces {header : String} (hheader : isSearchable header = true)
    (callee name : String) (row : Option Nat) :
    NoNumberEnds header.toList [] (fetchPieces callee name row) := by
  cases row with
  | none => trivial
  | some n => exact ⟨not_endsWith_row hheader, trivial⟩

section

variable {callee : String} (hcallee : callee ∈ fetchNames) (name : String) (row : Option Nat)
  (scope : Scope)
include hcallee

theorem resolveName_fetchPieces {header : String} (hheader : isSearchable header = true) :
    resolveName scope (textOf (fetchPieces callee name row)) header =
      textOf (fetchPieces callee name row) :=
  resolveName_ground hheader scope [] (by simp)
    (isGround_fetchPieces (isName_of_mem_fetchNames callee hcallee) name row)
    (noNumberEnds_fetchPieces hheader callee name row)

theorem resolveNames_fetchPieces :
    resolveNames scope (textOf (fetchPieces callee name row)) =
      textOf (fetchPieces callee name row) :=
  foldl_resolveName_eq_self fun _ hheader =>
    resolveName_fetchPieces hcallee name row scope (isSearchable_of_mem_searchedNames hheader)

theorem resolve_fetchPieces :
    resolve scope (textOf (fetchPieces callee name row)) =
      textOf (fetchPieces callee name row) := by
  have hname := isName_of_mem_fetchNames callee hcallee
  exact resolve_ground (fetchPieces_operand hname name row).1 (isGround_fetchPieces hname name row)
    fun header hheader =>
      noNumberEnds_fetchPieces (isSearchable_of_mem_searchedNames hheader) callee name row

end

/-! ### References that stand alone -/

/-- A pass over a text without literals. -/
theorem editUnquoted_replaced {α : Type} {find : Pattern α}
    {form : Option Char → α → List Char → Option (List Char)} {x y : List Char} (hx : Unquoted x)
    (h : Replaces (editOf find (referenceForm form)) none x y []) :
    editUnquoted (replaceReferences find form) x = y := by
  rw [editUnquoted_eq_self_of_unquoted _ hx rfl, replaceReferences_eq]
  exact h.replaceAll

section

variable {α : Type} {find : Pattern α} {form : Option Char → α → List Char → Option (List Char)}
  {x : List Char} {found : α} (hx : Unquoted x) (hne : x ≠ [])
  (hfind : find none (x ++ []) = some (found, []))
include hx hne hfind

theorem editUnquoted_found {y : List Char} (hform : form none found [] = some y) :
    editUnquoted (replaceReferences find form) x = y := by
  rw [editUnquoted_eq_self_of_unquoted _ hx rfl, replaceReferences_eq]
  refine replaceAll_found hne hfind ?_
  rw [referenceForm_operand (by decide) (.inl rfl), hform]

theorem editUnquoted_refused (hform : form none found [] = none) :
    editUnquoted (replaceReferences find form) x = x := by
  have hkept : Replaces (editOf find (referenceForm form)) none x
      ((referenceForm form none found []).getD x) [] := replaces_found hne hfind
  rw [referenceForm_none hform, Option.getD_none] at hkept
  exact editUnquoted_replaced hx hkept

end

section

variable {w : List Char} (hw : IsName w) (scope : Scope)
include hw

/-- A name stays if it is not found. -/
theorem editUnquoted_name {α : Type} {find : Pattern α} (hword : WordPattern find)
    (form : Option Char → α → List Char → Option (List Char)) (hnone : find none (w ++ []) = none) :
    editUnquoted (replaceReferences find form) w = w :=
  editUnquoted_replaced hw.unquoted (hword.replaces_name hw hnone)

theorem resolveNameRanges_name : editUnquoted (resolveNameRanges scope) w = w :=
  editUnquoted_name hw wordPattern_nameRange _ (nameRange_eq_none hw rfl (by simp))

theorem resolveLetterRanges_name : editUnquoted (resolveLetterRanges scope) w = w :=
  editUnquoted_name hw wordPattern_letterRange _ (letterRange_eq_none hw.all rfl (by simp))

end

theorem Capitals.isName (letters : Capitals) : IsName letters.chars := by
  simpa [rowDigits] using IsName.row letters none

theorem Capitals.isReference (letters : Capitals) : isReference letters.chars = true := by
  simpa [rowDigits] using isReference_row letters none

theorem rowDigits_none : rowDigits none = [] := rfl

/-- A range of a column's letters, perhaps from a row on. -/
def rangeText (letters : Capitals) (first : Option Nat) : List Char :=
  letters.chars ++ rowDigits first ++ ':' :: letters.chars

/-- The references are ranges of columns, by letters that no header is spelled like. -/
def RangesOf (schema : Schema) (ps : List Piece) : Prop :=
  ∀ p ∈ ps, ∀ r, p = .reference r → ∃ letters first name, r = .range letters first none ∧
    schema.nameAt? letters.chars = some name ∧ String.ofList letters.chars ∉ schema.names

theorem rangesOf_range {schema : Schema} {letters : Capitals} {name : String}
    (hname : schema.nameAt? letters.chars = some name)
    (hletters : String.ofList letters.chars ∉ schema.names) (first : Option Nat) :
    RangesOf schema [.reference (.range letters first none)] := by
  intro p hp r hr
  obtain rfl := List.mem_singleton.1 hp
  exact ⟨letters, first, name, by simpa using hr.symm, hname, hletters⟩

theorem columnByLetters?_of_nameAt? {schema : Schema} {letters : Capitals} {name : String}
    (hname : schema.nameAt? letters.chars = some name) :
    columnByLetters? schema letters.chars = some name := by
  simp [columnByLetters?, hname]

section

variable {ps : List Piece} (hchain : ps.IsChain Piece.Adjacent) (hvalid : ∀ p ∈ ps, p.Valid)
  {schema : Schema} (hranges : RangesOf schema ps)
include hchain hvalid hranges

theorem resolveNameRanges_ranges :
    editUnquoted (resolveNameRanges (.columns schema)) (textOf ps) = textOf ps := by
  have hpass : editUnquoted (resolveNameRanges (.columns schema)) (textOf ps) =
      textOf (ps.flatMap fun p => [p]) := by
    refine editUnquoted_references hchain hvalid wordPattern_nameRange spares_nameRange
      (fun _ _ => rfl) ?_ ?_
    · intro name hname before rest found tail hfound
      rw [nameRange_eq_none hname rfl (by simp)] at hfound
      cases hfound
    · intro r hr _ before rest _ hrest
      obtain ⟨letters, first, name, rfl, -, hletters⟩ := hranges _ hr r rfl
      simp only [textOf_cons, textOf_nil, List.append_nil]
      refine replaces_nameRange (hrest rfl) (.row letters first) (.row letters none)
        (referenceForm_none ?_)
      have hcontains : schema.contains (.ofList letters.chars) = false := by
        simpa [Schema.contains] using hletters
      simp [isReference_row, rowDigits_none, letters.isReference, hcontains, Scope.schema]
  rwa [List.flatMap_singleton'] at hpass

theorem resolveLetterRanges_ranges :
    editUnquoted (resolveLetterRanges (.columns schema)) (textOf ps) =
      textOf (ps.flatMap ((Scope.columns schema).write fun _ => true)) := by
  refine editUnquoted_references hchain hvalid wordPattern_letterRange spares_letterRange
    (fun p hp => (Scope.columns schema).write_of_ne _ hp) ?_ ?_
  · intro name hname before rest found tail hfound
    rw [letterRange_eq_none hname.all rfl (by simp)] at hfound
    cases hfound
  · intro r hr _
    obtain ⟨letters, first, name, rfl, hname, -⟩ := hranges _ hr r rfl
    refine writesPiece_found (by simp [Ref.text]) fun before rest hbefore hrest => ?_
    rw [Ref.text_range_append]
    refine ⟨_, letterRange_colon hrest hbefore (read?_row letters first)
      (read?_row letters none), ?_⟩
    have hwrite : textOf ((Scope.columns schema).write (fun _ => true)
        (.reference (.range letters first none))) =
        textOf (fetchPieces "getColumnData" name (first.filter (· ≠ 1))) := by
      simp [Scope.write, Scope.pieces, columnName, hname]
    rw [hwrite, textOf_fetchPieces schema, ← rowDigits_limit]
    simp [Scope.schema, columnByLetters?_of_nameAt? hname]

/-- Ranges become fetches before anything else is found. -/
theorem resolve_ranges {qs : List Piece}
    (hqs : ps.flatMap ((Scope.columns schema).write fun _ => true) = qs) (hoperand : IsOperand qs)
    (hground : ∀ p ∈ qs, p.IsGround) :
    resolve (.columns schema) (textOf ps) = resolve (.columns schema) (textOf qs) := by
  have hqvalid : ∀ p ∈ qs, p.Valid := fun p hp => (hground p hp).valid
  have hresolved : ∀ r, .reference r ∉ qs := fun r hr => (hground _ hr).ne_reference r rfl
  have hletters := resolveLetterRanges_ranges hchain hvalid hranges
  rw [hqs] at hletters
  rw [resolve_resolved hoperand.chain hqvalid hresolved]
  simp only [resolve, resolveNameRanges_ranges hchain hvalid hranges, hletters,
    resolveCells_resolved hoperand.chain hqvalid hresolved]

end

section

variable (letters : Capitals) (row : Nat)

theorem cellReference_cell : cellReference none (letters.chars ++ Number.digitsOf row ++ []) =
    some (⟨letters.chars, Number.digitsOf row⟩, []) := by
  have hread := read?_letters letters fun c hc =>
    isDecimalDigit_of_isDigit (Number.isDigit_of_mem_digitsOf (n := row) hc)
  exact cellReference_of_read? (by decide) rfl hread (Number.digitsOf_ne_nil row)

/-- A cell that stands alone is replaced by what is written for it. -/
theorem editUnquoted_cell {form : Option Char → Reference → List Char → Option (List Char)}
    {y : List Char} (hform : form none ⟨letters.chars, Number.digitsOf row⟩ [] = some y) :
    editUnquoted (replaceReferences cellReference form) (letters.chars ++ Number.digitsOf row) =
      y := by
  have hw : IsName (letters.chars ++ Number.digitsOf row) := .cell letters row
  exact editUnquoted_found hw.unquoted hw.ne_nil (cellReference_cell letters row) hform

end

section

variable {schema : Schema} {letters : Capitals} {name : String}
  (hname : schema.nameAt? letters.chars = some name)
include hname

theorem resolveCells_cell {row : Nat} (hrow : 1 ≤ row ∧ row < Number.halfWord) :
    editUnquoted (resolveCells (.columns schema)) (letters.chars ++ Number.digitsOf row) =
      textOf (fetchPieces "getCellValue" name (some (row - 1))) := by
  have htext := textOf_pieces_cell_columns schema letters hrow
  simp only [Scope.pieces, columnName, hname, Option.getD_some, Option.map_some] at htext
  refine editUnquoted_cell letters row ?_
  rw [htext]
  simp [Scope.schema, columnByLetters?_of_nameAt? hname]

/-- A cell is fetched under the name of its column. -/
theorem resolve_cell {row : Nat} (hrow : 1 ≤ row ∧ row < Number.halfWord) :
    resolve (.columns schema) (letters.chars ++ Number.digitsOf row) =
      textOf (fetchPieces "getCellValue" name (some (row - 1))) := by
  have hw : IsName (letters.chars ++ Number.digitsOf row) := .cell letters row
  simp only [resolve, resolveNameRanges_name hw, resolveLetterRanges_name hw,
    resolveCells_cell hname hrow]
  exact resolveNames_fetchPieces (by decide) name _ _

/-- A range is fetched under the name of its column. -/
theorem resolve_range (hletters : String.ofList letters.chars ∉ schema.names)
    (first : Option Nat) :
    resolve (.columns schema) (rangeText letters first) =
      textOf (fetchPieces "getColumnData" name (first.filter (· ≠ 1))) := by
  have htext : rangeText letters first = textOf [.reference (.range letters first none)] := by
    simp [rangeText, Piece.text, Ref.text, rowDigits_none]
  have hwrite : [Piece.reference (.range letters first none)].flatMap
      ((Scope.columns schema).write fun _ => true) =
        fetchPieces "getColumnData" name (first.filter (· ≠ 1)) := by
    simp [Scope.write, Scope.pieces, columnName, hname]
  have hcallee : IsName "getColumnData".toList := by decide
  rw [htext, resolve_ranges (.singleton _) (by simp [Piece.Valid, Ref.IsPlain])
    (rangesOf_range hname hletters first) hwrite (fetchPieces_operand hcallee name _).1
    (isGround_fetchPieces hcallee name _)]
  exact resolve_fetchPieces (by decide) name _ _

end

/-- Capitals and then digits, at least one of each. -/
def IsCellText (cs : List Char) : Prop :=
  ∃ (letters : Capitals) (digits : List Char), digits ≠ [] ∧
    (∀ c ∈ digits, Text.isAsciiDigit c = true) ∧ cs = letters.chars ++ digits

theorem isAsciiDigit_of_isNameChar {c : Char} (h : isNameChar c = true)
    (hdigit : Text.isDecimalDigit c = true) : Text.isAsciiDigit c = true := by
  have hsame : (!Text.isDecimalDigit c || Text.isAsciiDigit c) = true :=
    of_isNameChar (q := fun c => !Text.isDecimalDigit c || Text.isAsciiDigit c) (by decide +kernel)
      h
  simpa [hdigit] using hsame

theorem isCellText_of_read? {w : List Char} {r : Reference} (hw : IsName w)
    (h : Reference.read? w = some (r, [])) (hdigits : r.digits ≠ []) : IsCellText w := by
  obtain ⟨letters, hletters, hdecimal⟩ := capitals_of_read? h
  have htext : w = letters.chars ++ r.digits := by simpa [hletters] using eq_append_of_read? h
  refine ⟨letters, r.digits, hdigits, fun c hc => ?_, htext⟩
  exact isAsciiDigit_of_isNameChar (hw.all c (by simp [htext, hc])) (hdecimal c hc)

section

variable {schema : Schema} {name : String} (hname : IsName name.toList)
include hname

theorem resolveCells_name (scope : Scope) (hcell : ¬IsCellText name.toList) :
    editUnquoted (resolveCells scope) name.toList = name.toList := by
  refine editUnquoted_name hname wordPattern_cellReference _ ?_
  have hmiss : ∀ r tail, Reference.read? name.toList = some (r, tail) →
      r.digits = [] ∨ tail ≠ [] := by
    intro r tail hread
    by_cases hdigits : r.digits = []
    · exact .inl hdigits
    · right
      rintro rfl
      exact hcell (isCellText_of_read? hname hread hdigits)
  exact cellReference_eq_none hname.all rfl hmiss

theorem resolveName_other (scope : Scope) {header : String} (hheader : isSearchable header = true)
    (hne : header ≠ name) : resolveName scope name.toList header = name.toList := by
  have hchars : header.toList ≠ name.toList := fun h => hne (String.toList_inj.1 h)
  rw [resolveName, editUnquoted_eq_self_of_unquoted _ hname.unquoted rfl, replaceReferences_eq]
  simpa using replaceAll_wholeName (a := []) (b := []) (bounded_of_isSearchable hheader) (by simp)
    hname.all (by simp) hchars

theorem resolveName_self (schema : Schema) : resolveName (.columns schema) name.toList name =
    textOf (fetchPieces "getColumnData" name none) := by
  have hfound : wholeName name.toList none (name.toList ++ []) = some ((), []) :=
    wholeName_self (by decide) hname rfl
  refine editUnquoted_found hname.unquoted hname.ne_nil hfound ?_
  exact congrArg some (textOf_fetchPieces schema name none).symm

/-- A header that is left over for its turn is found then, and stays what it became. -/
theorem resolve_header_of_cells (hmem : name ∈ schema.names) (hreserved : name ∉ reservedWords)
    (hcells : editUnquoted (resolveCells (.columns schema)) name.toList = name.toList) :
    resolve (.columns schema) name.toList = textOf (fetchPieces "getColumnData" name none) := by
  have hsearched : name ∈ searchedNames schema := by
    rw [searchedNames, List.mem_mergeSort, List.mem_filter]
    exact ⟨hmem, isSearchable_of_isName hname hreserved⟩
  obtain ⟨front, back, hsplit, hfront⟩ := List.eq_append_cons_of_mem hsearched
  have hsearchable : ∀ header ∈ front ++ name :: back, isSearchable header = true := by
    rw [← hsplit]
    exact fun _ => isSearchable_of_mem_searchedNames
  have hbefore : front.foldl (resolveName (.columns schema)) name.toList = name.toList := by
    refine foldl_resolveName_eq_self fun header hheader => ?_
    refine resolveName_other hname _ (hsearchable header (by simp [hheader])) ?_
    rintro rfl
    exact hfront hheader
  have hafter : back.foldl (resolveName (.columns schema))
      (textOf (fetchPieces "getColumnData" name none)) =
        textOf (fetchPieces "getColumnData" name none) :=
    foldl_resolveName_eq_self fun header hheader =>
      resolveName_fetchPieces (by decide) name none _ (hsearchable header (by simp [hheader]))
  simp only [resolve, resolveNameRanges_name hname, resolveLetterRanges_name hname, hcells]
  rw [resolveNames_eq, Scope.schema, hsplit, List.foldl_append, List.foldl_cons, hbefore,
    resolveName_self hname, hafter]

theorem resolve_header (hmem : name ∈ schema.names) (hreserved : name ∉ reservedWords)
    (hcell : ¬IsCellText name.toList) :
    resolve (.columns schema) name.toList = textOf (fetchPieces "getColumnData" name none) :=
  resolve_header_of_cells hname hmem hreserved (resolveCells_name hname _ hcell)

end

end SheetBoard.Formula
