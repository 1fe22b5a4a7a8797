import SheetBoard.Delimited.Table
import SheetBoard.Proofs.Formula.Lookalikes
import SheetBoard.Proofs.Naming
import SheetBoard.Proofs.Script.RowReferences

/-! Headers that are spelled like references, and what the formulas that look like them denote.
Start rows are lost where a column is named by two or more letters of its own, and a header that
looks like a cell of no column cannot be reached. -/

namespace SheetBoard

/-- Every column is named by its own letters. -/
def Schema.Lettered (s : Schema) : Prop :=
  s.names = (List.range s.size).map fun j => .ofList (Letters.ofIndex j)

instance (s : Schema) : Decidable s.Lettered :=
  inferInstanceAs (Decidable (s.names = _))

theorem Schema.Lettered.getElem? {s : Schema} (h : s.Lettered) {j : Nat} (hj : j < s.size) :
    s.names[j]? = some (.ofList (Letters.ofIndex j)) := by
  rw [h]
  simp [hj]

theorem Letters.ofIndex_inj {i j : Nat} (hi : i < Number.halfWord) (hj : j < Number.halfWord)
    (h : ofIndex i = ofIndex j) : i = j := by
  rw [ofIndex, ofIndex, if_pos hi, if_pos hj] at h
  have hread := congrArg toIndex? h
  rw [toIndex?_spell hi, toIndex?_spell hj] at hread
  exact Option.some.inj hread

/-- A table that is read without a header is named so. -/
theorem Delimited.lettered_of_tableOfRecords {options : ReadOptions}
    (hheader : options.hasHeader = false) {records : List (List (List Char))} {t : Table}
    (h : tableOfRecords options records = .ok t) (hsize : t.schema.size ≤ Number.halfWord) :
    t.Sound ∧ t.schema.Lettered := by
  unfold tableOfRecords at h
  rw [hheader] at h
  obtain rfl := Except.ok.inj h
  set width := (records.map List.length).foldl max 0
  set headers := (List.range width).map fun i => String.ofList (Letters.ofIndex i) with hheaders
  have hschema := Table.schema_ofRows headers (records.map fun row => row.map options.cell)
  have hlength : headers.length = width := by simp [hheaders]
  rw [hschema, Schema.size_ofHeaders, hlength] at hsize
  have hdistinct : headers.Nodup := by
    refine List.Nodup.map_on (fun i hi j hj hij => ?_) List.nodup_range
    rw [List.mem_range] at hi hj
    exact Letters.ofIndex_inj (Nat.lt_of_lt_of_le hi hsize) (Nat.lt_of_lt_of_le hj hsize)
      (String.ofList_injective hij)
  rw [Schema.ofHeaders_of_nodup hdistinct] at hschema
  refine ⟨⟨(Table.ofRows_spec _ _).1, ?_⟩, ?_⟩
  · rw [hschema]
    exact hdistinct
  · rw [hschema, Schema.Lettered, Schema.size, hlength]

/-- The columns `A` to `Z` have one letter. -/
theorem Letters.length_ofIndex {j : Nat} (h : ofIndex j ≠ []) :
    (ofIndex j).length = 1 ↔ j < 26 := by
  by_cases hj : j < Number.halfWord
  · rw [ofIndex, if_pos hj, spell]
    split
    · simpa
    · have hfront := List.length_pos_iff.2 (spell_ne_nil (j / 26 - 1))
      rw [List.length_append, List.length_singleton]
      omega
  · exact absurd (if_neg hj) h

end SheetBoard

namespace SheetBoard.Script

open Formula

/-! ### Columns that are named by their letters -/

namespace ColumnOf

variable {t : Table} {letters : Capitals} {name : String} {cells : List Cell}
  (h : ColumnOf t letters name cells) (today : Calendar.Date) {start : Nat}
include h

/-- The start row is exact, or past the end. -/
theorem drop_start (hrows : start ≤ 2 ^ 53 ∨ t.rowCount + 1 < 2 ^ 53) :
    cells.drop ((Number.toInt (Number.ofDecimal start 0)).toNat - 2) = cells.drop (start - 2) := by
  rcases hrows with hexact | hrows
  · rw [Number.toInt_ofDecimal hexact, Int.toNat_natCast]
  · rw [← h.length] at hrows
    rw [drop_toInt_ofDecimal (by omega) (.inr hrows)]

theorem columnValue_letterRange (hletter : letters.chars.length = 1) (hstart : 2 ≤ start)
    (hrows : start ≤ 2 ^ 53 ∨ t.rowCount + 1 < 2 ^ 53) :
    columnValue today t (rangeText letters (some start)) =
      .ok (.array ((cells.drop (start - 2)).map .ofCell)) := by
  have hfirst : (some start).filter (· ≠ 1) = some start := by
    have hne : start ≠ 1 := by omega
    simp [hne]
  have hresolve := resolve_letterRange letters (some start) hletter h.nameAt
  rw [hfirst] at hresolve
  rw [columnValue_fetch (innocent_rangeText letters (some start)) (by decide) hresolve,
    ← h.drop_start hrows]
  exact eval_columnFrom (h.column?_eq today) start

theorem columnValue_headerRange (hletters : 2 ≤ letters.chars.length)
    (hname : name = .ofList letters.chars) :
    columnValue today t (rangeText letters (some start)) = .ok (.array (cells.map .ofCell)) := by
  subst hname
  have hresolve := resolve_headerRange letters (some start) hletters h.mem_names
  rw [columnValue_fetch (innocent_rangeText letters (some start)) (by decide) hresolve]
  exact h.eval_whole today

end ColumnOf

/-- Where the columns are named by their own letters, a range of one letter starts at its row. A
range of two or more letters is taken for a range of the header, and its start row is lost; with
other headers it is not. -/
theorem columnValue_letteredRange {t : Table} (ht : t.Sound) (hnames : t.schema.Lettered) {j : Nat}
    {cells : List Cell} (hcells : t.columns[j]? = some cells) {letters : List Char}
    (hletters : letters = Letters.ofIndex j) (hne : letters ≠ []) {start : Nat} (hstart : 2 ≤ start)
    (hrows : start ≤ 2 ^ 53 ∨ t.rowCount + 1 < 2 ^ 53) (today : Calendar.Date) :
    (j < 26 → columnValue today t (letters ++ Number.digitsOf start ++ ':' :: letters) =
      .ok (.array ((cells.drop (start - 2)).map .ofCell))) ∧
    (26 ≤ j → columnValue today t (letters ++ Number.digitsOf start ++ ':' :: letters) =
      .ok (.array (cells.map .ofCell))) ∧
    (∀ s : Schema, s.names.Nodup → s.names.length = t.schema.names.length →
      String.ofList letters ∉ s.names →
      columnValue today { t with schema := s }
        (letters ++ Number.digitsOf start ++ ':' :: letters) =
          .ok (.array ((cells.drop (start - 2)).map .ofCell))) := by
  have hj : j < t.schema.names.length := by
    have hlt := (List.getElem?_eq_some_iff.1 hcells).1
    rwa [ht.width] at hlt
  have hlength := Letters.length_ofIndex (hletters ▸ hne)
  refine ⟨fun hone => ?_, fun hmore => ?_, fun s hdistinct hsize hnone => ?_⟩
  · obtain ⟨capitals, hchars, h⟩ :=
      columnOf_getElem? ht (hnames.getElem? hj) hcells (hletters ▸ hne)
    rw [hletters, ← hchars]
    rw [← hchars] at hlength
    exact h.columnValue_letterRange today (hlength.2 hone) hstart hrows
  · obtain ⟨capitals, hchars, h⟩ :=
      columnOf_getElem? ht (hnames.getElem? hj) hcells (hletters ▸ hne)
    have hpos := List.length_pos_iff.2 capitals.ne_nil
    have hmany : capitals.chars.length ≠ 1 := by
      rw [hchars]
      exact fun hone => absurd (hlength.1 hone) (Nat.not_lt.2 hmore)
    rw [hletters, ← hchars]
    exact h.columnValue_headerRange today (by omega) (by rw [hchars])
  · have hsound : ({ t with schema := s } : Table).Sound :=
      ⟨⟨ht.width.trans hsize.symm, ht.height⟩, hdistinct⟩
    obtain ⟨name, hname⟩ : ∃ name, s.names[j]? = some name :=
      ⟨_, List.getElem?_eq_getElem (hsize ▸ hj)⟩
    obtain ⟨capitals, hchars, h⟩ := columnOf_getElem? hsound hname hcells (hletters ▸ hne)
    rw [hletters, ← hchars] at hnone ⊢
    rw [h.columnValue_rangeFrom today hnone, h.drop_start hrows]

/-- Two records of 27 fields, read without a header. -/
theorem columnValue_letteredRange_wide :
    let records := [List.replicate 27 ['x'], List.replicate 27 ['y']]
    let names := (List.range 27).map fun j => String.ofList (Letters.ofIndex j)
    let t : Table := ⟨⟨names⟩, List.replicate 27 [.text "x", .text "y"], 2⟩
    let today : Calendar.Date := ⟨2024, 3, 15⟩
    Delimited.tableOfRecords { hasHeader := false } records = .ok t ∧
      columnValue today t "Z3:Z".toList = .ok (.array [.text "y"]) ∧
      columnValue today t "AA3:AA".toList = .ok (.array [.text "x", .text "y"]) ∧
      columnValue today { t with schema := ⟨names.map ("col " ++ ·)⟩ } "AA3:AA".toList =
        .ok (.array [.text "y"]) := by
  intro records names t today
  have hread : Delimited.tableOfRecords { hasHeader := false } records = .ok t := by
    decide +kernel
  obtain ⟨ht, hnames⟩ := Delimited.lettered_of_tableOfRecords rfl hread (by decide +kernel)
  have hz : ['Z'] = Letters.ofIndex 25 := by decide +kernel
  have haa : ['A', 'A'] = Letters.ofIndex 26 := by decide +kernel
  have hthree : Number.digitsOf 3 = ['3'] := by decide +kernel
  have hstart : 2 ≤ 3 := by decide
  obtain ⟨hletter, -⟩ := columnValue_letteredRange ht hnames (j := 25) rfl hz (by decide)
    hstart (.inl (by decide)) today
  obtain ⟨-, hletters, hothers⟩ := columnValue_letteredRange ht hnames (j := 26) rfl haa (by decide)
    hstart (.inl (by decide)) today
  have hplain := hothers ⟨names.map ("col " ++ ·)⟩ (by decide +kernel) (by decide +kernel)
    (by decide +kernel)
  rw [hthree] at hletter hletters hplain
  exact ⟨hread, hletter (by decide), hletters (by decide), hplain⟩

/-- The first column of two letters is given whole. -/
theorem columnValue_firstDouble :
    let t : Table := ⟨⟨(List.range 27).map fun j => String.ofList (Letters.ofIndex j)⟩,
      List.replicate 27 [.text "x", .text "y"], 2⟩
    columnValue ⟨2024, 3, 15⟩ t "AA3:AA".toList = .ok (.array [.text "x", .text "y"]) := by
  intro t
  have hcolumn : ColumnOf t (Capitals.mk ['A', 'A']) "AA" [.text "x", .text "y"] :=
    ⟨by decide +kernel, by decide +kernel, rfl⟩
  have hthree : Number.digitsOf 3 = ['3'] := by decide +kernel
  have hwhole : columnValue ⟨2024, 3, 15⟩ t (rangeText (Capitals.mk ['A', 'A']) (some 3)) = _ :=
    hcolumn.columnValue_headerRange ⟨2024, 3, 15⟩ (by decide) rfl
  simpa [rangeText, rowDigits, hthree, Value.ofCell] using hwhole

/-! ### Headers that look like cells -/

theorem eval_cell_unknown {ctx : Context} {name : String} (h : ctx.column? name = none)
    (row : Nat) : eval ctx (.call "getCellValue" [.text name, natExpr row]) = .ok .null := by
  have hresolve : resolveCall "getCellValue" 2 = .ok .cellAt := rfl
  have hvalue : ∀ i, ctx.cellAt name i = .null := fun i => by simp [Context.cellAt, h]
  rw [eval]
  simp [hresolve, evalAll, eval, natExpr, Builtin.apply, Library.cellAt, Value.asText, hvalue]

section

variable {letters : Capitals} {t : Table} (h : Unplaced t.schema letters)
include h

theorem column?_unplaced (today : Calendar.Date) :
    (⟨some t, today⟩ : Context).column? (.ofList letters.chars) = none := by
  have hcontains : t.schema.contains (.ofList letters.chars) = false := by
    simpa [Schema.contains] using h.spelling
  simp [Context.column?, hcontains, h.place]

theorem columnValue_unplaced (today : Calendar.Date) {n : Nat}
    (hn : 1 ≤ n ∧ n < Number.halfWord) :
    columnValue today t (letters.chars ++ Number.digitsOf n) = .ok .null := by
  rw [columnValue_fetch (.name (.cell letters n)) (by decide) (h.resolve_cell hn)]
  exact eval_cell_unknown (column?_unplaced h today) (n - 1)

theorem rowValue_unplaced {row : Row} (hrow : row.schema = t.schema) (ctx : Context)
    (functions : FunctionTable) (n : Nat) :
    rowValue ctx functions row (letters.chars ++ Number.digitsOf n) =
      .ok (.text (.ofList letters.chars)) := by
  have hstated : (Tree.reference (.cell letters n)).Stated := by
    simp [Tree.Stated, Tree.All, Ref.IsPlain]
  have hstatements : writeStatements (letters.chars ++ Number.digitsOf n) =
      letters.chars ++ Number.digitsOf n := by
    simpa [Tree.render, Ref.text, Tree.pieces, Piece.inScript, Piece.text] using
      writeStatements_render hstated
  simp only [rowValue, rowScript, String.toList_ofList, script, bodyScript, hstatements,
    h.resolve_rowCell hrow, run_cellLiteral ctx (c := .text (.ofList letters.chars)) rfl]
  rfl

end

/-- A header that looks like a cell, of letters that name no column, is not reached: over whole
columns it is a cell of no column, and in one row the text of its letters. Only a row number past 63
bits leaves the header. -/
theorem columnValue_cellHeader {t : Table} (ht : t.Sound) {letters : Capitals}
    (hletters : Unplaced t.schema letters) {n j : Nat} (hn : 1 ≤ n)
    (hname : t.schema.names[j]? = some (.ofList (letters.chars ++ Number.digitsOf n)))
    {cells : List Cell} (hcells : t.columns[j]? = some cells) (today : Calendar.Date) :
    (n < Number.halfWord →
      columnValue today t (letters.chars ++ Number.digitsOf n) = .ok .null) ∧
    (Number.halfWord ≤ n →
      columnValue today t (letters.chars ++ Number.digitsOf n) =
        .ok (.array (cells.map .ofCell))) ∧
    (∀ i row, t.row? i = some row → ∀ ctx functions,
      rowValue ctx functions row (letters.chars ++ Number.digitsOf n) =
        .ok (.text (.ofList letters.chars))) := by
  refine ⟨fun hsmall => columnValue_unplaced hletters today ⟨hn, hsmall⟩, fun hlarge => ?_, ?_⟩
  · have hheader : IsName (String.ofList (letters.chars ++ Number.digitsOf n)).toList := by
      simpa using IsName.cell letters n
    have hmem := List.mem_of_getElem? hname
    have hresolve := resolve_header_of_cells hheader hmem (notMem_reservedWords_cell letters n)
      (by simpa using resolveCells_of_le t.schema letters hlarge)
    have hindex := Schema.indexOf?_of_getElem? ht.distinct hname
    have hcolumn : t.column? (.ofList (letters.chars ++ Number.digitsOf n)) = some cells := by
      rw [Table.column?, hindex]
      exact hcells
    rw [String.toList_ofList] at hresolve
    rw [columnValue_fetch (.name (.cell letters n)) (by decide) hresolve]
    exact eval_column rfl hmem hcolumn
  · intro i row hrow ctx functions
    obtain ⟨-, rfl⟩ := Table.row_of_row? hrow
    exact rowValue_unplaced hletters rfl ctx functions n

/-- Years and quarters as headers, one of them past 63 bits. -/
theorem columnValue_cellHeader_quarters :
    let t : Table := ⟨⟨["region", "FY24", "Q9223372036854775808"]⟩,
      [[.text "east"], [.number 1], [.number 2]], 1⟩
    let row : Row := ⟨t.schema, 0, [.text "east", .number 1, .number 2]⟩
    let today : Calendar.Date := ⟨2024, 3, 15⟩
    let ctx : Context := ⟨some t, today⟩
    t.Sound ∧ t.row? 0 = some row ∧
      columnValue today t "FY24".toList = .ok .null ∧
      rowValue ctx .standard row "FY24".toList = .ok (.text "FY") ∧
      columnValue today t "Q9223372036854775808".toList = .ok (.array [.number 2]) ∧
      rowValue ctx .standard row "Q9223372036854775808".toList = .ok (.text "Q") := by
  intro t row today ctx
  have ht : t.Sound := ⟨⟨rfl, by simp [t]⟩, by decide⟩
  have hrow : t.row? 0 = some row := rfl
  have hdigits : Number.digitsOf 24 = ['2', '4'] ∧
      Number.digitsOf Number.halfWord = "9223372036854775808".toList := by decide +kernel
  obtain ⟨hyear, hlimit⟩ := hdigits
  have hyears : Unplaced t.schema (Capitals.mk ['F', 'Y']) := ⟨by decide +kernel, by decide⟩
  have hquarters : Unplaced t.schema (Capitals.mk ['Q']) := ⟨by decide +kernel, by decide⟩
  obtain ⟨hnull, -, htext⟩ := columnValue_cellHeader ht hyears (n := 24) (j := 1) (by decide)
    (by rw [hyear]; rfl) rfl today
  obtain ⟨-, hwhole, hletter⟩ := columnValue_cellHeader ht hquarters (n := Number.halfWord) (j := 2)
    (by decide) (by rw [hlimit]; rfl) rfl today
  have hcell := htext 0 row hrow ctx .standard
  have hlarge := hletter 0 row hrow ctx .standard
  rw [hyear] at hnull hcell
  rw [hlimit] at hwhole hlarge
  exact ⟨ht, hrow, hnull (by decide), hcell, hwhole (Nat.le_refl _), hlarge⟩

/-- The header of the only quarter gives no values. -/
theorem columnValue_quarter :
    let t : Table := ⟨⟨["region", "Q1"]⟩, [[.text "east"], [.number 10]], 1⟩
    let row : Row := ⟨t.schema, 0, [.text "east", .number 10]⟩
    let today : Calendar.Date := ⟨2024, 3, 15⟩
    columnValue today t "Q1".toList = .ok .null ∧
      rowValue ⟨some t, today⟩ .standard row "Q1".toList = .ok (.text "Q") := by
  intro t row today
  have hquarters : Unplaced t.schema (Capitals.mk ['Q']) := ⟨by decide +kernel, by decide⟩
  have hone : Number.digitsOf 1 = ['1'] := by decide +kernel
  have hcolumn := columnValue_unplaced hquarters today (n := 1) (by decide)
  have hrow : row.schema = t.schema := rfl
  have hcell := rowValue_unplaced hquarters hrow ⟨some t, today⟩ .standard 1
  rw [hone] at hcolumn hcell
  exact ⟨hcolumn, hcell⟩

end SheetBoard.Script
