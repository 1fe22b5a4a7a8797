import SheetBoard.Dashboard.Board
import SheetBoard.Proofs.Formula.Fetching
import SheetBoard.Proofs.Number.Whole
import SheetBoard.Proofs.Script.Compilation
import SheetBoard.Proofs.Script.Rowwise
import SheetBoard.Proofs.Table.Changes

/-! References over whole columns denote the data of their columns, whatever the headers are: a
reference that stands alone is read as one fetch, which finds its column by name and its rows by
number. -/

namespace SheetBoard.Script

open Formula

/-! ### One fetch -/

section

variable {schema : Schema} {x : List Char} (hx : Innocent x) {callee name : String}
  (hcallee : callee ∈ fetchNames) {row : Option Nat}
  (hresolve : resolve (.columns schema) x = textOf (fetchPieces callee name row))

include hx hcallee hresolve

/-- A text that is resolved to a fetch is read as the call. -/
theorem read_columnScript_fetch : read (columnScript .standard schema (.ofList ('=' :: x))).toList =
    .ok (.call callee (.text name :: (row.map natExpr).toList)) := by
  obtain ⟨hoperand, hvalid⟩ :=
    fetchPieces_operand (isName_of_mem_fetchNames callee hcallee) name row
  simp only [columnScript, String.toList_ofList, script, bodyScript]
  rw [hx.writeGrowth, hresolve]
  exact read_writeOperators_apply hoperand hvalid (fetchPieces_plain callee name row).2
    (reference_notMem_fetchPieces callee name row) (reads_fetch hcallee name row).derives

end

/-! ### Row numbers -/

theorem wholeArgument_number (v : Value) (x : Float) (default : Int) :
    wholeArgument [v, .number x] 1 default = if x.isNaN then default else Number.toInt x := rfl

theorem wholeArgument_natExpr (v : Value) (n : Nat) (default : Int) :
    wholeArgument [v, .number (Number.ofDecimal n 0)] 1 default =
      Number.toInt (Number.ofDecimal n 0) := by
  rw [wholeArgument_number, Number.isNaN_ofDecimal]
  rfl

section

variable {α : Type} {xs : List α} (hlength : xs.length < 2 ^ 53)
include hlength

/-- A row number that is not exact is past the end. -/
theorem getElem?_toInt_ofDecimal (row : Nat) :
    xs[(Number.toInt (Number.ofDecimal row 0)).toNat - 1]? = xs[row - 1]? := by
  by_cases hrow : row ≤ 2 ^ 53
  · rw [Number.toInt_ofDecimal hrow, Int.toNat_natCast]
  · have hread := Number.two_pow_le_toInt_ofDecimal (n := row) (by omega)
    rw [List.getElem?_eq_none (by omega), List.getElem?_eq_none (by omega)]

/-- There is one start row that would have to be exact and is not. -/
theorem drop_toInt_ofDecimal {start : Nat}
    (hstart : start ≠ 2 ^ 53 + 1 ∨ xs.length + 1 < 2 ^ 53) :
    xs.drop ((Number.toInt (Number.ofDecimal start 0)).toNat - 2) = xs.drop (start - 2) := by
  by_cases hexact : start ≤ 2 ^ 53
  · rw [Number.toInt_ofDecimal hexact, Int.toNat_natCast]
  · rcases hstart with hstart | hstart
    · have hread := Number.le_toInt_ofDecimal (m := 2 ^ 53 + 2) (n := start) (by omega) (by decide)
        (by decide) (by omega)
      rw [List.drop_eq_nil_of_le (by omega), List.drop_eq_nil_of_le (by omega)]
    · have hread := Number.two_pow_le_toInt_ofDecimal (n := start) (by omega)
      rw [List.drop_eq_nil_of_le (by omega), List.drop_eq_nil_of_le (by omega)]

end

/-! ### The value of a fetch -/

section

variable {ctx : Context} {name column : String} {cells : List Cell}
  (hcolumn : ctx.column? name = some (column, cells))
include hcolumn

theorem Context.cellAt_of_pos {row : Nat} (hrow : 0 < row) :
    ctx.cellAt name row = (cells[row - 1]?.map .ofCell).getD .null := by
  obtain ⟨i, rfl⟩ := Nat.exists_eq_succ_of_ne_zero (Nat.ne_of_gt hrow)
  simp [Context.cellAt, hcolumn]

/-- A fetched column starts at the row that its number is read as. -/
theorem eval_columnFrom (start : Nat) :
    eval ctx (.call "getColumnData" [.text name, natExpr start]) =
      .ok (.array ((cells.drop ((Number.toInt (Number.ofDecimal start 0)).toNat - 2)).map
        .ofCell)) := by
  have hresolve : resolveCall "getColumnData" 2 = .ok .columnFrom := rfl
  rw [eval]
  simp [hresolve, evalAll, eval, natExpr, Builtin.apply, Library.columnFrom,
    wholeArgument_natExpr, Value.asText, Context.columnFrom, Table.rowsBefore, hcolumn]

theorem eval_cell (hlength : cells.length < 2 ^ 53) {row : Nat} (hrow : 0 < row) :
    eval ctx (.call "getCellValue" [.text name, natExpr row]) =
      .ok ((cells[row - 1]?.map .ofCell).getD .null) := by
  have hresolve : resolveCall "getCellValue" 2 = .ok .cellAt := rfl
  have hread : 0 < Number.toInt (Number.ofDecimal row 0) := by
    by_cases hexact : row ≤ 2 ^ 53
    · rw [Number.toInt_ofDecimal hexact]
      omega
    · have hlarge := Number.two_pow_le_toInt_ofDecimal (n := row) (by omega)
      omega
  have hvalue : ctx.cellAt name (Number.toInt (Number.ofDecimal row 0)).toNat =
      (cells[row - 1]?.map .ofCell).getD .null := by
    rw [Context.cellAt_of_pos hcolumn (by omega), getElem?_toInt_ofDecimal hlength]
  rw [eval]
  simp [hresolve, evalAll, eval, natExpr, Builtin.apply, Library.cellAt,
    wholeArgument_natExpr, Value.asText, Int.le_of_lt hread, hvalue]

end

/-! ### The data of a reference -/

/-- The value of a formula, without its equals sign, over the columns of a table. -/
def columnValue (today : Calendar.Date) (t : Table) (formula : List Char) :
    Except ScriptError Value :=
  Dashboard.evaluate today t (columnScript .standard t.schema (.ofList ('=' :: formula)))

theorem columnValue_fetch {t : Table} {x : List Char} (hx : Innocent x) {callee name : String}
    (hcallee : callee ∈ fetchNames) {row : Option Nat}
    (hresolve : resolve (.columns t.schema) x = textOf (fetchPieces callee name row))
    (today : Calendar.Date) : columnValue today t x =
      eval ⟨some t, today⟩ (.call callee (.text name :: (row.map natExpr).toList)) := by
  simp only [columnValue, Dashboard.evaluate, run, read_columnScript_fetch hx hcallee hresolve]

theorem innocent_rangeText (letters : Capitals) (first : Option Nat) :
    Innocent (rangeText letters first) := by
  simpa [Ref.text, rangeText, rowDigits] using (Ref.range letters first none).innocent trivial

/-- The letters, the name and the cells of a column. -/
structure ColumnOf (t : Table) (letters : Capitals) (name : String) (cells : List Cell) : Prop where
  nameAt : t.schema.nameAt? letters.chars = some name
  column : t.column? name = some cells
  length : cells.length = t.rowCount

namespace ColumnOf

variable {t : Table} {letters : Capitals} {name : String} {cells : List Cell}
  (h : ColumnOf t letters name cells) (today : Calendar.Date)
include h

theorem mem_names : name ∈ t.schema.names := nameAt?_mem h.nameAt

theorem column?_eq : (⟨some t, today⟩ : Context).column? name = some (name, cells) :=
  Context.column?_eq_some rfl h.mem_names h.column

theorem eval_whole : eval ⟨some t, today⟩ (.call "getColumnData" [.text name]) =
    .ok (.array (cells.map .ofCell)) :=
  eval_column rfl h.mem_names h.column

/-- The data from the second row on are all of the column. -/
theorem eval_fromSecond : eval ⟨some t, today⟩ (.call "getColumnData" [.text name, natExpr 2]) =
    .ok (.array (cells.map .ofCell)) := by
  rw [eval_columnFrom (h.column?_eq today), Number.toInt_ofDecimal (by decide)]
  rfl

theorem columnValue_header (hname : IsName name.toList) (hreserved : name ∉ reservedWords)
    (hcell : ¬IsCellText name.toList) :
    columnValue today t name.toList = .ok (.array (cells.map .ofCell)) := by
  have hresolve := resolve_header hname h.mem_names hreserved hcell
  rw [columnValue_fetch (.name hname) (by decide) hresolve]
  exact h.eval_whole today

theorem columnValue_cell (hrows : t.rowCount < 2 ^ 53) {row : Nat}
    (hrow : 2 ≤ row ∧ row < Number.halfWord) :
    columnValue today t (letters.chars ++ Number.digitsOf row) =
      .ok ((cells[row - 2]?.map .ofCell).getD .null) := by
  have hresolve := resolve_cell h.nameAt ⟨Nat.le_of_succ_le hrow.1, hrow.2⟩
  rw [columnValue_fetch (.name (.cell letters row)) (by decide) hresolve]
  exact eval_cell (h.column?_eq today) (h.length ▸ hrows) (by omega)

section

variable (hletters : String.ofList letters.chars ∉ t.schema.names)
include hletters

theorem columnValue_range (first : Option Nat) :
    columnValue today t (rangeText letters first) =
      eval ⟨some t, today⟩ (.call "getColumnData"
        (.text name :: ((first.filter (· ≠ 1)).map natExpr).toList)) :=
  columnValue_fetch (innocent_rangeText letters first) (by decide)
    (resolve_range h.nameAt hletters first) today

theorem columnValue_wholeRange :
    columnValue today t (letters.chars ++ ':' :: letters.chars) =
      .ok (.array (cells.map .ofCell)) := by
  have hrange := h.columnValue_range today hletters none
  rw [rangeText, rowDigits, Option.map_none, Option.getD_none, List.append_nil] at hrange
  exact hrange.trans (h.eval_whole today)

theorem columnValue_rangeFrom (start : Nat) :
    columnValue today t (letters.chars ++ Number.digitsOf start ++ ':' :: letters.chars) =
      .ok (.array ((cells.drop ((Number.toInt (Number.ofDecimal start 0)).toNat - 2)).map
        .ofCell)) := by
  refine (h.columnValue_range today hletters (some start)).trans ?_
  by_cases hone : start = 1
  · -- The header's row is no limit, which comes to the same as the number one.
    subst hone
    have hread : Number.toInt (Number.ofDecimal 1 0) = 1 := Number.toInt_ofDecimal (by decide)
    rw [hread]
    exact h.eval_whole today
  · have hsome : (some start).filter (· ≠ 1) = some start := by simp [hone]
    rw [hsome]
    exact eval_columnFrom (h.column?_eq today) start

end

end ColumnOf

/-- A column's place gives its letters, its name and its cells. -/
theorem columnOf_getElem? {t : Table} (ht : t.Sound) {j : Nat} {name : String} {cells : List Cell}
    (hname : t.schema.names[j]? = some name) (hcells : t.columns[j]? = some cells)
    (hletters : Letters.ofIndex j ≠ []) :
    ∃ letters : Capitals, letters.chars = Letters.ofIndex j ∧ ColumnOf t letters name cells := by
  have hindex : t.schema.indexOf? name = some j := Schema.indexOf?_of_getElem? ht.distinct hname
  have hspelled : t.schema.lettersOf? name = some (Letters.ofIndex j) := by
    simp [Schema.lettersOf?, hindex]
  obtain ⟨hnameAt, hcapitals⟩ := Schema.nameAt?_of_lettersOf? hspelled hletters
  refine ⟨⟨Letters.ofIndex j, hletters, fun c hc => ?_⟩, rfl, hnameAt, ?_, ?_⟩
  · simpa [isCapital] using hcapitals c hc
  · simp [Table.column?, hindex, hcells]
  · exact ht.height cells (List.mem_of_getElem? hcells)

/-- A column's place gives its letters and its name. -/
theorem exists_columnOf {t : Table} (ht : t.Sound) {j : Nat} {cells : List Cell}
    (hcells : t.columns[j]? = some cells) (hletters : Letters.ofIndex j ≠ []) :
    ∃ (letters : Capitals) (name : String), letters.chars = Letters.ofIndex j ∧
      ColumnOf t letters name cells := by
  have hj : j < t.schema.names.length := by
    rw [← Schema.size, ← ht.width]
    exact (List.getElem?_eq_some_iff.1 hcells).1
  obtain ⟨letters, hchars, hcolumn⟩ :=
    columnOf_getElem? ht (List.getElem?_eq_getElem hj) hcells hletters
  exact ⟨letters, _, hchars, hcolumn⟩

/-- References over whole columns denote the data of the column in their place, whatever the headers
are: a cell its value or nothing past the end, a range of the column's letters the values from its
start row on, and a header that is a name of its own all values. Start rows are floats: `2 ^ 53 + 1`
is read as the row before, which makes a difference if the table ends there. -/
theorem columnValue_reference {t : Table} (ht : t.Sound) (hrows : t.rowCount < 2 ^ 53) {j : Nat}
    {name : String} {cells : List Cell} (hname : t.schema.names[j]? = some name)
    (hcells : t.columns[j]? = some cells) {letters : List Char}
    (hletters : letters = Letters.ofIndex j) (hne : letters ≠ []) (today : Calendar.Date) :
    (∀ row, 2 ≤ row ∧ row < Number.halfWord →
      columnValue today t (letters ++ Number.digitsOf row) =
        .ok ((cells[row - 2]?.map .ofCell).getD .null)) ∧
    (String.ofList letters ∉ t.schema.names →
      (∀ start, start ≠ 2 ^ 53 + 1 ∨ t.rowCount + 1 < 2 ^ 53 →
        columnValue today t (letters ++ Number.digitsOf start ++ ':' :: letters) =
          .ok (.array ((cells.drop (start - 2)).map .ofCell))) ∧
      columnValue today t (letters ++ Number.digitsOf (2 ^ 53 + 1) ++ ':' :: letters) =
        .ok (.array ((cells.drop (2 ^ 53 - 2)).map .ofCell)) ∧
      columnValue today t (letters ++ ':' :: letters) = .ok (.array (cells.map .ofCell))) ∧
    (IsName name.toList → name ∉ reservedWords → ¬IsCellText name.toList →
      columnValue today t name.toList = .ok (.array (cells.map .ofCell))) := by
  obtain ⟨capitals, hcapitals, h⟩ := columnOf_getElem? ht hname hcells (hletters ▸ hne)
  rw [hletters, ← hcapitals]
  refine ⟨fun row hrow => h.columnValue_cell today hrows hrow, fun hnone => ⟨?_, ?_, ?_⟩, ?_⟩
  · intro start hstart
    rw [h.columnValue_rangeFrom today hnone,
      drop_toInt_ofDecimal (h.length ▸ hrows) (h.length ▸ hstart)]
  · rw [h.columnValue_rangeFrom today hnone, Number.toInt_ofDecimal_limit]
    rfl
  · exact h.columnValue_wholeRange today hnone
  · exact h.columnValue_header today

/-- A header with a quote, a backslash and the letters of another column, next to headers that are
spelled like the calls. -/
theorem columnValue_reference_calls :
    let t : Table := ⟨⟨["getColumnData", "A \\\"B2\" x", "getCellValue"]⟩,
      [[.text "x", .boolean true], [.empty, .text "y"], [.text "z", .empty]], 2⟩
    let today : Calendar.Date := ⟨2024, 3, 15⟩
    t.Sound ∧ t.rowCount < 2 ^ 53 ∧
      columnValue today t "B3".toList = .ok (.text "y") ∧
      columnValue today t "B9".toList = .ok .null ∧
      columnValue today t "B3:B".toList = .ok (.array [.text "y"]) ∧
      columnValue today t "B:B".toList = .ok (.array [.null, .text "y"]) ∧
      columnValue today t "getColumnData".toList = .ok (.array [.text "x", .boolean true]) := by
  intro t today
  have ht : t.Sound := ⟨⟨rfl, by simp [t]⟩, by decide⟩
  have hrows : t.rowCount < 2 ^ 53 := by decide
  have ha : ['A'] = Letters.ofIndex 0 := by decide +kernel
  have hb : ['B'] = Letters.ofIndex 1 := by decide +kernel
  obtain ⟨hcell, hrange, -⟩ := columnValue_reference ht hrows rfl rfl hb (by decide) today
  obtain ⟨hfrom, -, hwhole⟩ := hrange (by decide)
  obtain ⟨-, -, hheader⟩ := columnValue_reference ht hrows rfl rfl ha (by decide) today
  have hrow := hcell 3 (by decide)
  have hpast := hcell 9 (by decide)
  have hstart := hfrom 3 (.inl (by decide))
  have hthree : Number.digitsOf 3 = ['3'] := by decide +kernel
  have hnine : Number.digitsOf 9 = ['9'] := by decide +kernel
  rw [hthree] at hrow hstart
  rw [hnine] at hpast
  have hname : ¬IsCellText "getColumnData".toList := by
    rintro ⟨⟨chars, hne, hcapitals⟩, digits, -, -, htext⟩
    cases chars with
    | nil => exact hne rfl
    | cons c chars =>
        obtain rfl : 'g' = c := (List.cons.inj htext).1
        exact absurd (hcapitals 'g' (by simp)) (by decide)
  exact ⟨ht, hrows, hrow, hpast, hstart, hwhole, hheader (by decide) (by decide) hname⟩

end SheetBoard.Script
