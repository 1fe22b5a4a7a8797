import SheetBoard.Proofs.Formula.Substituting
import SheetBoard.Proofs.Number.ReadBack
import SheetBoard.Proofs.Script.References

/-! References in one row denote the row's cells, whatever the headers are: a cell is written as a
literal, and the literal is read and evaluated to the cell's value again. -/

namespace SheetBoard.Formula

/-- A tree whose references are all cells of the row. -/
def Tree.OverCells (row : Row) (e : Tree) : Prop :=
  e.All (fun r => ∃ letters n c, r = .cell letters n ∧ row.getByLetters? letters.chars = some c)
    fun name arguments => ∀ k ∈ keyword? name.chars, k.Admits arguments.length

theorem Tree.OverCells.stated {row : Row} {e : Tree} (h : e.OverCells row) : e.Stated := by
  refine Tree.All.imp (fun r hr => ?_) (fun _ _ hcall => hcall) h
  obtain ⟨letters, n, c, rfl, -⟩ := hr
  trivial

/-- In the script of such a tree the cells' literals stand where the references were, and headers
are looked for last. -/
theorem rowScript_cells (functions : FunctionTable) {row : Row} {e : Tree} (h : e.OverCells row) :
    (rowScript functions row (.ofList ('=' :: e.render))).toList = resolveNames (.row row)
      (textOf (((e.pieces fun _ => true).map Piece.inScript).flatMap
        ((Scope.row row).write fun _ => true))) := by
  have hoperand := (e.isOperand_pieces fun _ => true).map keepsRole_inScript
  have hvalid : ∀ p ∈ (e.pieces fun _ => true).map Piece.inScript, p.Valid := by
    simpa using fun p hp => (Tree.valid_pieces h.stated p hp).inScript
  simp only [rowScript, String.toList_ofList, script, bodyScript]
  rw [writeStatements_render h.stated]
  refine resolve_cells hoperand.chain hvalid fun r hr => ?_
  obtain ⟨p, hp, hreference⟩ := List.mem_map.1 hr
  rw [Piece.inScript_eq_reference hreference] at hp
  exact Tree.reference_of_mem h hp

section

variable (functions : FunctionTable) {row : Row} {x : Capitals} {c : Cell}
  (hx : row.getByLetters? x.chars = some c)
include hx

theorem rowScript_cell (n : Nat) :
    (rowScript functions row (.ofList ('=' :: (x.chars ++ Number.digitsOf n)))).toList =
      resolveNames (.row row) (cellLiteral c) := by
  have hcells : (Tree.reference (.cell x n)).OverCells row := by
    simp [Tree.OverCells, Tree.All, hx]
  simpa [Tree.render, Ref.text, Tree.pieces, Piece.inScript, Scope.write, Scope.pieces, hx,
    textOf_cellPieces] using rowScript_cells functions hcells

theorem rowScript_concat {y : Capitals} {d : Cell} (hy : row.getByLetters? y.chars = some d)
    (m n : Nat) :
    (rowScript functions row (.ofList ('=' ::
      (x.chars ++ Number.digitsOf m ++ '&' :: (y.chars ++ Number.digitsOf n))))).toList =
      resolveNames (.row row) (cellLiteral c ++ (plusText ++ cellLiteral d)) := by
  have hcells : (Tree.binary .concat (.reference (.cell x m)) (.reference (.cell y n))).OverCells
      row := by
    simp [Tree.OverCells, Tree.All, hx, hy]
  simpa [Tree.render, Tree.operandText, Tree.isOperator, operandPieces, Operator.text, Ref.text,
    Tree.pieces, Piece.inScript, Scope.write, Scope.pieces, hx, hy, textOf_cellPieces, Piece.text,
    Mark.text, Operator.scriptText, plusText] using rowScript_cells functions hcells

end

end SheetBoard.Formula

namespace SheetBoard.Script

open Formula

/-! ### The value of a literal -/

/-- The value of a cell in its row: a missing cell counts as zero, and zero has no sign. -/
def Value.ofRowCell (c : Cell) : Value :=
  if c.isMissing then .number 0
  else
    match c with
    | .number x => .number (Number.plainZero x)
    | c => .ofCell c

theorem eval_numeralExpr (ctx : Context) (n : Number.Numeral) :
    eval ctx (numeralExpr n.text) = .ok (.number n.value) := by
  rw [numeralExpr, value_numeral, eval]

theorem eval_cellExpr_number (ctx : Context) {x : Float} (hx : Number.IsFinite x) :
    eval ctx (cellExpr (.number x)) = .ok (.number (Number.plainZero x)) := by
  have hmissing : (Cell.number x).isMissing = false := (Number.isFinite_iff.1 hx).1
  obtain ⟨negative, m, q, hexact⟩ := hx
  obtain ⟨minus, n, htext, hvalue⟩ := Number.display_eq_signed hexact
  rw [← hvalue]
  simp only [cellExpr, hmissing, Bool.false_eq_true, if_false, htext]
  cases minus with
  | true =>
      simp [Number.signed, eval, eval_numeralExpr, unaryValue, Value.map, Value.toFloat,
        Value.toFloat?, Number.withSign]
  | false =>
      -- A numeral without a sign starts with a digit.
      obtain ⟨first, rest, hfirst, hdigit⟩ := n.text_eq_cons
      have hsign : first ≠ '-' := by
        rintro rfl
        cases hdigit
      have hplain := eval_numeralExpr ctx n
      rw [hfirst] at hplain
      simp only [Number.signed, hfirst, Bool.false_eq_true, if_false]
      split
      · simp_all
      · exact hplain

/-- The expression of a cell's literal has the cell's value. -/
theorem eval_cellExpr (ctx : Context) {c : Cell} (hc : c.isInfinite = false) :
    eval ctx (cellExpr c) = .ok (.ofRowCell c) := by
  cases hmissing : c.isMissing with
  | true =>
      simp only [cellExpr, Value.ofRowCell, hmissing, if_true]
      exact eval_numeralExpr ctx (.ofNat 0)
  | false =>
      cases c with
      | empty => cases hmissing
      | boolean b => simp [cellExpr, Value.ofRowCell, Value.ofCell, Cell.isMissing, eval]
      | text s => simp [cellExpr, Value.ofRowCell, Value.ofCell, Cell.isMissing, eval]
      | number x =>
          rw [eval_cellExpr_number ctx (Number.isFinite_iff.2 ⟨hmissing, hc⟩)]
          simp only [Value.ofRowCell, hmissing, Bool.false_eq_true, if_false]

/-- A literal is read and evaluated to the cell's value. -/
theorem run_cellLiteral (ctx : Context) {c : Cell} (hc : c.isInfinite = false) :
    run ctx (cellLiteral c) = .ok (.ofRowCell c) := by
  have hread : read (cellLiteral c) = .ok (cellExpr c) := by
    cases hmissing : c.isMissing with
    | true =>
        simp only [cellLiteral, cellExpr, hmissing, if_true]
        exact read_cellLiteral (c := .empty) (by simp)
    | false =>
        refine read_cellLiteral ?_
        rintro x rfl
        exact Number.isFinite_iff.2 ⟨hmissing, hc⟩
  simp only [run, hread, eval_cellExpr ctx hc]

/-- The word for an infinite number has no value. -/
theorem run_infinityWord (ctx : Context) (minus : Bool) :
    run ctx (Number.signed minus infinityWord) = .error (.unknownName "inf") := by
  have hname : nameValue "inf" = .error (.unknownName "inf") := rfl
  cases minus with
  | false =>
      have hread : read (Number.signed false infinityWord) = .ok (.name "inf") := by cbv
      simp only [run, hread, eval, hname]
  | true =>
      have hread : read (Number.signed true infinityWord) =
          .ok (.unary .negate (.name "inf")) := by cbv
      simp only [run, hread, eval, hname]

/-! ### One reference -/

/-- The value of a formula, without its equals sign, in one row. -/
def rowValue (ctx : Context) (functions : FunctionTable) (row : Row) (formula : List Char) :
    Except ScriptError Value :=
  run ctx (rowScript functions row (.ofList ('=' :: formula))).toList

section

variable {row : Row} {x : Capitals} {c : Cell} (hx : row.getByLetters? x.chars = some c)
  (ctx : Context) (functions : FunctionTable)
include hx

theorem rowValue_cell (n : Nat) : rowValue ctx functions row (x.chars ++ Number.digitsOf n) =
    run ctx (resolveNames (.row row) (cellLiteral c)) := by
  rw [rowValue, rowScript_cell functions hx]

theorem rowValue_cell_of_isInfinite_eq_false (hc : c.isInfinite = false) (n : Nat) :
    rowValue ctx functions row (x.chars ++ Number.digitsOf n) = .ok (.ofRowCell c) := by
  rw [rowValue_cell hx, resolveNames_cellLiteral hc, run_cellLiteral ctx hc]

theorem rowValue_cell_of_isInfinite (hc : c.isInfinite = true)
    (hheaders : "inf" ∉ row.schema.names) (n : Nat) :
    rowValue ctx functions row (x.chars ++ Number.digitsOf n) = .error (.unknownName "inf") := by
  obtain ⟨minus, hliteral⟩ := cellLiteral_of_isInfinite hc
  rw [rowValue_cell hx, hliteral, resolveNames_infinityWord (.row row) hheaders, run_infinityWord]

end

/-- The letters of a column find its cell in each row. -/
theorem getByLetters?_of_column {t : Table} (ht : t.Sound) {i j : Nat} {row : Row}
    (hrow : t.row? i = some row) {cells : List Cell} (hcells : t.columns[j]? = some cells)
    {c : Cell} (hc : cells[i]? = some c) (hletters : Letters.ofIndex j ≠ []) :
    ∃ letters : Capitals, letters.chars = Letters.ofIndex j ∧
      row.getByLetters? letters.chars = some c := by
  have hj : j < t.schema.names.length := by
    have hlt := (List.getElem?_eq_some_iff.1 hcells).1
    rwa [ht.width] at hlt
  obtain ⟨name, hname⟩ : ∃ name, t.schema.names[j]? = some name := ⟨_, List.getElem?_eq_getElem hj⟩
  obtain ⟨letters, hchars, hcolumn⟩ := columnOf_getElem? ht hname hcells hletters
  refine ⟨letters, hchars, ?_⟩
  have hindex : t.schema.indexOf? name = some j := Schema.indexOf?_of_getElem? ht.distinct hname
  obtain ⟨hi, rfl⟩ := Table.row_of_row? hrow
  simp [Row.getByLetters?, hcolumn.nameAt, Row.get?, hindex,
    Table.getElem?_cellsAt ht.toWellFormed hi hcells, hc]

/-- A reference in one row gives the row's cell, whatever its row number and the headers are: a text,
a truth value or a finite number as it is, and zero for a missing cell. An infinite number has no
value, unless a header is spelled like its word. -/
theorem rowValue_reference {t : Table} (ht : t.Sound) {i j : Nat} {row : Row}
    (hrow : t.row? i = some row) {cells : List Cell} (hcells : t.columns[j]? = some cells)
    {c : Cell} (hc : cells[i]? = some c) {letters : List Char}
    (hletters : letters = Letters.ofIndex j) (hne : letters ≠ []) (ctx : Context)
    (functions : FunctionTable) :
    (∀ m n, rowValue ctx functions row (letters ++ Number.digitsOf m) =
      rowValue ctx functions row (letters ++ Number.digitsOf n)) ∧
    (c.isInfinite = false → ∀ n,
      rowValue ctx functions row (letters ++ Number.digitsOf n) = .ok (.ofRowCell c)) ∧
    (c.isInfinite = true → "inf" ∉ t.schema.names → ∀ n,
      rowValue ctx functions row (letters ++ Number.digitsOf n) =
        .error (.unknownName "inf")) := by
  obtain ⟨capitals, hcapitals, hx⟩ := getByLetters?_of_column ht hrow hcells hc (hletters ▸ hne)
  obtain ⟨-, rfl⟩ := Table.row_of_row? hrow
  rw [hletters, ← hcapitals]
  refine ⟨fun m n => ?_, fun hfinite n => ?_, fun hinfinite hheaders n => ?_⟩
  · rw [rowValue_cell hx, rowValue_cell hx]
  · exact rowValue_cell_of_isInfinite_eq_false hx ctx functions hfinite n
  · exact rowValue_cell_of_isInfinite hx ctx functions hinfinite hheaders n

/-- Headers that are spelled like parts of the literals, next to a text that looks like a formula. -/
theorem rowValue_reference_literals :
    let t : Table := ⟨⟨["True", "say", "5", "A2"]⟩,
      [[.text "say \"B2\" & A2"], [.number (-1.5)], [.boolean true], [.number (1.0 / 0.0)]], 1⟩
    let row : Row :=
      ⟨t.schema, 0, [.text "say \"B2\" & A2", .number (-1.5), .boolean true, .number (1.0 / 0.0)]⟩
    let ctx : Context := ⟨none, ⟨2024, 3, 15⟩⟩
    t.Sound ∧ t.row? 0 = some row ∧
      rowValue ctx .standard row "A7".toList = .ok (.text "say \"B2\" & A2") ∧
      rowValue ctx .standard row "B2".toList = .ok (.number (-1.5)) ∧
      rowValue ctx .standard row "C0".toList = .ok (.boolean true) ∧
      rowValue ctx .standard row "D2".toList = .error (.unknownName "inf") := by
  intro t row ctx
  have ht : t.Sound := ⟨⟨rfl, by simp [t]⟩, by decide⟩
  have hrow : t.row? 0 = some row := rfl
  have ha : ['A'] = Letters.ofIndex 0 := by decide +kernel
  have hb : ['B'] = Letters.ofIndex 1 := by decide +kernel
  have hc : ['C'] = Letters.ofIndex 2 := by decide +kernel
  have hd : ['D'] = Letters.ofIndex 3 := by decide +kernel
  have htext := (rowValue_reference ht hrow rfl rfl ha (by decide) ctx .standard).2.1 rfl 7
  have hnumber := (rowValue_reference ht hrow rfl rfl hb (by decide) ctx .standard).2.1
    (by decide +kernel) 2
  have htruth := (rowValue_reference ht hrow rfl rfl hc (by decide) ctx .standard).2.1 rfl 0
  have hinfinite := (rowValue_reference ht hrow rfl rfl hd (by decide) ctx .standard).2.2
    (by decide +kernel) (by decide) 2
  have hvalue : Value.ofRowCell (.number (-1.5)) = .number (-1.5) := by
    have hmissing : (Cell.number (-1.5)).isMissing = false := by decide +kernel
    have hplain : Number.plainZero (-1.5) = -1.5 := by decide +kernel
    simp only [Value.ofRowCell, hmissing, hplain, Bool.false_eq_true, if_false]
  have hdigits : Number.digitsOf 7 = ['7'] ∧ Number.digitsOf 2 = ['2'] ∧
      Number.digitsOf 0 = ['0'] := by decide +kernel
  obtain ⟨hseven, htwo, hzero⟩ := hdigits
  rw [hseven] at htext
  rw [htwo] at hnumber hinfinite
  rw [hzero] at htruth
  exact ⟨ht, hrow, htext, hnumber.trans (congrArg _ hvalue), htruth, hinfinite⟩

/-- An infinite number is lost in its own row. -/
theorem rowValue_infinite :
    let row : Row := ⟨⟨["a"]⟩, 0, [.number (1.0 / 0.0)]⟩
    rowValue ⟨none, ⟨2024, 3, 15⟩⟩ .standard row "A2".toList = .error (.unknownName "inf") := by
  intro row
  have hx : row.getByLetters? (Capitals.mk ['A']).chars = some (.number (1.0 / 0.0)) := by
    decide +kernel
  have htwo : Number.digitsOf 2 = ['2'] := by decide +kernel
  simpa [htwo] using rowValue_cell_of_isInfinite hx ⟨none, ⟨2024, 3, 15⟩⟩ .standard
    (by decide +kernel) (by decide) 2

/-! ### Two references with an ampersand between them -/

section

variable {c d : Cell} (hc : c.Plain) (hd : d.Plain)
include hc hd

/-- The two literals are read as the operands of a sum. -/
theorem read_sum : read (cellLiteral c ++ (plusText ++ cellLiteral d)) =
    .ok (.binary .add (cellExpr c) (cellExpr d)) := by
  obtain ⟨hoperandc, hvalidc⟩ := cellPieces_operand hc.finite
  obtain ⟨hoperandd, hvalidd⟩ := cellPieces_operand hd.finite
  have htext : cellLiteral c ++ (plusText ++ cellLiteral d) =
      textOf (cellPieces c ++ .mark (.scriptOperator .concat) :: cellPieces d) := by
    simp [textOf_cellPieces, Piece.text, Mark.text, Operator.scriptText, plusText]
  rw [htext]
  refine read_textOf (hoperandc.infixed hoperandd rfl (by simp) (by simp)) ?_ ?_ ?_
  · intro p hp
    rcases List.mem_append.1 hp with hp | hp
    · exact (hvalidc p hp).legible
    · rcases List.mem_cons.1 hp with rfl | hp
      · trivial
      · exact (hvalidd p hp).legible
  · intro p hp
    rcases List.mem_append.1 hp with hp | hp
    · exact isScript_of_mem_cellPieces hp
    · rcases List.mem_cons.1 hp with rfl | hp
      · rfl
      · exact isScript_of_mem_cellPieces hp
  · simpa [Piece.tokens, Mark.token, Operator.meaning] using
      (reads_cell c).binary (reads_cell d) .concat

theorem run_sum (ctx : Context) : run ctx (cellLiteral c ++ (plusText ++ cellLiteral d)) =
    .ok ((Value.ofRowCell c).combine (binaryValue .add) (.ofRowCell d)) := by
  have hleft := eval_cellExpr ctx hc.isInfinite_eq_false
  have hright := eval_cellExpr ctx hd.isInfinite_eq_false
  simp only [run, read_sum hc hd]
  rw [eval, hleft, hright]
  simp

end

theorem Value.ofRowCell_text (s : String) : ofRowCell (.text s) = .text s := rfl

theorem Value.ofRowCell_number {x : Float} (hx : Number.IsFinite x) :
    ofRowCell (.number x) = .number (Number.plainZero x) := by
  have hmissing : (Cell.number x).isMissing = false := (Number.isFinite_iff.1 hx).1
  simp only [ofRowCell, hmissing, Bool.false_eq_true, if_false]

theorem Value.asText_plainZero {x : Float} (hx : Number.IsFinite x) :
    (Value.number (Number.plainZero x)).asText = (Value.number x).asText := by
  obtain ⟨negative, m, q, hexact⟩ := hx
  rw [asText, asText, Number.display_plainZero hexact]

/-- A sum with a text joins the texts of the two cells. -/
theorem combine_add_text {c d : Cell} (hc : c.Plain) (hd : d.Plain)
    (htext : (∃ s, c = .text s) ∨ ∃ s, d = .text s) :
    (Value.ofRowCell c).combine (binaryValue .add) (.ofRowCell d) =
      .text (.ofList ((Value.ofCell c).asText ++ (Value.ofCell d).asText)) := by
  cases hc with
  | text s =>
      cases hd with
      | text t => rfl
      | number hy =>
          rw [Value.ofRowCell_text, Value.ofRowCell_number hy, Value.ofCell, Value.ofCell,
            ← Value.asText_plainZero hy]
          rfl
  | number hx =>
      cases hd with
      | text t =>
          rw [Value.ofRowCell_text, Value.ofRowCell_number hx, Value.ofCell, Value.ofCell,
            ← Value.asText_plainZero hx]
          rfl
      | number hy => simp at htext

theorem combine_add_number {x y : Float} (hx : Number.IsFinite x) (hy : Number.IsFinite y) :
    (Value.ofRowCell (.number x)).combine (binaryValue .add) (.ofRowCell (.number y)) =
      .number (Number.plainZero x + Number.plainZero y) := by
  rw [Value.ofRowCell_number hx, Value.ofRowCell_number hy]
  rfl

theorem rowValue_concat {row : Row} {x y : Capitals} {c d : Cell}
    (hx : row.getByLetters? x.chars = some c) (hy : row.getByLetters? y.chars = some d)
    (hc : c.Plain) (hd : d.Plain)
    (hplus : ∀ v w, c = .number v → d = .number w → ∀ name ∈ row.schema.names, '+' ∉ name.toList)
    (ctx : Context) (functions : FunctionTable) (m n : Nat) :
    rowValue ctx functions row
      (x.chars ++ Number.digitsOf m ++ '&' :: (y.chars ++ Number.digitsOf n)) =
      .ok ((Value.ofRowCell c).combine (binaryValue .add) (.ofRowCell d)) := by
  have hnames : resolveNames (.row row) (cellLiteral c ++ (plusText ++ cellLiteral d)) =
      cellLiteral c ++ (plusText ++ cellLiteral d) :=
    resolveNames_eq_self fun header hmem hheader =>
      resolveName_sum hheader _ hc hd fun v w hv hw => hplus v w hv hw header hmem
  rw [rowValue, rowScript_concat functions hx hy, hnames, run_sum hc hd]

/-- An ampersand between two references in a row joins the texts of the cells if one of them is a
text, whatever the headers are. Two numbers are added, if no header with a plus sign is in the way.
-/
theorem rowValue_ampersand {t : Table} (ht : t.Sound) {i j k : Nat} {row : Row}
    (hrow : t.row? i = some row) {xs ys : List Cell} (hxs : t.columns[j]? = some xs)
    (hys : t.columns[k]? = some ys) {c d : Cell} (hc : xs[i]? = some c) (hd : ys[i]? = some d)
    (hcplain : c.Plain) (hdplain : d.Plain) {x y : List Char} (hx : x = Letters.ofIndex j)
    (hy : y = Letters.ofIndex k) (hxne : x ≠ []) (hyne : y ≠ []) (ctx : Context)
    (functions : FunctionTable) (m n : Nat) :
    ((∃ s, c = .text s) ∨ (∃ s, d = .text s) →
      rowValue ctx functions row (x ++ Number.digitsOf m ++ '&' :: (y ++ Number.digitsOf n)) =
        .ok (.text (.ofList ((Value.ofCell c).asText ++ (Value.ofCell d).asText)))) ∧
    (∀ v w, c = .number v → d = .number w → (∀ name ∈ t.schema.names, '+' ∉ name.toList) →
      rowValue ctx functions row (x ++ Number.digitsOf m ++ '&' :: (y ++ Number.digitsOf n)) =
        .ok (.number (Number.plainZero v + Number.plainZero w))) := by
  obtain ⟨left, hleft, hxcell⟩ := getByLetters?_of_column ht hrow hxs hc (hx ▸ hxne)
  obtain ⟨right, hright, hycell⟩ := getByLetters?_of_column ht hrow hys hd (hy ▸ hyne)
  obtain ⟨-, rfl⟩ := Table.row_of_row? hrow
  rw [hx, hy, ← hleft, ← hright]
  constructor
  · intro htext
    have hnumbers : ∀ v w, c = .number v → d = .number w → ∀ name ∈ t.schema.names,
        '+' ∉ name.toList := by
      rintro v w rfl rfl
      simp at htext
    rw [rowValue_concat hxcell hycell hcplain hdplain hnumbers,
      combine_add_text hcplain hdplain htext]
  · rintro v w rfl rfl hplus
    rw [rowValue_concat hxcell hycell hcplain hdplain fun _ _ _ _ => hplus,
      combine_add_number (hcplain.finite v rfl) (hdplain.finite w rfl)]

/-- A text and a number, and two numbers. One header is spelled like a part of the text, another like
digits of a number. -/
theorem rowValue_ampersand_mixed :
    let t : Table := ⟨⟨["say", "5", "c"]⟩,
      [[.text "say \"B2\" + 5"], [.number (-1.5)], [.number 2]], 1⟩
    let row : Row := ⟨t.schema, 0, [.text "say \"B2\" + 5", .number (-1.5), .number 2]⟩
    let ctx : Context := ⟨none, ⟨2024, 3, 15⟩⟩
    t.Sound ∧ t.row? 0 = some row ∧
      rowValue ctx .standard row "A2&B2".toList = .ok (.text "say \"B2\" + 5-1.5") ∧
      rowValue ctx .standard row "B2&C2".toList = .ok (.number 0.5) := by
  intro t row ctx
  have ht : t.Sound := ⟨⟨rfl, by simp [t]⟩, by decide⟩
  have hrow : t.row? 0 = some row := rfl
  have ha : ['A'] = Letters.ofIndex 0 := by decide +kernel
  have hb : ['B'] = Letters.ofIndex 1 := by decide +kernel
  have hc : ['C'] = Letters.ofIndex 2 := by decide +kernel
  have hfinite : Number.IsFinite (-1.5) ∧ Number.IsFinite 2 := by
    simp only [Number.isFinite_iff]
    decide +kernel
  have hjoined := (rowValue_ampersand ht hrow rfl rfl rfl rfl (.text _) (.number hfinite.1) ha hb
    (by decide) (by decide) ctx .standard 2 2).1 (.inl ⟨_, rfl⟩)
  have hadded := (rowValue_ampersand ht hrow rfl rfl rfl rfl (.number hfinite.1)
    (.number hfinite.2) hb hc (by decide) (by decide) ctx .standard 2 2).2 _ _ rfl rfl (by decide)
  have htext : String.ofList ((Value.ofCell (.text "say \"B2\" + 5")).asText ++
      (Value.ofCell (.number (-1.5))).asText) = "say \"B2\" + 5-1.5" := by
    simp only [Value.ofCell, Value.asText]
    decide +kernel
  have hsum : Number.plainZero (-1.5) + Number.plainZero 2 = 0.5 := by decide +kernel
  have htwo : Number.digitsOf 2 = ['2'] := by decide +kernel
  rw [htwo, htext] at hjoined
  rw [htwo, hsum] at hadded
  exact ⟨ht, hrow, hjoined, hadded⟩

/-- Two numbers are not joined: one and two give three. -/
theorem rowValue_ampersand_numbers :
    let row : Row := ⟨⟨["a", "b"]⟩, 0, [.number 1, .number 2]⟩
    rowValue ⟨none, ⟨2024, 3, 15⟩⟩ .standard row "A2&B2".toList = .ok (.number 3) := by
  intro row
  have hx : row.getByLetters? (Capitals.mk ['A']).chars = some (.number 1) := by decide +kernel
  have hy : row.getByLetters? (Capitals.mk ['B']).chars = some (.number 2) := by decide +kernel
  have hfinite : Number.IsFinite 1 ∧ Number.IsFinite 2 := by
    simp only [Number.isFinite_iff]
    decide +kernel
  have hadded := rowValue_concat hx hy (.number hfinite.1) (.number hfinite.2)
    (fun _ _ _ _ => by decide) ⟨none, ⟨2024, 3, 15⟩⟩ .standard 2 2
  have hsum : Number.plainZero 1 + Number.plainZero 2 = 3 := by decide +kernel
  have htwo : Number.digitsOf 2 = ['2'] := by decide +kernel
  rw [combine_add_number hfinite.1 hfinite.2, hsum, htwo] at hadded
  exact hadded

end SheetBoard.Script
