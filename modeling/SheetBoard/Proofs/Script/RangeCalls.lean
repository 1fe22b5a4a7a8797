import SheetBoard.Proofs.Script.AverageGrowth

/-! Calls around the range of a column, one within the other, under headers of any spelling. The
range becomes a fetch, and no header is found in the calls. -/

namespace SheetBoard.Formula

open Script

namespace Tree

/-- Calls of one argument around a range of a column from a row on, the outermost call first. -/
def around (words : List Identifier) (letters : Capitals) (row : Nat) : Tree :=
  words.foldr (fun word e => .call word [e]) (.reference (.range letters (some row) none))

section

variable (word : Identifier) (words : List Identifier) (letters : Capitals) (row : Nat)

theorem render_around_nil : (around [] letters row).render = rangeText letters (some row) := by
  simp [around, render, Ref.text, rangeText, rowDigits_none]

theorem render_around_cons :
    (around (word :: words) letters row).render =
      word.chars ++ parenthesised (around words letters row).render := by
  simp [around, render]

theorem pieces_around_cons :
    (around (word :: words) letters row).pieces (fun _ => false) =
      .callee word.chars :: (around words letters row).pieces (fun _ => false) ++
        [.mark .right] := by
  have hstatement : (keyword? word.chars).filter (fun _ => false) = none := by
    cases keyword? word.chars <;> rfl
  simp [around, pieces, callPieces, hstatement]

/-- A call around another one starts with a name, and so it is no growth. -/
theorem not_isGrowth_around (name : List Char) :
    ¬IsGrowth name [(around words letters row).render] := by
  rintro ⟨-, x, y, z, -, -, -, hargument⟩
  have hhead : (around words letters row).render.head? = some '(' := by
    rw [(List.cons.inj hargument).1]
    rfl
  have hname : ∀ w rest, IsName w → (w ++ rest).head? ≠ some '(' := by
    intro w rest hw hopen
    rw [List.head?_append_of_ne_nil _ hw.ne_nil] at hopen
    have hstart := hw.start
    rw [hopen] at hstart
    cases hstart
  cases words with
  | nil =>
      rw [render_around_nil, rangeText, List.append_assoc] at hhead
      exact hname _ _ letters.isName hhead
  | cons word words =>
      rw [render_around_cons] at hhead
      exact hname _ _ word.isName hhead

/-- The calls around a range are formulas over columns. -/
theorem isColumnFormula_around (hwords : ∀ word ∈ words, isDialectWord word.chars = false)
    (schema : Schema) : (around words letters row).IsColumnFormula schema := by
  induction words with
  | nil => simp [around, IsColumnFormula, All]
  | cons word words ih =>
      have hinner := ih fun w hw => hwords w (List.mem_cons_of_mem _ hw)
      have hcall : (around (word :: words) letters row) = .call word [around words letters row] :=
        rfl
      rw [hcall, IsColumnFormula, All]
      refine ⟨⟨hwords word (by simp), ?_⟩, by simpa [IsColumnFormula] using hinner⟩
      exact not_isGrowth_around words letters row word.chars

/-- The range is the only reference. -/
theorem all_around : (around words letters row).All (· = .range letters (some row) none)
    fun _ arguments => ∀ name, ¬IsGrowth name (arguments.map render) := by
  induction words with
  | nil => simp [around, All]
  | cons word words ih =>
      have hcall : (around (word :: words) letters row) = .call word [around words letters row] :=
        rfl
      rw [hcall, All]
      exact ⟨not_isGrowth_around words letters row, by simpa using ih⟩

end

end Tree

/-! ### Resolving -/

section

variable {schema : Schema} {letters : Capitals} {name : String}
  (hname : schema.nameAt? letters.chars = some name) {row : Nat} (hrow : 2 ≤ row)

theorem fetchedPieces_around_cons (word : Identifier) (words : List Identifier) :
    fetchedPieces schema (.around (word :: words) letters row) =
      .callee word.chars :: fetchedPieces schema (.around words letters row) ++ [.mark .right] := by
  rw [fetchedPieces, Tree.pieces_around_cons]
  simp [fetchedPieces, Scope.write]

include hname hrow

theorem fetchedPieces_around_nil :
    fetchedPieces schema (.around [] letters row) = fetchFrom name row := by
  rw [fetchedPieces, Tree.around, List.foldr_nil, Tree.pieces]
  exact flatMap_rangeFrom hname hrow

variable (words : List Identifier)

theorem isOperand_around : IsOperand (fetchedPieces schema (.around words letters row)) := by
  induction words with
  | nil =>
      rw [fetchedPieces_around_nil hname hrow]
      exact isOperand_fetchFrom name row
  | cons word words ih =>
      rw [fetchedPieces_around_cons]
      exact .group rfl rfl (.inr ih)

theorem isGround_around_range :
    ∀ p ∈ fetchedPieces schema (.around words letters row), p.IsGround := by
  induction words with
  | nil =>
      rw [fetchedPieces_around_nil hname hrow]
      exact isGround_fetchFrom name row
  | cons word words ih =>
      rw [fetchedPieces_around_cons, List.cons_append, List.forall_mem_cons]
      refine ⟨word.isName, List.forall_mem_append.2 ⟨ih, ?_⟩⟩
      rintro p hp
      obtain rfl := List.mem_singleton.1 hp
      rfl

/-- The only number is the start row, which ends no header. -/
theorem noNumberEnds_around {header : String} (hheader : isSearchable header = true)
    (done : List Char) (closing : Nat) :
    NoNumberEnds header.toList done (fetchedPieces schema (.around words letters row) ++
      List.replicate closing (.mark .right)) := by
  induction words generalizing done closing with
  | nil =>
      have hmarks : ∀ done, NoNumberEnds header.toList done
          (List.replicate closing (.mark .right)) := by
        induction closing with
        | zero => exact fun _ => trivial
        | succ closing ih => exact fun done => ih _
      rw [fetchedPieces_around_nil hname hrow]
      exact ⟨not_endsWith_row hheader, hmarks _⟩
  | cons word words ih =>
      rw [fetchedPieces_around_cons, List.cons_append, List.cons_append, List.append_assoc,
        List.singleton_append, ← List.replicate_succ]
      exact ih _ _

theorem resolve_around (hletters : String.ofList letters.chars ∉ schema.names) :
    resolve (.columns schema) (Tree.around words letters row).render =
      textOf (fetchedPieces schema (.around words letters row)) := by
  have hoperand := isOperand_around hname hrow words
  have hground := isGround_around_range hname hrow words
  have hall := Tree.all_around words letters row
  have hplain : (Tree.around words letters row).All Ref.IsPlain fun _ _ => True := by
    refine Tree.All.imp ?_ (fun _ _ _ => trivial) hall
    rintro r rfl
    trivial
  have hranges : RangesOf schema ((Tree.around words letters row).pieces fun _ => false) := by
    rintro p hp r rfl
    exact ⟨letters, some row, name, Tree.reference_of_mem hall hp, hname, hletters⟩
  rw [← Tree.textOf_pieces, resolve_ranges (Tree.isOperand_pieces _ _).chain
    (Tree.valid_pieces hplain) hranges rfl hoperand hground]
  refine resolve_ground hoperand hground fun header hheader => ?_
  have hsearchable := isSearchable_of_mem_searchedNames hheader
  have hends := noNumberEnds_around hname hrow words hsearchable [] 0
  rwa [List.replicate_zero, List.append_nil] at hends

end

end SheetBoard.Formula

namespace SheetBoard.Script

open Formula

/-! ### Reading and evaluating -/

section

variable {schema : Schema} {letters : Capitals} {name : String}
  (hname : schema.nameAt? letters.chars = some name)
  (hletters : String.ofList letters.chars ∉ schema.names) {row : Nat} (hrow : 2 ≤ row)
  {words : List Identifier} (hwords : ∀ word ∈ words, isDialectWord word.chars = false)
include hname hletters hrow hwords

/-- Calls around a range are read as calls around the fetch of its column. -/
theorem read_columnScript_around :
    read (columnScript .standard schema
        (.ofList ('=' :: (Tree.around words letters row).render))).toList =
      .ok ((Tree.around words letters row).compileColumns .standard schema) := by
  have hinnocent : Innocent (Tree.around words letters row).render := by
    refine Tree.innocent (Tree.All.imp ?_ ?_ (Tree.all_around words letters row))
    · rintro r rfl
      trivial
    · exact fun word arguments h => h word.chars
  simp only [columnScript, String.toList_ofList, script, bodyScript]
  rw [hinnocent.writeGrowth, resolve_around hname hrow words hletters]
  refine read_ground (isOperand_around hname hrow words) (isGround_around_range hname hrow words) ?_
  have hformula := Tree.isColumnFormula_around words letters row hwords schema
  have hderives := ((interprets_columns schema).derives hformula).1
  unfold columnTokens at hderives
  simpa [fetchedPieces, scriptTokens, List.flatMap_assoc, Tree.compileColumns] using hderives

end

theorem Value.mapItems_cells (f : Value → Value) (cells : List Cell) :
    Value.mapItems f (cells.map .ofCell) = cells.map fun cell => f (.ofCell cell) := by
  rw [Value.mapItems_eq, List.map_map]
  refine List.map_congr_left fun cell _ => ?_
  cases cell <;> simp [Value.ofCell, Value.map]

section

variable {ctx : Context} {e : Expr}

theorem eval_unique {vs : List Value} (h : eval ctx e = .ok (.array vs)) :
    eval ctx (.call "arrayUnique" [e]) = .ok (.array (Library.distinctValues vs)) := by
  have hresolve : resolveCall "arrayUnique" 1 = .ok .unique := rfl
  have hunique : Library.unique (.array vs) (argument [.array vs] 1) =
      .array (Library.distinctValues vs) := rfl
  rw [eval]
  simp [hresolve, evalAll, h, Builtin.apply, hunique]

theorem eval_year {cells : List Cell} (h : eval ctx e = .ok (.array (cells.map .ofCell))) :
    eval ctx (.call "arrayMapYear" [e]) =
      .ok (.array (cells.map fun cell => .number (Library.yearIn (.ofCell cell)))) := by
  have hresolve : resolveCall "arrayMapYear" 1 = .ok .year := rfl
  rw [eval]
  simp [hresolve, evalAll, h, Builtin.apply, Library.year, Value.map, Value.mapItems_cells]

end

def uniqueWord : Identifier := ⟨"UNIQUE".toList, by decide⟩

def yearWord : Identifier := ⟨"YEAR".toList, by decide⟩

/-- Both words go by names of the script. -/
theorem columnCall_words (e : Expr) :
    columnCall .standard uniqueWord [e] = .call "arrayUnique" [e] ∧
      columnCall .standard yearWord [e] = .call "arrayMapYear" [e] := by
  have hnames : FunctionTable.standard.get? (.ofList uniqueWord.chars) = some "arrayUnique" ∧
      FunctionTable.standard.get? (.ofList yearWord.chars) = some "arrayMapYear" := by
    decide +kernel
  rw [columnCall, columnCall, hnames.1, hnames.2]
  exact ⟨rfl, rfl⟩

section

variable {t : Table} {letters : Capitals} {name : String} {cells : List Cell}
  (h : ColumnOf t letters name cells) (hletters : String.ofList letters.chars ∉ t.schema.names)
  (today : Calendar.Date)
include h

theorem ColumnOf.eval_around_nil :
    eval ⟨some t, today⟩ ((Tree.around [] letters 2).compileColumns .standard t.schema) =
      .ok (.array (cells.map .ofCell)) := by
  have hcompile : (Tree.around [] letters 2).compileColumns .standard t.schema =
      .call "getColumnData" [.text name, natExpr 2] := by
    simp [Tree.around, Tree.compileColumns, Tree.compile, Formula.columnReference, columnName,
      h.nameAt, Option.filter]
  rw [hcompile, h.eval_fromSecond today]

include hletters

/-- Calls around a range have the value of their expression. -/
theorem ColumnOf.columnValue_around {words : List Identifier}
    (hwords : ∀ word ∈ words, isDialectWord word.chars = false) :
    columnValue today t (Tree.around words letters 2).render =
      eval ⟨some t, today⟩ ((Tree.around words letters 2).compileColumns .standard t.schema) := by
  rw [columnValue, Dashboard.evaluate, run,
    read_columnScript_around h.nameAt hletters (Nat.le_refl 2) hwords]

/-- The distinct values of a column. -/
theorem ColumnOf.columnValue_unique :
    columnValue today t (Tree.around [uniqueWord] letters 2).render =
      .ok (.array (Library.distinctValues (cells.map .ofCell))) := by
  have hcompile : (Tree.around [uniqueWord] letters 2).compileColumns .standard t.schema =
      .call "arrayUnique" [(Tree.around [] letters 2).compileColumns .standard t.schema] := by
    rw [← (columnCall_words _).1]
    simp [Tree.around, Tree.compileColumns, Tree.compile]
  rw [h.columnValue_around hletters today (by decide), hcompile]
  exact eval_unique (h.eval_around_nil today)

/-- The distinct years of a column. -/
theorem ColumnOf.columnValue_uniqueYear :
    columnValue today t (Tree.around [uniqueWord, yearWord] letters 2).render =
      .ok (.array (Library.distinctValues
        (cells.map fun cell => .number (Library.yearIn (.ofCell cell))))) := by
  have hcompile : (Tree.around [uniqueWord, yearWord] letters 2).compileColumns .standard t.schema =
      .call "arrayUnique" [.call "arrayMapYear"
        [(Tree.around [] letters 2).compileColumns .standard t.schema]] := by
    rw [← (columnCall_words _).1, ← (columnCall_words _).2]
    simp [Tree.around, Tree.compileColumns, Tree.compile]
  rw [h.columnValue_around hletters today (by decide), hcompile]
  exact eval_unique (eval_year (h.eval_around_nil today))

end

end SheetBoard.Script
