import SheetBoard.Proofs.Formula.Lookup
import SheetBoard.Proofs.Number.Order
import SheetBoard.Proofs.Script.AverageGrowth

/-! The value of a lookup in a table: the value beside the first key that is equal to a text,
whatever the text and the headers are. The place that is found is a float, which is exact for every
row of a table of fewer than `2 ^ 53` rows. -/

namespace SheetBoard.Script

open Formula

/-! ### How the formula is read -/

/-- The names under which the lookup calls its functions. -/
theorem tokens_lookupWords :
    ((Piece.callee indexWord).renamed .standard).inScript.tokens =
      [.name "arrayIndex", .leftParen] ∧
    ((Piece.callee matchWord).renamed .standard).inScript.tokens =
      [.name "arrayMatch", .leftParen] := by
  decide +kernel

theorem reads_lookupPieces {values keys : List Piece} {e f : Expr}
    (hvalues : Reads (scriptTokens values) e) (hkeys : Reads (scriptTokens keys) f) (s : String) :
    Reads (scriptTokens (lookupPieces values s.toList keys))
      (.call "arrayIndex" [e, .call "arrayMatch" [.text s, f]]) := by
  have hplace := Reads.call_two (n := "arrayMatch") (by decide) (Reads.text s).derives hkeys.derives
  have hindex := Reads.call_two (n := "arrayIndex") (by decide) hvalues.derives hplace.derives
  have hkey : ((Piece.literal s.toList).renamed .standard).inScript.tokens = [.text s] := by
    simp [Piece.renamed, Piece.inScript, Piece.tokens]
  have htokens : scriptTokens (lookupPieces values s.toList keys) = Token.name "arrayIndex" ::
      Token.leftParen :: (scriptTokens values ++ Token.comma :: (Token.name "arrayMatch" ::
        Token.leftParen :: ([Token.text s] ++ Token.comma :: scriptTokens keys) ++
          [Token.rightParen])) ++ [Token.rightParen] := by
    simp only [lookupPieces, pairCall, scriptTokens_cons, scriptTokens_append, scriptTokens_nil,
      tokens_mark, tokens_lookupWords.1, tokens_lookupWords.2, hkey]
    rfl
  rwa [htokens]

/-! ### Places -/

/-- The cell is equal to the text, as scripts compare them. -/
def equalsText (s : String) (c : Cell) : Bool := (Value.ofCell c).order? (.text s) == some .eq

/-- A text is equal to a cell if the cell is equal to the text. -/
theorem beq_order?_text (s : String) (c : Cell) :
    ((Value.text s).order? (.ofCell c) == some .eq) = equalsText s c := by
  have hnumber : ∀ x y, Number.order? x y = some .eq ↔ Number.order? y x = some .eq := by
    intro x y
    rw [Number.order?_eq_some_eq, Number.order?_eq_some_eq]
    exact ⟨Number.beq_symm, Number.beq_symm⟩
  rw [equalsText, Bool.eq_iff_iff, beq_iff_eq, beq_iff_eq]
  cases c with
  | empty => rfl
  | text t =>
      simp only [Value.ofCell, Value.order?, Option.some.injEq]
      exact ⟨Std.OrientedCmp.eq_symm, Std.OrientedCmp.eq_symm⟩
  | number x =>
      cases hs : Number.read? (Text.trim s.toList) with
      | none => simp [Value.ofCell, Value.order?, Value.toFloat?, hs]
      | some y => simpa [Value.ofCell, Value.order?, Value.toFloat?, hs] using hnumber y x
  | boolean b =>
      cases hs : Number.read? (Text.trim s.toList) with
      | none => simp [Value.ofCell, Value.order?, Value.toFloat?, hs]
      | some y => simpa [Value.ofCell, Value.order?, Value.toFloat?, hs] using hnumber y _

/-- The value beside the first key that is equal to a text, or nothing. -/
def valueBeside (keys values : List Cell) (s : String) : Value :=
  ((keys.zip values).find? fun row => equalsText s row.1).elim .null fun row => .ofCell row.2

theorem lookup_cells (s : String) (keys : List Cell) :
    Library.lookup (.text s) (.array (keys.map .ofCell)) =
      (keys.findIdx? (equalsText s)).elim (.number (-1)) fun i => .ofNat (i + 1) := by
  have hsame : (fun v => (Value.text s).order? v == some .eq) ∘ Value.ofCell = equalsText s :=
    funext (beq_order?_text s)
  rw [Library.lookup, Value.items, List.findIdx?_map, hsame]
  cases keys.findIdx? (equalsText s) <;> rfl

/-- A place that was counted is read as itself. -/
theorem wholeArgument_ofNat (v : Value) {n : Nat} (hpos : 0 < n) (hlt : n < 2 ^ 53)
    (default : Int) : wholeArgument [v, .ofNat n] 1 default = n := by
  rw [Value.ofNat, ← Number.ofDecimal_eq_ofNat hpos hlt, wholeArgument_natExpr,
    Number.toInt_ofDecimal (Nat.le_of_lt hlt)]

/-- Taking the item in the place of a key gives the value beside it. -/
theorem index_lookup {keys values : List Cell} (hlength : keys.length = values.length)
    (hrows : keys.length < 2 ^ 53) (s : String) :
    let data := Value.array (values.map .ofCell)
    Library.index data (wholeArgument
      [data, Library.lookup (.text s) (.array (keys.map .ofCell))] 1 0) =
        valueBeside keys values s := by
  intro data
  rw [lookup_cells, valueBeside]
  cases hplace : keys.findIdx? (equalsText s) with
  | none =>
      have hnone : (keys.zip values).find? (fun row => equalsText s row.1) = none := by
        rw [List.find?_eq_none]
        intro row hrow
        simp [List.findIdx?_eq_none_iff.1 hplace row.1 (List.of_mem_zip hrow).1]
      have hminus : (-1 : Float).isNaN = false ∧ Number.toInt (-1) = -1 := by decide
      rw [hnone, Option.elim_none, wholeArgument_number, hminus.1, hminus.2]
      rfl
  | some i =>
      obtain ⟨hi, hkey, hearlier⟩ := List.findIdx?_eq_some_iff_getElem.1 hplace
      have hrow : (keys.zip values).find? (fun row => equalsText s row.1) =
          some (keys[i], values[i]) := by
        rw [List.find?_eq_some_iff_getElem]
        refine ⟨hkey, i, by rw [List.length_zip]; omega, List.getElem_zip, fun j hj => ?_⟩
        simpa using hearlier j hj
      have hread := wholeArgument_ofNat data (Nat.succ_pos i) (by omega) 0
      rw [hrow, Option.elim_some, Option.elim_some, hread]
      simp [Library.index, data, Value.items, hlength ▸ hi]

/-! ### The value of the formula -/

theorem eval_lookup {ctx : Context} {e f : Expr} {keys values : List Cell}
    (he : eval ctx e = .ok (.array (values.map .ofCell)))
    (hf : eval ctx f = .ok (.array (keys.map .ofCell))) (hlength : keys.length = values.length)
    (hrows : keys.length < 2 ^ 53) (s : String) :
    eval ctx (.call "arrayIndex" [e, .call "arrayMatch" [.text s, f]]) =
      .ok (valueBeside keys values s) := by
  have hindex : resolveCall "arrayIndex" 2 = .ok .index := rfl
  have hmatch : resolveCall "arrayMatch" 2 = .ok .lookup := rfl
  have hplace : eval ctx (.call "arrayMatch" [.text s, f]) =
      .ok (Library.lookup (.text s) (.array (keys.map .ofCell))) := by
    rw [eval]
    simp [hmatch, evalAll, eval, hf, Builtin.apply]
  rw [eval]
  simp [hindex, evalAll, he, hplace, Builtin.apply, index_lookup hlength hrows]

theorem ColumnOf.columnValue_lookup {t : Table} {x y : Capitals} {keyName valueName : String}
    {keys values : List Cell} (hx : ColumnOf t x keyName keys)
    (hy : ColumnOf t y valueName values) (hrows : t.rowCount < 2 ^ 53)
    (hletters : ∀ letters ∈ [x, y], String.ofList letters.chars ∉ t.schema.names) (s : String)
    (today : Calendar.Date) :
    columnValue today t (lookupText (rangeText y (some 2)) s.toList (rangeText x (some 2))) =
      .ok (valueBeside keys values s) := by
  have hread : read (columnScript .standard t.schema (.ofList ('=' ::
      lookupText (rangeText y (some 2)) s.toList (rangeText x (some 2))))).toList =
        .ok (.call "arrayIndex" [.call "getColumnData" [.text valueName, natExpr 2],
          .call "arrayMatch" [.text s, .call "getColumnData" [.text keyName, natExpr 2]]]) := by
    simp only [columnScript, String.toList_ofList, script, bodyScript]
    rw [writeGrowth_lookup, resolve_lookup hx.nameAt hy.nameAt hletters (Nat.le_refl 2)
      (Nat.le_refl 2)]
    exact read_ground
      (isOperand_lookupPieces (isOperand_fetchFrom _ _) (isOperand_fetchFrom _ _) _)
      (forall_lookupPieces (isGround_fetchFrom _ _) (isGround_fetchFrom _ _)
        (isGround_aroundLookup _))
      (reads_lookupPieces (reads_fetchFrom _ _) (reads_fetchFrom _ _) s).derives
  simp only [columnValue, Dashboard.evaluate, run, hread]
  exact eval_lookup (hy.eval_fromSecond today) (hx.eval_fromSecond today)
    (hx.length.trans hy.length.symm) (hx.length ▸ hrows) s

/-- Looking a text up in a column gives the value that another column has in the first row whose
key is equal to the text, or nothing if there is no such row, whatever the text and the headers are.
-/
theorem columnValue_index_match {t : Table} (ht : t.Sound) (hrows : t.rowCount < 2 ^ 53)
    {j k : Nat} {keys values : List Cell} (hkeys : t.columns[j]? = some keys)
    (hvalues : t.columns[k]? = some values) {x y : List Char} (hx : x = Letters.ofIndex j)
    (hy : y = Letters.ofIndex k) (hxne : x ≠ []) (hyne : y ≠ [])
    (hletters : ∀ letters ∈ [x, y], String.ofList letters ∉ t.schema.names) (s : String)
    (today : Calendar.Date) :
    columnValue today t (lookupText (y ++ '2' :: ':' :: y) s.toList (x ++ '2' :: ':' :: x)) =
      .ok (((keys.zip values).find? fun row =>
        (Value.ofCell row.1).order? (.text s) == some .eq).elim .null fun row => .ofCell row.2) := by
  obtain ⟨keyLetters, keyName, hkeyChars, hkey⟩ := exists_columnOf ht hkeys (hx ▸ hxne)
  obtain ⟨valueLetters, valueName, hvalueChars, hvalue⟩ := exists_columnOf ht hvalues (hy ▸ hyne)
  rw [← hkeyChars] at hx
  rw [← hvalueChars] at hy
  subst hx hy
  have htext : ∀ letters : Capitals,
      letters.chars ++ '2' :: ':' :: letters.chars = rangeText letters (some 2) := by
    have htwo : rowDigits (some 2) = ['2'] := by decide +kernel
    simp [rangeText, htwo]
  rw [htext, htext]
  exact hkey.columnValue_lookup hvalue hrows (by simpa using hletters) s today

/-- A key that is a number, one with a quote and a backslash, and one that is not there, next to
headers that are spelled like parts of the script. -/
theorem columnValue_index_match_quoted :
    let t : Table := ⟨⟨["INDEX", "2), MATCH"]⟩,
      [[.text "five", .number 5, .text "5", .text "a\"\\"],
        [.number 1, .text "first", .text "second", .boolean true]], 4⟩
    let today : Calendar.Date := ⟨2024, 3, 15⟩
    t.Sound ∧ t.rowCount < 2 ^ 53 ∧
      columnValue today t "INDEX(B2:B, MATCH(\"5\", A2:A))".toList = .ok (.text "first") ∧
      columnValue today t "INDEX(B2:B, MATCH(\"a\\\"\\\\\", A2:A))".toList =
        .ok (.boolean true) ∧
      columnValue today t "INDEX(B2:B, MATCH(\"Five\", A2:A))".toList = .ok .null := by
  intro t today
  have ht : t.Sound := ⟨⟨rfl, by simp [t]⟩, by decide⟩
  have hrows : t.rowCount < 2 ^ 53 := by decide
  have ha : ['A'] = Letters.ofIndex 0 := by decide +kernel
  have hb : ['B'] = Letters.ofIndex 1 := by decide +kernel
  have hvalue := fun s =>
    columnValue_index_match ht hrows rfl rfl ha hb (by decide) (by decide) (by decide) s today
  exact ⟨ht, hrows, hvalue "5", hvalue "a\"\\", hvalue "Five"⟩

end SheetBoard.Script
