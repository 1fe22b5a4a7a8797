import SheetBoard.Script.Eval

/-! Evaluation over whole columns is evaluation row by row: each operation takes aligned values to
aligned ones, and does in each row what it does to single values. -/

namespace SheetBoard.Script

namespace Value

def isArray : Value → Bool
  | .array _ => true
  | _ => false

/-- What a value holds for one row: an item of an array, or the value itself. -/
def component? (v : Value) (i : Nat) : Option Value :=
  match v with
  | .array items => items[i]?
  | v => some v

/-! ### Single values -/

theorem map_single {v : Value} (hv : v.isArray = false) (f : Value → Value) :
    v.map f = f v := by
  cases v with
  | array items => cases hv
  | _ => simp [map]

theorem combine_single {v : Value} (hv : v.isArray = false) (f : Value → Value → Value)
    (w : Value) : v.combine f w = w.map (f v) := by
  cases v with
  | array items => cases hv
  | _ => simp [combine]

theorem choice_single {c : Value} (hc : c.isArray = false) (v w : Value) :
    Library.choice c v w = if c.isTrue then v else w := by
  cases c with
  | array items => cases hc
  | _ => rfl

@[simp] theorem isArray_ofCell (c : Cell) : (ofCell c).isArray = false := by cases c <;> rfl

/-! ### Items -/

theorem mapItems_eq (f : Value → Value) (items : List Value) :
    mapItems f items = items.map (map f) := by
  induction items with
  | nil => rw [mapItems]; rfl
  | cons v items ih => rw [mapItems, ih]; rfl

section

variable {α : Type} (f : Value → Value → Value) (a b : α → Value) (xs : List α)

theorem combineItems_array :
    combineItems f (xs.map a) (.array (xs.map b)) = xs.map fun x => combine f (a x) (b x) := by
  induction xs with
  | nil => rw [List.map_nil, combineItems]; rfl
  | cons x xs ih => rw [List.map_cons, List.map_cons, combineItems, ih]; rfl

theorem combineItems_single {w : Value} (hw : w.isArray = false) :
    combineItems f (xs.map a) w = xs.map fun x => combine f (a x) w := by
  induction xs with
  | nil => rw [List.map_nil, combineItems]; rfl
  | cons x xs ih =>
      cases w with
      | array items => cases hw
      | _ => simp [combineItems, ih]

end

/-! ### Aligned values -/

/-- One single value for all rows, or an array with a single value for each of the `n` rows. The
function gives the value of a row. -/
inductive Spread (n : Nat) : Value → (Nat → Value) → Prop where
  | single {v} (hv : v.isArray = false) : Spread n v fun _ => v
  | column {f} (hf : ∀ i, (f i).isArray = false) : Spread n (.array ((List.range n).map f)) f

namespace Spread

variable {n : Nat} {v w : Value} {f g : Nat → Value}

theorem isArray (h : Spread n v f) (i : Nat) : (f i).isArray = false := by
  cases h with
  | single hv => exact hv
  | column hf => exact hf i

theorem component? (h : Spread n v f) {i : Nat} (hi : i < n) : v.component? i = some (f i) := by
  cases h with
  | single hv =>
      cases v with
      | array items => cases hv
      | _ => rfl
  | column hf => simp [Value.component?, hi]

theorem itemAt (h : Spread n v f) {i : Nat} (hi : i < n) : v.itemAt i = f i := by
  cases h with
  | single hv =>
      cases v with
      | array items => cases hv
      | _ => rfl
  | column hf => simp [Value.itemAt, hi]

theorem length_eq {items : List Value} (h : Spread n (.array items) f) : items.length = n := by
  cases h with
  | single hv => cases hv
  | column hf => simp

theorem map (h : Spread n v f) {op : Value → Value}
    (hop : ∀ w, (op w).isArray = false) : Spread n (v.map op) fun i => op (f i) := by
  cases h with
  | single hv =>
      rw [map_single hv]
      exact .single (hop v)
  | column hf =>
      rw [Value.map, mapItems_eq, List.map_map]
      have hitems : Value.map op ∘ f = fun i => op (f i) := funext fun i => map_single (hf i) op
      rw [hitems]
      exact .column fun i => hop (f i)

theorem combine (hv : Spread n v f) (hw : Spread n w g) {op : Value → Value → Value}
    (hop : ∀ a b, (op a b).isArray = false) :
    Spread n (v.combine op w) fun i => op (f i) (g i) := by
  cases hv with
  | single hv =>
      rw [combine_single hv]
      exact hw.map (hop v)
  | column hf =>
      have hitems : (fun i => Value.combine op (f i) (g i)) = fun i => op (f i) (g i) :=
        funext fun i => by rw [combine_single (hf i), map_single (hw.isArray i)]
      cases hw with
      | single hw =>
          rw [Value.combine, combineItems_single _ _ _ hw, hitems]
          exact .column fun i => hop _ _
      | column hg =>
          rw [Value.combine, combineItems_array, hitems]
          exact .column fun i => hop _ _

/-- Flags for the rows choose in each row between the values there. -/
theorem chooseItems (hv : Spread n v f) (hw : Spread n w g) (flags : Nat → Value) :
    Spread n (.chooseItems ((List.range n).map flags) v w)
      fun i => if (flags i).isTrue then f i else g i := by
  have hitems : Value.chooseItems ((List.range n).map flags) v w =
      .array ((List.range n).map fun i => if (flags i).isTrue then f i else g i) := by
    rw [Value.chooseItems]
    congr 1
    refine List.ext_getElem (by simp) fun i hi _ => ?_
    have hi : i < n := by simpa using hi
    simp [hv.itemAt hi, hw.itemAt hi]
  rw [hitems]
  refine .column fun i => ?_
  split
  · exact hv.isArray i
  · exact hw.isArray i

/-- A choice over columns is a choice in each row. -/
theorem choice {c : Value} {flags : Nat → Value} (hc : Spread n c flags) (hv : Spread n v f)
    (hw : Spread n w g) :
    Spread n (Library.choice c v w) fun i => Library.choice (flags i) (f i) (g i) := by
  simp only [choice_single (hc.isArray _)]
  cases hc with
  | single hc =>
      rw [choice_single hc]
      split
      · exact hv
      · exact hw
  | column hflags => exact hv.chooseItems hw flags

end Spread

end Value

theorem isArray_binaryValue (op : BinaryOp) (v w : Value) :
    (binaryValue op v w).isArray = false := by
  cases op with
  | add =>
      unfold binaryValue
      dsimp only
      split <;> rfl
  | divide =>
      unfold binaryValue
      dsimp only
      split <;> rfl
  | _ => rfl

/-! ### Expressions over columns -/

/-- The literal of a cell. -/
def Expr.ofCell : Cell → Expr
  | .empty => .null
  | .boolean b => .boolean b
  | .number x => .number x
  | .text s => .text s

/-- The name of the column, if the call fetches a whole one. -/
def fetchedColumn? (function : String) (arguments : List Expr) : Option String :=
  match arguments with
  | [.text column] => if function = "getColumnData" then some column else none
  | _ => none

/-- The expression with each column replaced by the row's cell. -/
def Expr.atRow (row : Row) : Expr → Expr
  | .array items => .array (items.map fun item => item.atRow row)
  | .binary op left right => .binary op (left.atRow row) (right.atRow row)
  | .unary op operand => .unary op (operand.atRow row)
  | .conditional condition yes no =>
    .conditional (condition.atRow row) (yes.atRow row) (no.atRow row)
  | .call function arguments =>
    match fetchedColumn? function arguments with
    | some column => .ofCell ((row.get? column).getD .empty)
    | none => .call function (arguments.map fun argument => argument.atRow row)
  | e => e

/-- Literals and whole columns under operators on values and choices. -/
inductive Columnwise (schema : Schema) : Expr → Prop where
  | number (x) : Columnwise schema (.number x)
  | text (s) : Columnwise schema (.text s)
  | boolean (b) : Columnwise schema (.boolean b)
  | null : Columnwise schema .null
  | column {name} (hname : name ∈ schema.names) :
    Columnwise schema (.call "getColumnData" [.text name])
  | binary {op l r} (hand : op ≠ .and) (hor : op ≠ .or) (hl : Columnwise schema l)
    (hr : Columnwise schema r) : Columnwise schema (.binary op l r)
  | sign {op e} (hnot : op ≠ .not) (he : Columnwise schema e) : Columnwise schema (.unary op e)
  | conditional {c y n} (hc : Columnwise schema c) (hy : Columnwise schema y)
    (hn : Columnwise schema n) : Columnwise schema (.conditional c y n)
  | choice {c y n} (hc : Columnwise schema c) (hy : Columnwise schema y)
    (hn : Columnwise schema n) : Columnwise schema (.call "excelIf" [c, y, n])

/-! ### One operation -/

section

variable {ctx : Context} {c y n : Expr} {u v w : Value}

theorem eval_ofCell (ctx : Context) (cell : Cell) :
    eval ctx (.ofCell cell) = .ok (.ofCell cell) := by
  cases cell <;> rw [Expr.ofCell, eval] <;> rfl

theorem eval_binary {op : BinaryOp} (hand : op ≠ .and) (hor : op ≠ .or) (hy : eval ctx y = .ok v)
    (hn : eval ctx n = .ok w) :
    eval ctx (.binary op y n) = .ok (v.combine (binaryValue op) w) := by
  rw [eval]
  simp [hy, hn, hand, hor]

/-- Where both branches have a value, it does not matter that only one is evaluated. -/
theorem eval_conditional (hc : eval ctx c = .ok u) (hy : eval ctx y = .ok v)
    (hn : eval ctx n = .ok w) :
    eval ctx (.conditional c y n) = .ok (Library.choice u v w) := by
  rw [eval, hc]
  cases u with
  | array flags => simp [hy, hn, Library.choice]
  | _ =>
      simp only [hy, hn, Library.choice]
      split <;> simp_all

theorem eval_choice (hc : eval ctx c = .ok u) (hy : eval ctx y = .ok v)
    (hn : eval ctx n = .ok w) :
    eval ctx (.call "excelIf" [c, y, n]) = .ok (Library.choice u v w) := by
  have hresolve : resolveCall "excelIf" 3 = .ok .choice := rfl
  rw [eval]
  simp [hresolve, evalAll, hc, hy, hn, Builtin.apply, argument]

end

/-! ### Columns and rows of a table -/

/-- A column of the table, by name, and its cells in the rows. -/
theorem exists_column {t : Table} (ht : t.WellFormed) {name : String}
    (hname : name ∈ t.schema.names) :
    ∃ cells, t.column? name = some cells ∧ cells.length = t.rowCount ∧
      ∀ i row, t.row? i = some row → row.get? name = some (cells.getD i .empty) := by
  obtain ⟨j, hj⟩ := Option.isSome_iff_exists.1 (List.isSome_idxOf?.2 hname)
  have hlt : j < t.columns.length := by
    rw [ht.width]
    unfold List.idxOf? at hj
    exact (List.findIdx?_eq_some_iff_getElem.1 hj).1
  refine ⟨t.columns[j], ?_, ht.height _ (List.getElem_mem hlt), ?_⟩
  · simp [Table.column?, Schema.indexOf?, hj, hlt]
  · intro i row hrow
    obtain ⟨-, rfl⟩ : i < t.rowCount ∧ ⟨t.schema, i, t.cellsAt i⟩ = row := by
      simpa [Table.row?] using hrow
    simp [Row.get?, Schema.indexOf?, hj, Table.cellsAt, hlt]

section

variable {t : Table} {ctx : Context} (hctx : ctx.table = some t) {name : String}
  (hname : name ∈ t.schema.names) {cells : List Cell} (hcells : t.column? name = some cells)

include hctx hname hcells

/-- A name is looked for among the headers first. -/
theorem Context.column?_eq_some : ctx.column? name = some (name, cells) := by
  have hcontains : t.schema.contains name = true := by simpa [Schema.contains] using hname
  simp [Context.column?, hctx, hcontains, hcells]

/-- A whole column is fetched with the values of all rows. -/
theorem eval_column :
    eval ctx (.call "getColumnData" [.text name]) = .ok (.array (cells.map .ofCell)) := by
  have hresolve : resolveCall "getColumnData" 1 = .ok .columnFrom := rfl
  have hcolumn := Context.column?_eq_some hctx hname hcells
  rw [eval]
  simp [hresolve, evalAll, eval, Builtin.apply, Library.columnFrom, wholeArgument,
    Context.columnFrom, Value.asText, Table.rowsBefore, hcolumn]

end

/-! ### Whole expressions -/

/-- The value of an expression over columns, with its values in the rows. -/
structure Agrees (t : Table) (ctx : Context) (e : Expr) (v : Value) (f : Nat → Value) : Prop where
  eval : eval ctx e = .ok v
  spread : v.Spread t.rowCount f
  rows : ∀ i row, t.row? i = some row → Script.eval ctx (e.atRow row) = .ok (f i)

namespace Agrees

variable {t : Table} {ctx : Context} {e c l r : Expr} {u v w : Value} {f g flags : Nat → Value}

/-- Literals are the same in every row. -/
theorem literal (hv : v.isArray = false) (he : Script.eval ctx e = .ok v)
    (hrow : ∀ row, e.atRow row = e) : Agrees t ctx e v fun _ => v where
  eval := he
  spread := .single hv
  rows _ row _ := by rw [hrow, he]

theorem column (ht : t.WellFormed) (hctx : ctx.table = some t) {name : String}
    (hname : name ∈ t.schema.names) :
    ∃ v f, Agrees t ctx (.call "getColumnData" [.text name]) v f := by
  obtain ⟨cells, hcells, hlength, hrows⟩ := exists_column ht hname
  have hitems : cells.map Value.ofCell =
      (List.range t.rowCount).map fun i => .ofCell (cells.getD i .empty) := by
    refine List.ext_getElem (by simp [hlength]) fun i hi _ => ?_
    have hi : i < cells.length := by simpa using hi
    simp [hi]
  refine ⟨_, fun i => .ofCell (cells.getD i .empty), eval_column hctx hname hcells, ?_, ?_⟩
  · rw [hitems]
    exact .column fun i => Value.isArray_ofCell _
  · intro i row hrow
    have hcell : Expr.atRow row (.call "getColumnData" [.text name]) =
        .ofCell (cells.getD i .empty) := by
      simp [Expr.atRow, fetchedColumn?, hrows i row hrow]
    rw [hcell, eval_ofCell]

theorem binary {op : BinaryOp} (hand : op ≠ .and) (hor : op ≠ .or) (hl : Agrees t ctx l v f)
    (hr : Agrees t ctx r w g) :
    Agrees t ctx (.binary op l r) (v.combine (binaryValue op) w)
      fun i => binaryValue op (f i) (g i) where
  eval := eval_binary hand hor hl.eval hr.eval
  spread := hl.spread.combine hr.spread (isArray_binaryValue op)
  rows i row hrow := by
    rw [Expr.atRow, eval_binary hand hor (hl.rows i row hrow) (hr.rows i row hrow),
      Value.combine_single (hl.spread.isArray i), Value.map_single (hr.spread.isArray i)]

theorem sign {op : UnaryOp} (hnot : op ≠ .not) (h : Agrees t ctx e v f) :
    Agrees t ctx (.unary op e) (unaryValue op v) fun i => unaryValue op (f i) := by
  have heval : ∀ {e v}, Script.eval ctx e = .ok v →
      Script.eval ctx (.unary op e) = .ok (unaryValue op v) := by
    intro e v he
    rw [Script.eval, he]
  have hsingle : ∀ g, (fun i => (f i).map g) = fun i => g (f i) := fun g =>
    funext fun i => Value.map_single (h.spread.isArray i) g
  refine ⟨heval h.eval, ?_, fun i row hrow => ?_⟩
  · cases op with
    | negate =>
        simp only [unaryValue, hsingle]
        exact h.spread.map fun _ => rfl
    | plus =>
        simp only [unaryValue, hsingle]
        exact h.spread.map fun _ => rfl
    | not => exact absurd rfl hnot
  · rw [Expr.atRow]
    exact heval (h.rows i row hrow)

theorem conditional (hc : Agrees t ctx c u flags) (hl : Agrees t ctx l v f)
    (hr : Agrees t ctx r w g) :
    Agrees t ctx (.conditional c l r) (Library.choice u v w)
      fun i => Library.choice (flags i) (f i) (g i) where
  eval := eval_conditional hc.eval hl.eval hr.eval
  spread := hc.spread.choice hl.spread hr.spread
  rows i row hrow := by
    rw [Expr.atRow]
    exact eval_conditional (hc.rows i row hrow) (hl.rows i row hrow) (hr.rows i row hrow)

theorem choice (hc : Agrees t ctx c u flags) (hl : Agrees t ctx l v f) (hr : Agrees t ctx r w g) :
    Agrees t ctx (.call "excelIf" [c, l, r]) (Library.choice u v w)
      fun i => Library.choice (flags i) (f i) (g i) where
  eval := eval_choice hc.eval hl.eval hr.eval
  spread := hc.spread.choice hl.spread hr.spread
  rows i row hrow := by
    have hatRow : Expr.atRow row (.call "excelIf" [c, l, r]) =
        .call "excelIf" [c.atRow row, l.atRow row, r.atRow row] := by
      simp [Expr.atRow, fetchedColumn?]
    rw [hatRow]
    exact eval_choice (hc.rows i row hrow) (hl.rows i row hrow) (hr.rows i row hrow)

end Agrees

theorem Columnwise.agrees {t : Table} (ht : t.WellFormed) {ctx : Context}
    (hctx : ctx.table = some t) {e : Expr} (h : Columnwise t.schema e) :
    ∃ v f, Agrees t ctx e v f := by
  induction h with
  | number x => exact ⟨_, _, .literal rfl (by rw [eval]) fun row => by simp [Expr.atRow]⟩
  | text s => exact ⟨_, _, .literal rfl (by rw [eval]) fun row => by simp [Expr.atRow]⟩
  | boolean b => exact ⟨_, _, .literal rfl (by rw [eval]) fun row => by simp [Expr.atRow]⟩
  | null => exact ⟨_, _, .literal rfl (by rw [eval]) fun row => by simp [Expr.atRow]⟩
  | column hname => exact Agrees.column ht hctx hname
  | binary hand hor _ _ ihl ihr =>
      obtain ⟨v, f, hl⟩ := ihl
      obtain ⟨w, g, hr⟩ := ihr
      exact ⟨_, _, hl.binary hand hor hr⟩
  | sign hnot _ ih =>
      obtain ⟨v, f, he⟩ := ih
      exact ⟨_, _, he.sign hnot⟩
  | conditional _ _ _ ihc ihy ihn =>
      obtain ⟨u, flags, hc⟩ := ihc
      obtain ⟨v, f, hy⟩ := ihy
      obtain ⟨w, g, hn⟩ := ihn
      exact ⟨_, _, hc.conditional hy hn⟩
  | choice _ _ _ ihc ihy ihn =>
      obtain ⟨u, flags, hc⟩ := ihc
      obtain ⟨v, f, hy⟩ := ihy
      obtain ⟨w, g, hn⟩ := ihn
      exact ⟨_, _, hc.choice hy hn⟩

/-- An expression over whole columns has a value, with an item for each row if it is an array. What
it holds for a row is the value of the expression with the row's cells in place of the columns. -/
theorem eval_columnwise {t : Table} (ht : t.WellFormed) (today : Calendar.Date) {e : Expr}
    (h : Columnwise t.schema e) :
    ∃ v, eval ⟨some t, today⟩ e = .ok v ∧
      (∀ items, v = .array items → items.length = t.rowCount) ∧
      ∀ i < t.rowCount, ∃ row w, t.row? i = some row ∧ v.component? i = some w ∧
        eval ⟨some t, today⟩ (e.atRow row) = .ok w := by
  obtain ⟨v, f, hagrees⟩ : ∃ v f, Agrees t ⟨some t, today⟩ e v f := h.agrees ht rfl
  refine ⟨v, hagrees.eval, ?_, fun i hi => ?_⟩
  · rintro items rfl
    exact hagrees.spread.length_eq
  · have hrow : t.row? i = some ⟨t.schema, i, t.cellsAt i⟩ := by simp [Table.row?, hi]
    exact ⟨_, f i, hrow, hagrees.spread.component? hi, hagrees.rows i _ hrow⟩

/-- A text for rows that are paid and a share for the others, in a table with a text that is no
number and with empty cells. -/
theorem eval_columnwise_bonus :
    let t : Table := ⟨⟨["name", "paid", "due"]⟩,
      [[.text "x", .empty, .text "7"], [.boolean true, .number 2, .text "z"],
        [.number 3, .empty, .boolean false]], 3⟩
    let e : Expr := .conditional (.call "getColumnData" [.text "paid"])
      (.binary .add (.call "getColumnData" [.text "name"]) (.text "!"))
      (.call "excelIf" [
        .binary .greater (.unary .negate (.call "getColumnData" [.text "due"])) (.number 0),
        .null, .binary .divide (.number 1) (.call "getColumnData" [.text "due"])])
    t.WellFormed ∧ Columnwise t.schema e ∧
      ∃ v, eval ⟨some t, ⟨2024, 2, 29⟩⟩ e = .ok v ∧
        (∀ items, v = .array items → items.length = t.rowCount) ∧
        ∀ i < t.rowCount, ∃ row w, t.row? i = some row ∧ v.component? i = some w ∧
          eval ⟨some t, ⟨2024, 2, 29⟩⟩ (e.atRow row) = .ok w := by
  intro t e
  have ht : t.WellFormed := ⟨rfl, by simp [t]⟩
  have hpaid : Columnwise t.schema (.call "getColumnData" [.text "paid"]) := .column (by simp [t])
  have hname : Columnwise t.schema (.call "getColumnData" [.text "name"]) := .column (by simp [t])
  have hdue : Columnwise t.schema (.call "getColumnData" [.text "due"]) := .column (by simp [t])
  have he : Columnwise t.schema e :=
    .conditional hpaid (.binary (by decide) (by decide) hname (.text _))
      (.choice (.binary (by decide) (by decide) (.sign (by decide) hdue) (.number _)) .null
        (.binary (by decide) (by decide) (.number _) hdue))
  exact ⟨ht, he, eval_columnwise ht _ he⟩

end SheetBoard.Script
