import SheetBoard.Derived
import SheetBoard.Proofs.Table.Grid

/-! Derived columns. Each value is computed from its own row, so that deriving columns and picking
rows can be done in either order; and a new column leaves the others and their letters alone. -/

namespace SheetBoard

/-! ### Row numbers -/

namespace Formula

/-- References are resolved without looking at the number of the row. -/
theorem resolve_row_index (schema : Schema) (i j : Nat) (cells : List Cell) (cs : List Char) :
    resolve (.row ⟨schema, i, cells⟩) cs = resolve (.row ⟨schema, j, cells⟩) cs := by
  have hnameRanges : resolveNameRanges (.row ⟨schema, i, cells⟩) =
      resolveNameRanges (.row ⟨schema, j, cells⟩) := rfl
  have hletterRanges : resolveLetterRanges (.row ⟨schema, i, cells⟩) =
      resolveLetterRanges (.row ⟨schema, j, cells⟩) := by
    funext cs
    unfold resolveLetterRanges
    congr 1
    funext before ⟨first, last⟩ rest
    simp only [Scope.schema]
    cases columnByLetters? schema first.letters with
    | none => rfl
    | some name => rfl
  have hcells : resolveCells (.row ⟨schema, i, cells⟩) =
      resolveCells (.row ⟨schema, j, cells⟩) := rfl
  have hnames : resolveNames (.row ⟨schema, i, cells⟩) =
      resolveNames (.row ⟨schema, j, cells⟩) := rfl
  unfold resolve
  rw [hnameRanges, hletterRanges, hcells, hnames]

theorem rowScript_index (functions : FunctionTable) (schema : Schema) (i j : Nat)
    (cells : List Cell) (formula : String) :
    rowScript functions ⟨schema, i, cells⟩ formula =
      rowScript functions ⟨schema, j, cells⟩ formula := by
  have hbody : ∀ body, bodyScript functions (.row ⟨schema, i, cells⟩) body =
      bodyScript functions (.row ⟨schema, j, cells⟩) body :=
    fun body => resolve_row_index schema i j cells _
  unfold rowScript script
  split
  · rw [hbody]
  · rfl

end Formula

namespace Transformation

/-- The formula has no value for a row, because its script fails. -/
def failsOn (today : Calendar.Date) (spec : Transformation) (row : Row) : Bool :=
  spec.formula.toList.head? = some '=' &&
    !(Script.run ⟨none, today⟩ (Formula.rowScript .standard row spec.formula).toList).isOk

theorem rowValue?_index (today : Calendar.Date) (formula : String) (schema : Schema) (i j : Nat)
    (cells : List Cell) :
    rowValue? today formula ⟨schema, i, cells⟩ = rowValue? today formula ⟨schema, j, cells⟩ := by
  rw [rowValue?, rowValue?, Formula.rowScript_index .standard schema i j]

variable (today : Calendar.Date) (spec : Transformation) (t : Table)

theorem length_compute : (spec.compute today t).1.length = t.rowCount := by
  unfold compute
  split
  · simp [Table.rows]
  · simp

theorem compute_snd : (spec.compute today t).2 = t.rows.countP (spec.failsOn today) := by
  unfold compute failsOn
  split
  · rename_i hformula
    dsimp only
    rw [List.countP_map]
    congr 1
    funext row
    unfold rowValue?
    simp only [hformula, Function.comp_apply]
    cases Script.run ⟨none, today⟩ (Formula.rowScript .standard row spec.formula).toList with
    | error e => rfl
    | ok v => rfl
  · rename_i hformula
    simp [hformula]

end Transformation

/-! ### Columns put into rows -/

namespace Grid

/-- The value of a new column in one row, by its fields alone. -/
def derivedCell (today : Calendar.Date) (spec : Transformation) (schema : Schema)
    (fields : List Cell) : Cell :=
  if spec.formula.toList.head? = some '=' then
    (Transformation.rowValue? today spec.formula ⟨schema, 0, fields⟩).getD .empty
  else .text spec.formula

def derive (today : Calendar.Date) (g : Grid) (spec : Transformation) : Grid :=
  { schema := g.schema.insert spec.name
    rows := g.rows.map fun fields =>
      g.schema.put spec.name fields (derivedCell today spec g.schema fields) }

def transform (today : Calendar.Date) (specs : List Transformation) (g : Grid) : Grid :=
  specs.foldl (derive today) g

theorem derive_pickRows (today : Calendar.Date) (g : Grid) (spec : Transformation)
    (indices : List Nat) :
    (g.pickRows indices).derive today spec = (g.derive today spec).pickRows indices := by
  simp [derive, pickRows, List.map_filterMap]

theorem transform_pickRows (today : Calendar.Date) (specs : List Transformation) (g : Grid)
    (indices : List Nat) :
    (g.pickRows indices).transform today specs = (g.transform today specs).pickRows indices := by
  unfold transform
  induction specs generalizing g with
  | nil => rfl
  | cons spec specs ih => rw [List.foldl_cons, List.foldl_cons, derive_pickRows, ih]

end Grid

namespace Table

/-- The table with one more column. -/
def derive (today : Calendar.Date) (t : Table) (spec : Transformation) : Table :=
  { schema := t.schema.insert spec.name
    columns := t.schema.put spec.name t.columns (spec.compute today t).1
    rowCount := t.rowCount }

/-- The account of a new column. -/
def newColumn (today : Calendar.Date) (t : Table) (spec : Transformation) : NewColumn :=
  { name := spec.name
    letters := .ofList (Letters.ofIndex ((t.schema.indexOf? spec.name).getD t.schema.size))
    failedRows := (spec.compute today t).2 }

def newColumns (today : Calendar.Date) (t : Table) : List Transformation → List NewColumn
  | [] => []
  | spec :: specs => t.newColumn today spec :: newColumns today (t.derive today spec) specs

/-- Deriving columns never fails, since a computed column is as long as the table is high. -/
theorem transform_eq (today : Calendar.Date) (specs : List Transformation) (t : Table) :
    t.transform today specs =
      .ok (specs.foldl (derive today) t, t.newColumns today specs) := by
  have hstep : ∀ (p : Table × List NewColumn) (spec : Transformation),
      ((p.1.setColumn spec.name (spec.compute today p.1).1).map fun q =>
        (q.1, p.2 ++ [(⟨spec.name, .ofList q.2, (spec.compute today p.1).2⟩ : NewColumn)])) =
        pure (p.1.derive today spec, p.2 ++ [p.1.newColumn today spec]) := by
    intro p spec
    rw [setColumn_of_length_eq spec.name (spec.length_compute today p.1)]
    rfl
  have hrun : ∀ done, specs.foldl
      (fun p spec => (derive today p.1 spec, p.2 ++ [newColumn today p.1 spec])) (t, done) =
        (specs.foldl (derive today) t, done ++ t.newColumns today specs) := by
    induction specs generalizing t with
    | nil => simp [newColumns]
    | cons spec specs ih => simp [newColumns, ih]
  calc t.transform today specs
      = specs.foldlM (fun p spec =>
          pure (derive today p.1 spec, p.2 ++ [newColumn today p.1 spec])) (t, []) := by
        unfold transform
        congr 1
        funext p spec
        exact hstep p spec
    _ = .ok (specs.foldl (derive today) t, t.newColumns today specs) := by
        rw [List.foldlM_pure, hrun]
        rfl

theorem wellFormed_derive {t : Table} (h : t.WellFormed) (today : Calendar.Date)
    (spec : Transformation) : (t.derive today spec).WellFormed :=
  wellFormed_put h _ (spec.length_compute today t)

theorem compute_fst (today : Calendar.Date) (spec : Transformation) (t : Table) :
    (spec.compute today t).1 = t.grid.rows.map (Grid.derivedCell today spec t.schema) := by
  unfold Transformation.compute Grid.derivedCell
  split
  · simp only [grid, rows, List.map_map, Function.comp_def]
    refine List.map_congr_left fun i _ => ?_
    rw [Transformation.rowValue?_index today spec.formula t.schema i 0]
  · simp [List.map_const']

theorem grid_derive (today : Calendar.Date) (t : Table) (spec : Transformation) :
    (t.derive today spec).grid = t.grid.derive today spec := by
  have hlength := spec.length_compute today t
  have hset := grid_setColumn t spec.name (spec.compute today t).1
  rw [setColumn_of_length_eq spec.name hlength, Grid.setColumn, length_rows_grid,
    if_neg (not_not.2 hlength)] at hset
  calc (t.derive today spec).grid
      = ⟨t.schema.insert spec.name, List.zipWith (t.schema.put spec.name) t.grid.rows
          (spec.compute today t).1⟩ := Except.ok.inj hset
    _ = t.grid.derive today spec := by
        rw [compute_fst, List.zipWith_map_right, List.zipWith_self]
        rfl

section

variable (today : Calendar.Date) (specs : List Transformation)

theorem wellFormed_foldl_derive {t : Table} (h : t.WellFormed) :
    (specs.foldl (derive today) t).WellFormed := by
  induction specs generalizing t with
  | nil => exact h
  | cons spec specs ih => exact ih (wellFormed_derive h today spec)

theorem grid_foldl_derive (t : Table) :
    (specs.foldl (derive today) t).grid = t.grid.transform today specs := by
  unfold Grid.transform
  induction specs generalizing t with
  | nil => rfl
  | cons spec specs ih => rw [List.foldl_cons, List.foldl_cons, ih, grid_derive]

/-- Deriving columns and picking rows can be done in either order. -/
theorem foldl_derive_pickRows {t : Table} (h : t.WellFormed) (indices : List Nat) :
    specs.foldl (derive today) (t.pickRows indices) =
      (specs.foldl (derive today) t).pickRows indices := by
  have hwell := wellFormed_foldl_derive today specs h
  refine eq_of_grid_eq (wellFormed_foldl_derive today specs (wellFormed_pickRows h indices))
    (wellFormed_pickRows hwell indices) ?_
  rw [grid_foldl_derive, grid_pickRows h, Grid.transform_pickRows, grid_pickRows hwell,
    grid_foldl_derive]

theorem rowCount_foldl_derive (t : Table) :
    (specs.foldl (derive today) t).rowCount = t.rowCount := by
  induction specs generalizing t with
  | nil => rfl
  | cons spec specs ih => exact ih _

end

end Table

/-! ### Columns that stay -/

namespace Schema

theorem indexOf?_insert (s : Schema) (new name : String) :
    (s.insert new).indexOf? name =
      (s.indexOf? name).or (if new = name then some s.size else none) := by
  unfold insert
  by_cases hnew : new ∈ s.names
  · rw [if_pos hnew]
    by_cases hname : new = name
    · subst hname
      obtain ⟨j, hj⟩ := Option.isSome_iff_exists.1 (isSome_indexOf?.2 hnew)
      simp [hj]
    · simp [hname]
  · rw [if_neg hnew]
    by_cases hname : new = name
    · simp [indexOf?, List.idxOf?, List.findIdx?_append, hname, size]
    · simp [indexOf?, List.idxOf?, List.findIdx?_append, hname]

theorem indexOf?_insert_of_ne (s : Schema) {new name : String} (h : new ≠ name) :
    (s.insert new).indexOf? name = s.indexOf? name := by
  simp [indexOf?_insert, h]

theorem indexOf?_insert_self (s : Schema) (name : String) :
    (s.insert name).indexOf? name = some ((s.indexOf? name).getD s.size) := by
  rw [indexOf?_insert]
  cases s.indexOf? name with
  | none => simp
  | some j => simp

/-- A column keeps its place when others are added. -/
theorem indexOf?_insert_of_some {s : Schema} {name : String} {j : Nat}
    (h : s.indexOf? name = some j) (new : String) : (s.insert new).indexOf? name = some j := by
  rw [indexOf?_insert, h]
  rfl

theorem getElem?_insert_of_some {s : Schema} {name : String} {j : Nat}
    (h : s.names[j]? = some name) (new : String) : (s.insert new).names[j]? = some name := by
  unfold insert
  split
  · exact h
  · exact List.getElem?_append_left (List.getElem?_eq_some_iff.1 h).1 ▸ h

theorem nameAt?_insert_of_some {s : Schema} {letters : List Char} {name : String}
    (h : s.nameAt? letters = some name) (new : String) :
    (s.insert new).nameAt? letters = some name := by
  obtain ⟨j, hj, hname⟩ := Option.bind_eq_some_iff.1 h
  exact Option.bind_eq_some_iff.2 ⟨j, hj, getElem?_insert_of_some hname new⟩

theorem getElem?_put_of_ne {α : Type} {s : Schema} {new name : String} (hne : new ≠ name)
    {entries : List α} (hsize : entries.length = s.size) {j : Nat}
    (hj : s.indexOf? name = some j) (entry : α) : (s.put new entries entry)[j]? = entries[j]? := by
  have hlt : j < entries.length := hsize ▸ indexOf?_lt hj
  unfold put
  cases hnew : s.indexOf? new with
  | none => exact List.getElem?_append_left hlt
  | some i =>
      have hij : i ≠ j := by
        rintro rfl
        have hsame := (getElem?_of_indexOf? hnew).symm.trans (getElem?_of_indexOf? hj)
        exact hne (Option.some.inj hsame)
      exact List.getElem?_set_ne hij

end Schema

namespace Table

variable (today : Calendar.Date)

theorem column?_derive_of_ne {t : Table} (h : t.WellFormed) {spec : Transformation}
    {name : String} (hne : spec.name ≠ name) :
    (t.derive today spec).column? name = t.column? name := by
  have hindex := Schema.indexOf?_insert_of_ne t.schema hne
  unfold column? derive
  rw [hindex]
  cases hj : t.schema.indexOf? name with
  | none => rfl
  | some j => exact Schema.getElem?_put_of_ne hne h.width hj _

theorem column?_foldl_derive {t : Table} (h : t.WellFormed) {specs : List Transformation}
    {name : String} (hne : ∀ spec ∈ specs, spec.name ≠ name) :
    (specs.foldl (derive today) t).column? name = t.column? name := by
  induction specs generalizing t with
  | nil => rfl
  | cons spec specs ih =>
      rw [List.foldl_cons, ih (wellFormed_derive h today spec) fun s hs => hne s (by simp [hs])]
      exact column?_derive_of_ne today h (hne spec (by simp))

theorem lettersOf?_foldl_derive (specs : List Transformation) {t : Table} {name : String}
    {letters : List Char} (h : t.schema.lettersOf? name = some letters) :
    (specs.foldl (derive today) t).schema.lettersOf? name = some letters := by
  induction specs generalizing t with
  | nil => exact h
  | cons spec specs ih =>
      obtain ⟨j, hj, rfl⟩ := Option.map_eq_some_iff.1 h
      exact ih (Option.map_eq_some_iff.2 ⟨j, Schema.indexOf?_insert_of_some hj spec.name, rfl⟩)

theorem nameAt?_foldl_derive (specs : List Transformation) {t : Table} {name : String}
    {letters : List Char} (h : t.schema.nameAt? letters = some name) :
    (specs.foldl (derive today) t).schema.nameAt? letters = some name := by
  induction specs generalizing t with
  | nil => exact h
  | cons spec specs ih => exact ih (Schema.nameAt?_insert_of_some h spec.name)

theorem getElem?_newColumns (t : Table) (specs : List Transformation) (k : Nat) :
    (t.newColumns today specs)[k]? =
      (specs[k]?).map (newColumn today ((specs.take k).foldl (derive today) t)) := by
  induction specs generalizing t k with
  | nil => rfl
  | cons spec specs ih =>
      cases k with
      | zero => rfl
      | succ k => exact ih _ k

/-- The letters in the account of a column are those of the column in the end. -/
theorem lettersOf?_newColumn (t : Table) {specs : List Transformation} {k : Nat}
    {spec : Transformation} (h : specs[k]? = some spec) :
    (specs.foldl (derive today) t).schema.lettersOf? spec.name =
      some (newColumn today ((specs.take k).foldl (derive today) t) spec).letters.toList := by
  obtain ⟨hk, rfl⟩ := List.getElem?_eq_some_iff.1 h
  have hsplit : specs.foldl (derive today) t =
      (specs.drop (k + 1)).foldl (derive today)
        (derive today ((specs.take k).foldl (derive today) t) specs[k]) := by
    rw [← List.foldl_cons, ← List.drop_eq_getElem_cons hk, ← List.foldl_append,
      List.take_append_drop]
  rw [hsplit]
  refine lettersOf?_foldl_derive today _ ?_
  simp [Schema.lettersOf?, derive, newColumn, Schema.indexOf?_insert_self]

/-- Columns can be derived in every table. They are the same when rows are picked before as when
rows are picked after, in any order and with repetitions; no row is added or lost, no other column
and no letters change, and each column comes with the number of rows whose script failed. -/
theorem transform_rowwise (specs : List Transformation) {t : Table} (h : t.WellFormed) :
    ∃ u columns, t.transform today specs = .ok (u, columns) ∧
      (∀ indices, ∃ columns',
        (t.pickRows indices).transform today specs = .ok (u.pickRows indices, columns')) ∧
      u.rowCount = t.rowCount ∧
      (∀ name, (∀ spec ∈ specs, spec.name ≠ name) → u.column? name = t.column? name) ∧
      (∀ name letters, t.schema.lettersOf? name = some letters →
        u.schema.lettersOf? name = some letters) ∧
      (∀ name letters, t.schema.nameAt? letters = some name →
        u.schema.nameAt? letters = some name) ∧
      columns.map NewColumn.name = specs.map Transformation.name ∧
      ∀ k spec, specs[k]? = some spec → ∃ before columns' column,
        t.transform today (specs.take k) = .ok (before, columns') ∧ columns[k]? = some column ∧
          u.schema.lettersOf? spec.name = some column.letters.toList ∧
          column.failedRows = before.rows.countP (spec.failsOn today) := by
  refine ⟨_, _, transform_eq today specs t,
    fun indices => ⟨(t.pickRows indices).newColumns today specs, ?_⟩,
    rowCount_foldl_derive today specs t, fun name => column?_foldl_derive today h,
    fun name letters => lettersOf?_foldl_derive today specs,
    fun name letters => nameAt?_foldl_derive today specs, ?_, ?_⟩
  · rw [transform_eq, foldl_derive_pickRows today specs h]
  · apply List.ext_getElem?
    intro k
    rw [List.getElem?_map, List.getElem?_map, getElem?_newColumns, Option.map_map]
    rfl
  · intro k spec hk
    refine ⟨_, _, _, transform_eq today (specs.take k) t, ?_, lettersOf?_newColumn today t hk,
      spec.compute_snd today _⟩
    rw [getElem?_newColumns, hk]
    rfl

/-- One column is overwritten, the next one uses it, and the last one fails in every row; the rows
are then picked in another order, one of them twice and one that is not there. -/
theorem transform_rowwise_prices :
    let t : Table := ⟨⟨["price", "note"]⟩, [[.number 2.5, .empty], [.text "a", .text "=\""]], 2⟩
    let today : Calendar.Date := ⟨2024, 3, 15⟩
    let specs : List Transformation :=
      [⟨"note", "=A2*2"⟩, ⟨"twice", "=note+B2"⟩, ⟨"broken", "=NOSUCH(price)"⟩]
    t.WellFormed ∧ ∃ u columns, t.transform today specs = .ok (u, columns) ∧
      (∃ columns', (t.pickRows [1, 0, 1, 7]).transform today specs =
        .ok (u.pickRows [1, 0, 1, 7], columns')) ∧
      u.rowCount = 2 ∧ u.column? "price" = t.column? "price" ∧
      columns.map NewColumn.name = ["note", "twice", "broken"] := by
  intro t today specs
  have h : t.WellFormed := ⟨by decide, by decide⟩
  obtain ⟨u, columns, hok, hpick, hcount, hcolumn, -, -, hnames, -⟩ :=
    transform_rowwise today specs h
  exact ⟨h, u, columns, hok, hpick _, hcount, hcolumn "price" (by decide), hnames⟩

end Table

end SheetBoard
