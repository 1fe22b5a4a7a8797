import SheetBoard.Proofs.Table.Deriving

/-! Whatever is done to a table, it stands for the rows that the same changes make of a list of
rows, and all reads from its columns find the fields of these rows. -/

namespace SheetBoard

/-- One change of a table. -/
inductive Change where
  | load (headers : List String) (rows : List (List Cell))
  | addRow (row : List Cell)
  | setColumn (name : String) (values : List Cell)
  | pickRows (indices : List Nat)
  | keepRows (keep : Row → Bool)
  | filterBy (filters : List (String × Filter))
  | retain (conditions : List Condition)
  | transform (today : Calendar.Date) (specs : List Transformation)

/-- The change of a table, by its operations on columns. -/
def Table.perform (t : Table) : Change → Except TableError Table
  | .load headers rows => .ok (.ofRows headers rows)
  | .addRow row => .ok (t.addRow row)
  | .setColumn name values => (t.setColumn name values).map Prod.fst
  | .pickRows indices => .ok (t.pickRows indices)
  | .keepRows keep => .ok (t.keepRows keep)
  | .filterBy filters => .ok (t.filterBy filters)
  | .retain conditions => .ok (t.retain conditions)
  | .transform today specs => (t.transform today specs).map Prod.fst

/-- The same change of a list of rows. -/
def Grid.perform (g : Grid) : Change → Except TableError Grid
  | .load headers rows => .ok (.ofRows headers rows)
  | .addRow row => .ok (g.addRow row)
  | .setColumn name values => g.setColumn name values
  | .pickRows indices => .ok (g.pickRows indices)
  | .keepRows keep => .ok (g.keepRows keep)
  | .filterBy filters => .ok (g.filterBy filters)
  | .retain conditions => .ok (g.retain conditions)
  | .transform today specs => .ok (g.transform today specs)

/-- A change that fails leaves the table as it is. -/
def Table.change (t : Table) (c : Change) : Table :=
  match t.perform c with
  | .ok u => u
  | .error _ => t

def Grid.change (g : Grid) (c : Change) : Grid :=
  match g.perform c with
  | .ok h => h
  | .error _ => g

namespace Table

/-- A table that can be built: its columns are complete, and their names are distinct. -/
structure Sound (t : Table) : Prop extends t.WellFormed where
  distinct : t.schema.names.Nodup

/-! ### One change -/

theorem grid_perform {t : Table} (h : t.WellFormed) (c : Change) :
    (t.perform c).map grid = t.grid.perform c := by
  cases c with
  | load headers rows => exact congrArg Except.ok (ofRows_spec headers rows).2
  | addRow row => exact congrArg Except.ok (grid_addRow h row)
  | setColumn name values =>
      have hset := grid_setColumn t name values
      rw [perform, Grid.perform, ← hset]
      cases t.setColumn name values with
      | error e => rfl
      | ok p => rfl
  | pickRows indices => exact congrArg Except.ok (grid_pickRows h indices)
  | keepRows keep => exact congrArg Except.ok (grid_keepRows h keep)
  | filterBy filters => exact congrArg Except.ok (grid_filterBy h filters)
  | retain conditions => exact congrArg Except.ok (grid_retain h conditions)
  | transform today specs =>
      rw [perform, Grid.perform, transform_eq, ← grid_foldl_derive]
      rfl

theorem nodup_foldl_derive {t : Table} (h : t.schema.names.Nodup) (today : Calendar.Date)
    (specs : List Transformation) : (specs.foldl (derive today) t).schema.names.Nodup := by
  induction specs generalizing t with
  | nil => exact h
  | cons spec specs ih => exact ih (Schema.nodup_insert h spec.name)

theorem schema_ofRows (headers : List String) (rows : List (List Cell)) :
    (ofRows headers rows).schema = .ofHeaders headers :=
  congrArg Grid.schema (ofRows_spec headers rows).2

theorem Sound.perform {t u : Table} (h : t.Sound) {c : Change} (hc : t.perform c = .ok u) :
    u.Sound := by
  cases c with
  | load headers rows =>
      obtain rfl := Except.ok.inj hc
      refine ⟨(ofRows_spec headers rows).1, ?_⟩
      rw [schema_ofRows]
      exact Schema.nodup_ofHeaders headers
  | addRow row =>
      obtain rfl := Except.ok.inj hc
      exact ⟨wellFormed_addRow h.toWellFormed row, h.distinct⟩
  | setColumn name values =>
      by_cases hlength : values.length = t.rowCount
      · rw [Table.perform, setColumn_of_length_eq name hlength] at hc
        obtain rfl := Except.ok.inj hc
        exact ⟨wellFormed_put h.toWellFormed name hlength, Schema.nodup_insert h.distinct name⟩
      · rw [Table.perform, setColumn_of_length_ne name hlength] at hc
        cases hc
  | pickRows indices =>
      obtain rfl := Except.ok.inj hc
      exact ⟨wellFormed_pickRows h.toWellFormed indices, h.distinct⟩
  | keepRows keep =>
      obtain rfl := Except.ok.inj hc
      exact ⟨wellFormed_pickRows h.toWellFormed _, h.distinct⟩
  | filterBy filters =>
      obtain rfl := Except.ok.inj hc
      exact ⟨wellFormed_pickRows h.toWellFormed _, h.distinct⟩
  | retain conditions =>
      obtain rfl := Except.ok.inj hc
      exact ⟨wellFormed_pickRows h.toWellFormed _, h.distinct⟩
  | transform today specs =>
      rw [Table.perform, transform_eq] at hc
      obtain rfl := Except.ok.inj hc
      exact ⟨wellFormed_foldl_derive today specs h.toWellFormed,
        nodup_foldl_derive h.distinct today specs⟩

/-! ### Any number of changes -/

theorem Sound.change {t : Table} (h : t.Sound) (c : Change) : (t.change c).Sound := by
  unfold Table.change
  split
  · exact h.perform ‹_›
  · exact h

theorem grid_change {t : Table} (h : t.WellFormed) (c : Change) :
    (t.change c).grid = t.grid.change c := by
  unfold Table.change Grid.change
  rw [← grid_perform h c]
  cases t.perform c with
  | error e => rfl
  | ok u => rfl

theorem sound_ofHeaders (headers : List String) : (ofHeaders headers).Sound where
  toWellFormed := wellFormed_ofHeaders headers
  distinct := Schema.nodup_ofHeaders headers

theorem Sound.foldl_change {t : Table} (h : t.Sound) (changes : List Change) :
    (changes.foldl Table.change t).Sound ∧
      (changes.foldl Table.change t).grid = changes.foldl Grid.change t.grid := by
  induction changes generalizing t with
  | nil => exact ⟨h, rfl⟩
  | cons c changes ih =>
      rw [List.foldl_cons, List.foldl_cons, ← grid_change h.toWellFormed]
      exact ih (h.change c)

/-! ### Reading -/

/-- Everything that is read from a table is read from its rows. -/
structure Reads (t : Table) (g : Grid) : Prop where
  schema : t.schema = g.schema
  height : t.rowCount = g.rows.length
  width : ∀ fields ∈ g.rows, fields.length = g.schema.size
  /-- Every place of a column and a row is stored, and no place next to it is read instead. -/
  stored : ∀ i < g.rows.length, ∀ j < g.schema.size, ∃ column cell,
    t.columns[j]? = some column ∧ column[i]? = some cell ∧ g.field? i j = some cell
  /-- A row has its number and its fields in order. -/
  row : ∀ i, t.row? i = (g.rows[i]?).map fun fields => ⟨g.schema, i, fields⟩
  rows : t.rows = g.rows.zipIdx.map fun (fields, i) => ⟨g.schema, i, fields⟩
  cells : ∀ i row, t.row? i = some row → ∀ j, row.cells[j]? = g.field? i j
  /-- Each field comes with the name of its own column. -/
  fields : ∀ i row, t.row? i = some row → ∀ j,
    row.fields[j]? = (g.schema.names[j]?).bind fun name =>
      (g.field? i j).map fun cell => (name, cell)
  get : ∀ i row name, t.row? i = some row →
    row.get? name = (g.schema.indexOf? name).bind (g.field? i)
  getByLetters : ∀ i row letters, t.row? i = some row →
    row.getByLetters? letters = (Letters.toIndex? letters).bind (g.field? i)
  column : ∀ name, t.column? name = (g.schema.indexOf? name).bind g.column?
  columnFrom : ∀ letters start, t.columnFrom letters start =
    (((Letters.toIndex? letters).bind g.column?).getD []).drop (start - 2)

theorem row?_eq (t : Table) (i : Nat) :
    t.row? i = (t.grid.rows[i]?).map fun fields => ⟨t.schema, i, fields⟩ := by
  unfold row?
  by_cases hi : i < t.rowCount
  · simp [hi]
  · simp [hi]

theorem field?_grid {t : Table} {i : Nat} (hi : i < t.rowCount) (j : Nat) :
    t.grid.field? i j = (t.cellsAt i)[j]? := by
  simp [Grid.field?, hi]

theorem row_of_row? {t : Table} {i : Nat} {row : Row} (h : t.row? i = some row) :
    i < t.rowCount ∧ row = ⟨t.schema, i, t.cellsAt i⟩ := by
  unfold row? at h
  split at h
  · exact ⟨‹_›, (Option.some.inj h).symm⟩
  · cases h

theorem mapM_eq_some_map {α β : Type} {read : α → Option β} {value : α → β} {xs : List α}
    (h : ∀ x ∈ xs, read x = some (value x)) : xs.mapM read = some (xs.map value) := by
  induction xs with
  | nil => rfl
  | cons x xs ih =>
      rw [List.mapM_cons, h x (by simp), ih fun y hy => h y (by simp [hy])]
      rfl

section

variable {t : Table} (h : t.WellFormed)
include h

theorem getElem?_cellsAt {i j : Nat} {column : List Cell} (hi : i < t.rowCount)
    (hj : t.columns[j]? = some column) : (t.cellsAt i)[j]? = column[i]? := by
  have hlength := h.height column (List.mem_of_getElem? hj)
  simp [cellsAt, hj, hlength, hi]

theorem column?_grid {j : Nat} {column : List Cell} (hj : t.columns[j]? = some column) :
    t.grid.column? j = some column := by
  have hlength := h.height column (List.mem_of_getElem? hj)
  have hread : ∀ i ∈ List.range t.rowCount, (t.cellsAt i)[j]? = some (column.getD i .empty) := by
    intro i hi
    rw [getElem?_cellsAt h (List.mem_range.1 hi) hj]
    simp [hlength, List.mem_range.1 hi]
  have hcells : (List.range t.rowCount).map (fun i => column.getD i .empty) = column := by
    rw [← hlength]
    apply List.ext_getElem
    · simp
    · intro i hi _
      have hlt : i < column.length := by simpa using hi
      simp [hlt]
  rw [Grid.column?, rows_grid, List.mapM_map]
  exact (mapM_eq_some_map hread).trans (congrArg some hcells)

/-- A place past the last column holds nothing, in any row. -/
theorem column?_grid_getD {j : Nat} (hj : t.schema.size ≤ j) :
    (t.grid.column? j).getD [] = [] := by
  have hwidth := length_of_mem_rows_grid h
  unfold Grid.column?
  cases hrows : t.grid.rows with
  | nil => rfl
  | cons fields rows =>
      have hnone : fields[j]? = none :=
        List.getElem?_eq_none (hwidth fields (by simp [hrows]) ▸ hj)
      rw [List.mapM_cons, hnone]
      rfl

end

theorem columnFrom_eq {t : Table} (h : t.Sound) (letters : List Char) (start : Nat) :
    t.columnFrom letters start =
      (((Letters.toIndex? letters).bind t.grid.column?).getD []).drop (start - 2) := by
  unfold columnFrom Schema.nameAt? rowsBefore
  cases Letters.toIndex? letters with
  | none => simp
  | some j =>
      by_cases hj : j < t.schema.size
      · have hname : t.schema.names[j]? = some t.schema.names[j] := List.getElem?_eq_getElem hj
        have hcolumn := List.getElem?_eq_getElem (h.width.symm ▸ hj : j < t.columns.length)
        simp [hname, column?, Schema.indexOf?_of_getElem? h.distinct hname, hcolumn,
          column?_grid h.toWellFormed hcolumn]
      · have hle := Nat.le_of_not_lt hj
        simp [List.getElem?_eq_none hle, column?_grid_getD h.toWellFormed hle]

theorem Sound.reads {t : Table} (h : t.Sound) : t.Reads t.grid where
  schema := rfl
  height := (length_rows_grid t).symm
  width := length_of_mem_rows_grid h.toWellFormed
  stored := by
    intro i hi j hj
    rw [length_rows_grid] at hi
    have hcolumn := List.getElem?_eq_getElem (h.width.symm ▸ hj : j < t.columns.length)
    have hlength := h.height _ (List.mem_of_getElem? hcolumn)
    have hcell := List.getElem?_eq_getElem (hlength.symm ▸ hi)
    refine ⟨_, _, hcolumn, hcell, ?_⟩
    rw [field?_grid hi, getElem?_cellsAt h.toWellFormed hi hcolumn, hcell]
  row := row?_eq t
  rows := by
    apply List.ext_getElem
    · simp [rows]
    · intro i hi _
      simp [rows]
  cells := by
    intro i row hrow j
    obtain ⟨hi, rfl⟩ := row_of_row? hrow
    exact (field?_grid hi j).symm
  fields := by
    intro i row hrow j
    obtain ⟨hi, rfl⟩ := row_of_row? hrow
    rw [field?_grid hi, schema_grid, Row.fields, List.zip, List.getElem?_zipWith']
    cases t.schema.names[j]? with
    | none => rfl
    | some name => rfl
  get := by
    intro i row name hrow
    obtain ⟨hi, rfl⟩ := row_of_row? hrow
    unfold Row.get?
    congr 1
    funext j
    exact (field?_grid hi j).symm
  getByLetters := by
    intro i row letters hrow
    obtain ⟨hi, rfl⟩ := row_of_row? hrow
    have hread : ∀ j, t.schema.size ≤ j → t.grid.field? i j = none := by
      intro j hj
      rw [field?_grid hi]
      exact List.getElem?_eq_none (by simpa [cellsAt, h.width] using hj)
    rw [← Schema.bind_nameAt? h.distinct letters hread]
    unfold Row.getByLetters? Row.get?
    congr 1
    funext name
    congr 1
    funext j
    exact (field?_grid hi j).symm
  column := by
    intro name
    unfold column?
    cases hj : t.schema.indexOf? name with
    | none => rw [schema_grid, hj]; rfl
    | some j =>
        have hlt := Schema.indexOf?_lt hj
        have hcolumn := List.getElem?_eq_getElem (h.width.symm ▸ hlt : j < t.columns.length)
        rw [schema_grid, hj]
        exact hcolumn.trans (column?_grid h.toWellFormed hcolumn).symm
  columnFrom := columnFrom_eq h

/-- After any changes, a table has one complete column for each of its distinct names, it is read
like the rows that the same changes make of a list of rows, and a further change does to it what it
does to these rows, or fails as it does on them. -/
theorem reads_foldl_change (headers : List String) (changes : List Change) :
    let t := changes.foldl change (.ofHeaders headers)
    let g := changes.foldl Grid.change (.ofHeaders headers)
    t.Sound ∧ t.Reads g ∧ ∀ c, (t.perform c).map grid = g.perform c := by
  intro t g
  obtain ⟨hsound, hgrid⟩ := (sound_ofHeaders headers).foldl_change changes
  rw [grid_ofHeaders] at hgrid
  have hg : t.grid = g := hgrid
  refine ⟨hsound, ?_, ?_⟩
  · exact hg ▸ hsound.reads
  · exact hg ▸ grid_perform hsound.toWellFormed

end Table

end SheetBoard
