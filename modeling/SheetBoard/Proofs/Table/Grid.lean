import SheetBoard.Condition
import SheetBoard.Table.Filter
import SheetBoard.Proofs.Schema

/-! A table is stored by column and stands for a list of rows. Each operation on the columns does to
the rows what its plain counterpart on lists of fields does. -/

namespace SheetBoard

namespace Schema

/-- The schema with a name, which comes last if it is new. -/
def insert (s : Schema) (name : String) : Schema :=
  if name ∈ s.names then s else ⟨s.names ++ [name]⟩

/-- Stores an entry under a name: in place of the entry of that name, or after the last one. -/
def put {α : Type} (s : Schema) (name : String) (entries : List α) (entry : α) : List α :=
  match s.indexOf? name with
  | some j => entries.set j entry
  | none => entries ++ [entry]

theorem map_put {α β : Type} (f : α → β) (s : Schema) (name : String) (entries : List α)
    (entry : α) : (s.put name entries entry).map f = s.put name (entries.map f) (f entry) := by
  unfold put
  cases s.indexOf? name with
  | none => simp
  | some j => simp [List.map_set]

theorem mem_put {α : Type} {s : Schema} {name : String} {entries : List α} {entry x : α}
    (h : x ∈ s.put name entries entry) : x ∈ entries ∨ x = entry := by
  unfold put at h
  cases hindex : s.indexOf? name with
  | none => simpa [hindex] using h
  | some j =>
      rw [hindex] at h
      exact List.mem_or_eq_of_mem_set h

theorem length_put {α : Type} {s : Schema} {entries : List α} (h : entries.length = s.size)
    (name : String) (entry : α) : (s.put name entries entry).length = (s.insert name).size := by
  unfold put insert
  cases hindex : s.indexOf? name with
  | none => simpa [indexOf?_eq_none_iff.1 hindex, size] using h
  | some j => simpa [mem_of_indexOf? hindex] using h

theorem nodup_insert {s : Schema} (h : s.names.Nodup) (name : String) :
    (s.insert name).names.Nodup := by
  unfold insert
  split
  · exact h
  · exact nodup_concat h ‹_›

end Schema

/-! ### Rows of fields -/

/-- A table as a list of rows, each with one field for each column. -/
structure Grid where
  schema : Schema
  rows : List (List Cell)
  deriving Repr, DecidableEq

namespace Grid

def ofHeaders (headers : List String) : Grid := ⟨.ofHeaders headers, []⟩

/-- A row of the given width: missing cells past its end, and what it has left over is dropped. -/
def fit (width : Nat) (row : List Cell) : List Cell :=
  (row ++ List.replicate width Cell.empty).take width

def addRow (g : Grid) (row : List Cell) : Grid :=
  { g with rows := g.rows ++ [fit g.schema.size row] }

def ofRows (headers : List String) (rows : List (List Cell)) : Grid :=
  let schema := Schema.ofHeaders headers
  ⟨schema, rows.map (fit schema.size)⟩

/-- Stores one value in each row. -/
def setColumn (g : Grid) (name : String) (values : List Cell) : Except TableError Grid :=
  if values.length ≠ g.rows.length then
    .error (.columnLength name g.rows.length values.length)
  else .ok ⟨g.schema.insert name, List.zipWith (g.schema.put name) g.rows values⟩

def pickRows (g : Grid) (indices : List Nat) : Grid :=
  { g with rows := indices.filterMap fun i => g.rows[i]? }

def keepRows (g : Grid) (keep : Row → Bool) : Grid :=
  { g with
    rows := (g.rows.zipIdx.filter fun (fields, i) => keep ⟨g.schema, i, fields⟩).map Prod.fst }

/-- The fields meet a filter: it is unset, it names no column, or it keeps the column's field. -/
def meets (schema : Schema) (fields : List Cell) : String × Filter → Bool
  | (name, filter) =>
    filter.isVacuous ||
      (schema.names.findIdx? (Text.equalIgnoringCase · name)).all fun j =>
        (fields[j]?).any filter.keeps

def filterBy (g : Grid) (filters : List (String × Filter)) : Grid :=
  { g with rows := g.rows.filter fun fields => filters.all (meets g.schema fields) }

/-- A condition looks at the fields only, so that any number will do for the row. -/
def retain (g : Grid) (conditions : List Condition) : Grid :=
  { g with rows := g.rows.filter fun fields => conditions.all (·.accepts ⟨g.schema, 0, fields⟩) }

/-- The field of a row in a place. -/
def field? (g : Grid) (i j : Nat) : Option Cell := (g.rows[i]?).bind (·[j]?)

/-- The fields of all rows in a place, if every row has one there. -/
def column? (g : Grid) (j : Nat) : Option (List Cell) := g.rows.mapM (·[j]?)

theorem fit_cons (n : Nat) (value : Cell) (row : List Cell) :
    fit (n + 1) (value :: row) = value :: fit n row := by
  simp [fit, List.take_append]
  omega

/-- A row of the width fits as it is. -/
theorem fit_of_length {n : Nat} {row : List Cell} (h : row.length = n) : fit n row = row := by
  simp [fit, ← h]

theorem fit_nil (n : Nat) : fit n [] = List.replicate n .empty := by simp [fit]

/-- A choice that does not look at the row's number picks the rows by their fields. -/
theorem keepRows_eq_filter (g : Grid) {keep : Row → Bool} {keepFields : List Cell → Bool}
    (h : ∀ i, ∀ fields ∈ g.rows, keep ⟨g.schema, i, fields⟩ = keepFields fields) :
    g.keepRows keep = { g with rows := g.rows.filter keepFields } := by
  have hzip : ∀ (rows : List (List Cell)) (n : Nat),
      ((rows.zipIdx n).filter fun x => keepFields x.1).map Prod.fst = rows.filter keepFields := by
    intro rows
    induction rows with
    | nil => exact fun _ => rfl
    | cons fields rows ih =>
        intro n
        by_cases hfields : keepFields fields = true
        · simp [hfields, ih]
        · simp [hfields, ih]
  have hkeep : (g.rows.zipIdx.filter fun (fields, i) => keep ⟨g.schema, i, fields⟩) =
      g.rows.zipIdx.filter fun x => keepFields x.1 :=
    List.filter_congr fun x hx => h x.2 x.1 (List.fst_mem_of_mem_zipIdx hx)
  rw [keepRows, hkeep, hzip]

end Grid

namespace Table

/-- The rows that a table stands for. -/
def grid (t : Table) : Grid := ⟨t.schema, t.rows.map Row.cells⟩

@[simp] theorem schema_grid (t : Table) : t.grid.schema = t.schema := rfl

theorem rows_grid (t : Table) : t.grid.rows = (List.range t.rowCount).map t.cellsAt := by
  simp [grid, rows, Function.comp_def]

@[simp] theorem length_rows_grid (t : Table) : t.grid.rows.length = t.rowCount := by
  simp [rows_grid]

@[simp] theorem getElem_rows_grid (t : Table) {i : Nat} (h : i < t.grid.rows.length) :
    t.grid.rows[i] = t.cellsAt i := by
  simp [rows_grid]

theorem grid_eq (t : Table) : t.grid = ⟨t.schema, (List.range t.rowCount).map t.cellsAt⟩ := by
  rw [← rows_grid]
  rfl

theorem length_of_mem_rows_grid {t : Table} (h : t.WellFormed) :
    ∀ fields ∈ t.grid.rows, fields.length = t.schema.size := by
  intro fields hfields
  rw [rows_grid] at hfields
  obtain ⟨i, -, rfl⟩ := List.mem_map.1 hfields
  simpa [cellsAt] using h.width

/-- A table in which every column is complete is determined by its rows. -/
theorem eq_of_grid_eq {t u : Table} (ht : t.WellFormed) (hu : u.WellFormed)
    (h : t.grid = u.grid) : t = u := by
  have hschema : t.schema = u.schema := congrArg Grid.schema h
  have hcount : t.rowCount = u.rowCount := by
    rw [← length_rows_grid, h, length_rows_grid]
  have hcells : ∀ i < t.rowCount, t.cellsAt i = u.cellsAt i := by
    intro i hi
    have hrow := congrArg (fun g : Grid => g.rows[i]?) h
    simpa [hi, ← hcount] using hrow
  have hcolumns : t.columns = u.columns := by
    apply List.ext_getElem
    · rw [ht.width, hu.width, hschema]
    · intro j hj hj'
      have hlength := ht.height _ (List.getElem_mem hj)
      have hlength' := hu.height _ (List.getElem_mem hj')
      apply List.ext_getElem
      · rw [hlength, hlength', hcount]
      · intro i hi hi'
        have hcell := congrArg (fun fields => fields[j]?) (hcells i (hlength ▸ hi))
        simpa [cellsAt, hj, hj', hi, hi'] using hcell
  obtain ⟨schema, columns, rowCount⟩ := t
  obtain rfl := hschema
  obtain rfl := hcolumns
  obtain rfl := hcount
  rfl

/-! ### New tables and new rows -/

theorem wellFormed_ofHeaders (headers : List String) : (ofHeaders headers).WellFormed where
  width := by simp [ofHeaders]
  height := by simp [ofHeaders]

theorem grid_ofHeaders (headers : List String) :
    (ofHeaders headers).grid = .ofHeaders headers := by
  simp [grid_eq, ofHeaders, Grid.ofHeaders]

theorem length_extendColumns (columns : List (List Cell)) (row : List Cell) :
    (extendColumns columns row).length = columns.length := by
  fun_induction extendColumns columns row with
  | case1 => rfl
  | case2 column columns ih => simp [ih]
  | case3 column columns value row ih => simp [ih]

section

variable {columns : List (List Cell)} {n : Nat} (h : ∀ column ∈ columns, column.length = n)
include h

theorem length_of_mem_extendColumns (row : List Cell) :
    ∀ column ∈ extendColumns columns row, column.length = n + 1 := by
  fun_induction extendColumns columns row with
  | case1 => simp
  | case2 column columns ih => grind
  | case3 column columns value row ih => grind

/-- The cells above the new row are those that were there. -/
theorem map_extendColumns_of_lt (row : List Cell) {i : Nat} (hi : i < n) :
    (extendColumns columns row).map (·.getD i .empty) = columns.map (·.getD i .empty) := by
  fun_induction extendColumns columns row with
  | case1 => rfl
  | case2 column columns ih => grind
  | case3 column columns value row ih => grind

/-- The new cells are the row, made to fit. -/
theorem map_extendColumns_last (row : List Cell) :
    (extendColumns columns row).map (·.getD n .empty) = Grid.fit columns.length row := by
  fun_induction extendColumns columns row with
  | case1 => simp [Grid.fit]
  | case2 column columns ih =>
      rw [Grid.fit_nil] at ih ⊢
      rw [List.length_cons, List.replicate_succ]
      grind
  | case3 column columns value row ih =>
      rw [List.length_cons, Grid.fit_cons]
      grind

end

theorem wellFormed_addRow {t : Table} (h : t.WellFormed) (row : List Cell) :
    (t.addRow row).WellFormed where
  width := (length_extendColumns t.columns row).trans h.width
  height := length_of_mem_extendColumns h.height row

theorem grid_addRow {t : Table} (h : t.WellFormed) (row : List Cell) :
    (t.addRow row).grid = t.grid.addRow row := by
  have hlast : (t.addRow row).cellsAt t.rowCount = Grid.fit t.schema.size row := by
    rw [← h.width]
    exact map_extendColumns_last h.height row
  have hkept : ∀ i ∈ List.range t.rowCount, (t.addRow row).cellsAt i = t.cellsAt i := by
    intro i hi
    exact map_extendColumns_of_lt h.height row (List.mem_range.1 hi)
  have hcount : (t.addRow row).rowCount = t.rowCount + 1 := rfl
  rw [grid_eq, grid_eq, hcount, List.range_succ, List.map_append, List.map_singleton, hlast,
    List.map_congr_left hkept]
  rfl

/-- A table of rows is well formed and stands for the rows, each made to fit. -/
theorem ofRows_spec (headers : List String) (rows : List (List Cell)) :
    (ofRows headers rows).WellFormed ∧ (ofRows headers rows).grid = .ofRows headers rows := by
  have hfold : ∀ t : Table, t.WellFormed → (rows.foldl addRow t).WellFormed ∧
      (rows.foldl addRow t).grid =
        ⟨t.schema, t.grid.rows ++ rows.map (Grid.fit t.schema.size)⟩ := by
    induction rows with
    | nil => exact fun t ht => ⟨ht, by simp [grid]⟩
    | cons row rows ih =>
        intro t ht
        obtain ⟨hwell, hgrid⟩ := ih _ (wellFormed_addRow ht row)
        have hschema : (t.addRow row).schema = t.schema := rfl
        refine ⟨hwell, ?_⟩
        rw [List.foldl_cons, hgrid, grid_addRow ht]
        simp [Grid.addRow, hschema]
  obtain ⟨hwell, hgrid⟩ := hfold _ (wellFormed_ofHeaders headers)
  refine ⟨hwell, hgrid.trans ?_⟩
  rw [grid_ofHeaders]
  rfl

/-! ### All cells -/

/-- The table with every cell replaced. -/
def mapCells (f : Cell → Cell) (t : Table) : Table :=
  { t with columns := t.columns.map (·.map f) }

theorem wellFormed_mapCells {t : Table} (h : t.WellFormed) (f : Cell → Cell) :
    (t.mapCells f).WellFormed where
  width := by simpa [mapCells] using h.width
  height := by simpa [mapCells] using h.height

theorem grid_mapCells {t : Table} (h : t.WellFormed) (f : Cell → Cell) :
    (t.mapCells f).grid = ⟨t.schema, t.grid.rows.map (·.map f)⟩ := by
  have hcells : ∀ i ∈ List.range t.rowCount, (t.mapCells f).cellsAt i = (t.cellsAt i).map f := by
    intro i hi
    have hlt : i < t.rowCount := List.mem_range.1 hi
    simp only [cellsAt, mapCells, List.map_map]
    apply List.map_congr_left
    intro column hcolumn
    have hlength : i < column.length := by rwa [h.height column hcolumn]
    simp [hlength]
  have hcount : (t.mapCells f).rowCount = t.rowCount := rfl
  rw [grid_eq, rows_grid, List.map_map, hcount, List.map_congr_left hcells]
  rfl

theorem mapCells_eq_self {t : Table} {f : Cell → Cell}
    (h : ∀ column ∈ t.columns, ∀ cell ∈ column, f cell = cell) : t.mapCells f = t := by
  have hcolumns : t.columns.map (·.map f) = t.columns := by
    conv_rhs => rw [← List.map_id t.columns]
    apply List.map_congr_left
    intro column hcolumn
    exact (List.map_congr_left (h column hcolumn)).trans (List.map_id _)
  rw [mapCells, hcolumns]

/-- A table with distinct names is the table of its rows. -/
theorem ofRows_map_cells {t : Table} (h : t.WellFormed) (hnames : t.schema.names.Nodup)
    (f : Cell → Cell) :
    ofRows t.schema.names (t.rows.map fun row => row.cells.map f) = t.mapCells f := by
  obtain ⟨hwell, hgrid⟩ := ofRows_spec t.schema.names (t.rows.map fun row => row.cells.map f)
  have hfit : ∀ fields ∈ t.grid.rows, Grid.fit t.schema.size (fields.map f) = fields.map f := by
    intro fields hfields
    apply Grid.fit_of_length
    rw [List.length_map, length_of_mem_rows_grid h fields hfields]
  have hrows : (t.rows.map fun row => row.cells.map f) = t.grid.rows.map (·.map f) := by
    simp [grid]
  apply eq_of_grid_eq hwell (wellFormed_mapCells h f)
  rw [hgrid, grid_mapCells h, Grid.ofRows, Schema.ofHeaders_of_nodup hnames, hrows, List.map_map]
  exact congrArg (Grid.mk t.schema) (List.map_congr_left hfit)

/-! ### Columns -/

theorem setColumn_of_length_ne {t : Table} {values : List Cell} (name : String)
    (h : values.length ≠ t.rowCount) :
    t.setColumn name values = .error (.columnLength name t.rowCount values.length) := by
  simp [setColumn, h]

theorem setColumn_of_length_eq {t : Table} {values : List Cell} (name : String)
    (h : values.length = t.rowCount) :
    t.setColumn name values =
      .ok (⟨t.schema.insert name, t.schema.put name t.columns values, t.rowCount⟩,
        Letters.ofIndex ((t.schema.indexOf? name).getD t.schema.size)) := by
  unfold setColumn Schema.extend Schema.put Schema.insert
  cases hindex : t.schema.indexOf? name with
  | none => simp [h, Schema.indexOf?_eq_none_iff.1 hindex]
  | some j => simp [h, Schema.mem_of_indexOf? hindex]

theorem wellFormed_put {t : Table} (h : t.WellFormed) (name : String) {values : List Cell}
    (hvalues : values.length = t.rowCount) :
    WellFormed ⟨t.schema.insert name, t.schema.put name t.columns values, t.rowCount⟩ where
  width := Schema.length_put h.width name values
  height := by
    intro column hcolumn
    rcases Schema.mem_put hcolumn with hold | rfl
    · exact h.height column hold
    · exact hvalues

theorem zipWith_map_range {α β γ : Type} (f : α → β → γ) (g : Nat → α) (values : List β)
    (default : β) :
    List.zipWith f ((List.range values.length).map g) values =
      (List.range values.length).map fun i => f (g i) (values.getD i default) := by
  apply List.ext_getElem
  · simp
  · intro i hi _
    have hlt : i < values.length := by simpa using hi
    simp [hlt]

theorem grid_setColumn (t : Table) (name : String) (values : List Cell) :
    (t.setColumn name values).map (·.1.grid) = t.grid.setColumn name values := by
  by_cases h : values.length = t.rowCount
  · have hcells : ∀ i,
        cellsAt ⟨t.schema.insert name, t.schema.put name t.columns values, t.rowCount⟩ i =
          t.schema.put name (t.cellsAt i) (values.getD i .empty) :=
      fun i => Schema.map_put _ _ _ _ _
    have hzip := zipWith_map_range (t.schema.put name) t.cellsAt values .empty
    rw [h, ← rows_grid] at hzip
    rw [setColumn_of_length_eq name h, Grid.setColumn, length_rows_grid, if_neg (not_not.2 h),
      schema_grid, hzip]
    simp [Except.map, grid_eq, hcells]
  · rw [setColumn_of_length_ne name h]
    simp [Grid.setColumn, h, Except.map]

/-! ### Picking rows -/

theorem filterMap_getElem? {α : Type} (xs : List α) (default : α) (indices : List Nat) :
    (indices.filterMap fun i => xs[i]?) =
      (indices.filter (· < xs.length)).map (xs.getD · default) := by
  induction indices with
  | nil => rfl
  | cons i indices ih =>
      by_cases hi : i < xs.length
      · simp [hi, ih]
      · simp [hi, ih]

theorem wellFormed_pickRows {t : Table} (h : t.WellFormed) (indices : List Nat) :
    (t.pickRows indices).WellFormed where
  width := by simpa [pickRows] using h.width
  height := by
    intro column hcolumn
    obtain ⟨column, hmem, rfl⟩ := List.mem_map.1 hcolumn
    rw [filterMap_getElem? column .empty, h.height column hmem]
    simp [pickRows, List.countP_eq_length_filter]

/-- Only numbers within the table pick a row. -/
theorem filterMap_rows_grid (t : Table) (indices : List Nat) :
    (indices.filterMap fun i => t.grid.rows[i]?) =
      (indices.filter (· < t.rowCount)).map t.cellsAt := by
  rw [filterMap_getElem? t.grid.rows [], length_rows_grid]
  refine List.map_congr_left fun i hi => ?_
  have hlt : i < t.rowCount := by simpa using List.of_mem_filter hi
  simp [hlt]

theorem grid_pickRows {t : Table} (h : t.WellFormed) (indices : List Nat) :
    (t.pickRows indices).grid = t.grid.pickRows indices := by
  have hcount : (t.pickRows indices).rowCount = (indices.filter (· < t.rowCount)).length :=
    List.countP_eq_length_filter
  have hcells : ∀ k (hk : k < (indices.filter (· < t.rowCount)).length),
      (t.pickRows indices).cellsAt k = t.cellsAt (indices.filter (· < t.rowCount))[k] := by
    intro k hk
    unfold cellsAt pickRows
    rw [List.map_map]
    refine List.map_congr_left fun column hcolumn => ?_
    simp [filterMap_getElem? column .empty, h.height column hcolumn, hk]
  rw [grid_eq, Grid.pickRows, filterMap_rows_grid, hcount]
  congr 1
  apply List.ext_getElem
  · simp
  · intro k hk _
    rw [List.length_map, List.length_range] at hk
    simp [hcells k hk]

theorem grid_keepRows {t : Table} (h : t.WellFormed) (keep : Row → Bool) :
    (t.keepRows keep).grid = t.grid.keepRows keep := by
  let kept := (List.range t.rowCount).filter fun i => keep ⟨t.schema, i, t.cellsAt i⟩
  have hindices : (t.rows.filter keep).map Row.index = kept := by
    simp [rows, List.filter_map, Function.comp_def, kept]
  have hkept : kept.filter (· < t.rowCount) = kept := by
    refine List.filter_eq_self.2 fun i hi => ?_
    simpa using List.mem_range.1 (List.mem_of_mem_filter hi)
  have hzip : t.grid.rows.zipIdx = (List.range t.rowCount).map fun i => (t.cellsAt i, i) := by
    apply List.ext_getElem
    · simp
    · intro i hi _
      simp
  rw [keepRows, grid_pickRows h, hindices, Grid.pickRows, filterMap_rows_grid, hkept,
    Grid.keepRows, hzip]
  simp [List.filter_map, Function.comp_def, kept]

theorem grid_filterBy {t : Table} (h : t.WellFormed) (filters : List (String × Filter)) :
    (t.filterBy filters).grid = t.grid.filterBy filters := by
  rw [filterBy, grid_keepRows h]
  refine Grid.keepRows_eq_filter t.grid fun i fields hfields => ?_
  have hlength := length_of_mem_rows_grid h fields hfields
  rw [activeFilters, List.all_filterMap]
  congr 1
  funext ⟨name, filter⟩
  by_cases hvacuous : filter.isVacuous = true
  · simp [Grid.meets, hvacuous]
  · cases hcolumn : t.schema.names.findIdx? (Text.equalIgnoringCase · name) with
    | none => simp [Grid.meets, hvacuous, hcolumn]
    | some j =>
        have hj : j < fields.length := by
          rw [hlength]
          exact (List.findIdx?_eq_some_iff_getElem.1 hcolumn).1
        simp [Grid.meets, hvacuous, hcolumn, hj]

theorem grid_retain {t : Table} (h : t.WellFormed) (conditions : List Condition) :
    (t.retain conditions).grid = t.grid.retain conditions := by
  rw [retain, grid_keepRows h]
  exact Grid.keepRows_eq_filter t.grid fun i fields _ => rfl

end Table

end SheetBoard
