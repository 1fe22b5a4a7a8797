import SheetBoard.Proofs.Script.References

/-! The parts of a dashboard do not depend on each other. Each filter and each tile of a board is
made from its own part of the authored dashboard and from the table, whether the others can be
evaluated or not. -/

namespace SheetBoard.Dashboard

/-! ### Places in the grid -/

/-- Where a component stands: the row of the grid, the column of the row, and the place in it. -/
structure Place where
  row : Nat
  column : Nat
  index : Nat
  deriving Repr, DecidableEq

namespace Spec

def component? (spec : Spec) (place : Place) : Option Spec.Component :=
  (spec.rows[place.row]?).bind fun columns =>
    (columns[place.column]?).bind (·.content[place.index]?)

/-- Puts a component in the place of another one. -/
def setComponent (spec : Spec) (place : Place) (component : Spec.Component) : Spec :=
  { spec with
    rows := spec.rows.modify place.row fun columns =>
      columns.modify place.column fun column =>
        { column with content := column.content.set place.index component } }

/-- Puts a filter in the place of another one. -/
def setFilter (spec : Spec) (i : Nat) (filter : Spec.Filter) : Spec :=
  { spec with filters := spec.filters.set i filter }

/-- A change of one entry is not seen by what looks at the others, or at the rest of this one. -/
theorem bind_getElem?_modify {α β : Type} {f : α → α} {g : α → Option β} {i j : Nat}
    (h : j = i → ∀ a, g (f a) = g a) (xs : List α) :
    ((xs.modify i f)[j]?).bind g = (xs[j]?).bind g := by
  rw [List.getElem?_modify]
  cases xs[j]? with
  | none => rfl
  | some a =>
      by_cases hij : i = j
      · simp [hij, h hij.symm]
      · simp [hij]

theorem component?_setComponent_of_ne (spec : Spec) {place other : Place} (h : other ≠ place)
    (component : Spec.Component) :
    (spec.setComponent place component).component? other = spec.component? other := by
  refine bind_getElem?_modify (fun hrow columns => ?_) spec.rows
  refine bind_getElem?_modify (fun hcolumn column => ?_) columns
  refine List.getElem?_set_ne fun hindex => h ?_
  cases other
  cases place
  simp_all

end Spec

def Board.tile? (board : Board) (place : Place) : Option Tile :=
  (board.rows[place.row]?).bind fun row =>
    (row.columns[place.column]?).bind (·.content[place.index]?)

/-! ### Boards without values -/

def FilterPanel.unvalued (panel : FilterPanel) : FilterPanel := { panel with values := none }

def Tile.unvalued : Tile → Tile
  | .kpi tile => .kpi { tile with display := none }
  | .chart tile => .chart tile

/-- The board without the values of its filters and key figures. -/
def Board.unvalued (board : Board) : Board :=
  { board with
    filters := board.filters.map FilterPanel.unvalued
    rows := board.rows.map (·.mapTiles Tile.unvalued) }

section

variable (target : Target) (today : Calendar.Date) (table : Table)

theorem unvalued_filterPanel (spec : Spec.Filter) :
    ((target.filterPanel spec).evaluate target today table).unvalued = target.filterPanel spec := by
  unfold FilterPanel.evaluate
  split <;> rfl

theorem unvalued_tile (component : Spec.Component) :
    ((target.tile component).evaluate today table).unvalued = target.tile component := by
  cases component with
  | chart spec => rfl
  | kpi spec =>
      simp only [Target.tile, Tile.evaluate]
      split <;> rfl

theorem unvalued_row (i : Nat) (columns : List Spec.Column) :
    ((target.row i columns).mapTiles (Tile.evaluate today table)).mapTiles Tile.unvalued =
      target.row i columns := by
  simp [Target.row, Target.column, BoardRow.mapTiles, Function.comp_def, unvalued_tile]

end

theorem unvalued_boardOver (functions : Formula.FunctionTable) (today : Calendar.Date)
    (table : Table) (spec : Spec) :
    (boardOver functions today table spec).unvalued =
      Target.board ⟨functions, table.schema⟩ spec := by
  simp [Board.unvalued, boardOver, Target.board, Function.comp_def, unvalued_filterPanel,
    unvalued_row]

/-! ### One part of a board -/

section

variable (functions : Formula.FunctionTable) (today : Calendar.Date) (table : Table) (spec : Spec)

theorem getElem?_filters_boardOver (i : Nat) :
    (boardOver functions today table spec).filters[i]? = (spec.filters[i]?).map fun filter =>
      (Target.filterPanel ⟨functions, table.schema⟩ filter).evaluate ⟨functions, table.schema⟩ today
        table := by
  simp [boardOver, Target.board, Function.comp_def]

theorem bind_mapTiles_row (target : Target) (f : Tile → Tile) (place : Place)
    (columns : List Spec.Column) :
    (((target.row place.row columns).mapTiles f).columns[place.column]?).bind
        (·.content[place.index]?) =
      (columns[place.column]?).bind fun column =>
        (column.content[place.index]?).map fun component => f (target.tile component) := by
  cases hcolumn : columns[place.column]? with
  | none => simp [Target.row, BoardRow.mapTiles, hcolumn]
  | some column =>
      simp [Target.row, Target.column, BoardRow.mapTiles, Function.comp_def, hcolumn]

theorem tile?_boardOver (place : Place) :
    (boardOver functions today table spec).tile? place =
      (spec.component? place).map fun component =>
        (Target.tile ⟨functions, table.schema⟩ component).evaluate today table := by
  have hrow : (boardOver functions today table spec).rows[place.row]? =
      (spec.rows[place.row]?).map fun columns =>
        (Target.row ⟨functions, table.schema⟩ place.row columns).mapTiles
          (Tile.evaluate today table) := by
    simp [boardOver, Target.board, Function.comp_def]
  rw [Board.tile?, hrow, Spec.component?]
  cases spec.rows[place.row]? with
  | none => rfl
  | some columns =>
      rw [Option.map_some, Option.bind_some, bind_mapTiles_row, Option.bind_some, Option.map_bind]
      rfl

end

/-! ### Values -/

theorem toOption_eq_some_iff {ε α : Type} {result : Except ε α} {a : α} :
    result.toOption = some a ↔ result = .ok a := by
  cases result <;> simp [Except.toOption]

section

variable (target : Target) (today : Calendar.Date) (table : Table)

theorem spec_evaluate (panel : FilterPanel) :
    (panel.evaluate target today table).spec = panel.spec := by
  unfold FilterPanel.evaluate
  split <;> rfl

/-- A filter has the values of its formula, if that can be evaluated. -/
theorem values_evaluate (filter : Spec.Filter) :
    ((target.filterPanel filter).evaluate target today table).values =
      ((evaluate today table (target.columnScript filter.valuesFormula)).toOption).map
        (·.items.map Script.Value.toCell) := by
  have hspec : (target.filterPanel filter).spec = filter := rfl
  rw [FilterPanel.evaluate, hspec]
  cases evaluate today table (target.columnScript filter.valuesFormula) with
  | error e => rfl
  | ok v => cases v <;> rfl

/-- A tile shows the figure of its formula, if that can be evaluated. -/
theorem evaluate_tile_kpi (kpi : Spec.Kpi) :
    (target.tile (.kpi kpi)).evaluate today table = .kpi { target.kpiTile kpi with
      display := ((evaluate today table (target.columnScript kpi.valueFormula)).map
        (Format.kpi · kpi.format)).toOption } := by
  have hscript : (target.kpiTile kpi).valueScript = target.columnScript kpi.valueFormula := rfl
  rw [Target.tile, Tile.evaluate, hscript]
  cases evaluate today table (target.columnScript kpi.valueFormula) with
  | error e => rfl
  | ok v => rfl

end

section

variable {today : Calendar.Date} {table : Table} {spec : Spec}

theorem exists_kpi_boardOver {place : Place} {kpi : Spec.Kpi}
    (h : spec.component? place = some (.kpi kpi)) :
    ∃ tile, (boardOver .standard today table spec).tile? place = some (.kpi tile) ∧
      tile.spec = kpi ∧ ∀ shown, tile.display = some shown ↔
        figure today table kpi.valueFormula kpi.format = .ok shown := by
  rw [tile?_boardOver, h, Option.map_some, evaluate_tile_kpi]
  refine ⟨_, rfl, rfl, fun shown => ?_⟩
  rw [toOption_eq_some_iff, Target.columnScript, figure]

theorem exists_filter_boardOver {i : Nat} {filter : Spec.Filter}
    (h : spec.filters[i]? = some filter) :
    ∃ panel, (boardOver .standard today table spec).filters[i]? = some panel ∧
      panel.spec = filter ∧ ∀ cells, panel.values = some cells ↔
        ∃ v, evaluate today table
          (Formula.columnScript .standard table.schema filter.valuesFormula) = .ok v ∧
            v.items.map Script.Value.toCell = cells := by
  rw [getElem?_filters_boardOver, h, Option.map_some]
  refine ⟨_, rfl, spec_evaluate _ _ _ _, fun cells => ?_⟩
  rw [values_evaluate, Option.map_eq_some_iff, Target.columnScript]
  simp only [toOption_eq_some_iff]

end

/-- Every part of a board is made on its own. Without its values the board is the one made from the
columns alone; each tile of a key figure shows the figure that is computed for it alone, and each
filter has the values of its own formula, or none where these fail; and another component or filter
in one place changes nothing in all others. -/
theorem boardOver_isolated (today : Calendar.Date) (table : Table) (spec : Spec) :
    let board := boardOver .standard today table spec
    board.unvalued = Target.board ⟨.standard, table.schema⟩ spec ∧
    (∀ place kpi, spec.component? place = some (.kpi kpi) →
      ∃ tile, board.tile? place = some (.kpi tile) ∧ tile.spec = kpi ∧
        ∀ shown, tile.display = some shown ↔
          figure today table kpi.valueFormula kpi.format = .ok shown) ∧
    (∀ (i : Nat) (filter : Spec.Filter), spec.filters[i]? = some filter →
      ∃ panel, board.filters[i]? = some panel ∧ panel.spec = filter ∧
        ∀ cells, panel.values = some cells ↔
          ∃ v, evaluate today table
            (Formula.columnScript .standard table.schema filter.valuesFormula) = .ok v ∧
              v.items.map Script.Value.toCell = cells) ∧
    (∀ place component,
      let changed := boardOver .standard today table (spec.setComponent place component)
      changed.filters = board.filters ∧ ∀ other ≠ place, changed.tile? other = board.tile? other) ∧
    ∀ i filter,
      let changed := boardOver .standard today table (spec.setFilter i filter)
      changed.rows = board.rows ∧ ∀ j ≠ i, changed.filters[j]? = board.filters[j]? := by
  intro board
  refine ⟨unvalued_boardOver .standard today table spec, fun _ _ => exists_kpi_boardOver,
    fun _ _ => exists_filter_boardOver, fun place component => ⟨rfl, fun other hother => ?_⟩,
    fun i filter => ⟨rfl, fun j hj => ?_⟩⟩
  · rw [tile?_boardOver, tile?_boardOver, Spec.component?_setComponent_of_ne spec hother]
  · rw [getElem?_filters_boardOver, getElem?_filters_boardOver, Spec.setFilter,
      List.getElem?_set_ne hj.symm]

/-- A key figure and a filter next to a component that is replaced by one without a formula. -/
theorem boardOver_isolated_sales :
    let t : Table := ⟨⟨["sales"]⟩, [[.number 1234, .text "n/a"]], 2⟩
    let today : Calendar.Date := ⟨2024, 3, 15⟩
    let first : Spec.Kpi := { name := "First", valueFormula := "=A2", format := "currency" }
    let broken : Spec.Kpi := { name := "Broken", valueFormula := "=" }
    let sales : Spec.Filter := { name := "Sales", valuesFormula := "=A3" }
    let chart : Spec.Chart := { kind := "bar", name := "Sales", conditions := ["A2:A > 3"] }
    let spec : Spec := { filters := [sales], rows := [[{ content := [.chart chart, .kpi first] }]] }
    let changed := spec.setComponent ⟨0, 0, 0⟩ (.kpi broken)
    (∃ tile, (boardOver .standard today t changed).tile? ⟨0, 0, 1⟩ = some (.kpi tile) ∧
        tile.spec = first ∧ tile.display = some "$1,234") ∧
      (∃ tile, (boardOver .standard today t changed).tile? ⟨0, 0, 0⟩ = some (.kpi tile) ∧
        tile.spec = broken ∧ tile.display = none) ∧
      ∃ panel, (boardOver .standard today t changed).filters[0]? = some panel ∧
        panel.spec = sales ∧ panel.values = some [.text "n/a"] := by
  intro t today first broken sales chart spec changed
  have ha : Script.ColumnOf t ⟨['A'], by decide, by decide⟩ "sales" [.number 1234, .text "n/a"] :=
    ⟨by decide +kernel, by decide +kernel, rfl⟩
  have hrows : (2 ≤ 2 ∧ 2 < Number.halfWord) ∧ 2 ≤ 3 ∧ 3 < Number.halfWord := by decide
  have hupper := ha.columnValue_cell today (by decide) hrows.1
  have hlower := ha.columnValue_cell today (by decide) hrows.2
  have hfigure : figure today t "=A2" "currency" = .ok "$1,234" := by
    have hvalue : evaluate today t (Formula.columnScript .standard t.schema "=A2") =
        .ok (.number 1234) := hupper
    have hshown : Format.kpi (.number 1234) "currency" = "$1,234" := by decide +kernel
    rw [figure, hvalue]
    exact congrArg Except.ok hshown
  have hvalues : evaluate today t (Formula.columnScript .standard t.schema "=A3") =
      .ok (.text "n/a") := hlower
  have hfails : ∀ shown, figure today t "=" "number" ≠ .ok shown := by
    have hscript : Formula.columnScript .standard t.schema "=" = "" := by decide +kernel
    obtain ⟨e, hread⟩ : ∃ e, Script.read [] = .error e := ⟨_, by cbv⟩
    intro shown hshown
    rw [figure, hscript, evaluate, Script.run, String.toList_empty, hread] at hshown
    cases hshown
  obtain ⟨-, hkpis, -, hother, -⟩ := boardOver_isolated today t spec
  obtain ⟨-, hchanged, hfilters, -, -⟩ := boardOver_isolated today t changed
  refine ⟨?_, ?_, ?_⟩
  · obtain ⟨tile, htile, hspec, hdisplay⟩ := hkpis ⟨0, 0, 1⟩ first rfl
    rw [(hother ⟨0, 0, 0⟩ (.kpi broken)).2 ⟨0, 0, 1⟩ (by decide)]
    exact ⟨tile, htile, hspec, (hdisplay _).2 hfigure⟩
  · obtain ⟨tile, htile, hspec, hdisplay⟩ := hchanged ⟨0, 0, 0⟩ broken rfl
    refine ⟨tile, htile, hspec, Option.eq_none_iff_forall_ne_some.2 fun shown hshown => ?_⟩
    exact hfails shown ((hdisplay shown).1 hshown)
  · obtain ⟨panel, hpanel, hspec, hcells⟩ := hfilters 0 sales rfl
    exact ⟨panel, hpanel, hspec, (hcells _).2 ⟨_, hvalues, rfl⟩⟩

end SheetBoard.Dashboard
