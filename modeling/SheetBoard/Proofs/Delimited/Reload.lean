import SheetBoard.Proofs.Condition.Printing
import SheetBoard.Proofs.Delimited.RoundTrip

/-! Saving a loaded table loses nothing. The names of a loaded table are read as they are, and every
cell that was detected in a field is detected again in its own text. -/

namespace SheetBoard

/-! ### Detected cells -/

namespace Cell

/-- The cells that fields are read as. A text among them is read as itself. -/
inductive Detected : Cell → Prop where
  | empty : Detected .empty
  | boolean (b : Bool) : Detected (.boolean b)
  | number {x : Float} (nan : x.isNaN = false) : Detected (.number x)
  | text {s : String} (own : detect s.toList = .text s) : Detected (.text s)

theorem detect_trim (field : List Char) : detect (Text.trim field) = detect field := by
  simp only [detect, Text.trim_trim]

theorem isNaN_of_detect {field : List Char} {x : Float} (h : detect field = .number x) :
    x.isNaN = false := by
  unfold detect at h
  grind

theorem trim_of_detect {field : List Char} {s : String} (h : detect field = .text s) :
    s.toList = Text.trim field := by
  have htext : s = .ofList (Text.trim field) := by
    unfold detect at h
    grind
  rw [htext, String.toList_ofList]

theorem detected_detect (field : List Char) : Detected (detect field) := by
  cases h : detect field with
  | empty => exact .empty
  | boolean b => exact .boolean b
  | number x => exact .number (isNaN_of_detect h)
  | text s => exact .text (by rw [trim_of_detect h, detect_trim, h])

section

variable {c : Cell} (h : c.Detected)
include h

/-- A detected cell is detected again in its text, but for the sign of a zero. -/
theorem Detected.detect_display : detect c.display.toList = c.plainZero := by
  cases h with
  | empty => rfl
  | boolean b => cases b <;> decide +kernel
  | number nan =>
      have hline := Condition.oneLine_printed (.number nan)
      exact Condition.detect_of_read? hline (Number.read?_display_of_isNaN nan).1
        (Number.isNaN_plainZero nan)
  | text own => exact own

theorem Detected.same_plainZero : c.plainZero.same c = true := by
  cases h with
  | empty => rfl
  | boolean b => cases b <;> rfl
  | number nan => exact Number.beq_plainZero nan
  | text own => exact beq_self_eq_true _

end

end Cell

/-! ### The cells of a table -/

namespace Table

section

variable {p : Cell → Prop} (hempty : p .empty)
include hempty

theorem forall_mem_extendColumns {columns : List (List Cell)} {row : List Cell}
    (hcolumns : ∀ column ∈ columns, ∀ c ∈ column, p c) (hrow : ∀ c ∈ row, p c) :
    ∀ column ∈ extendColumns columns row, ∀ c ∈ column, p c := by
  fun_induction extendColumns columns row with
  | case1 => exact List.forall_mem_nil _
  | case2 column columns ih =>
      obtain ⟨hfirst, hrest⟩ := List.forall_mem_cons.1 hcolumns
      refine List.forall_mem_cons.2 ⟨?_, ih hrest (List.forall_mem_nil p)⟩
      exact List.forall_mem_append.2 ⟨hfirst, by simpa using hempty⟩
  | case3 column columns value row ih =>
      obtain ⟨hfirst, hrest⟩ := List.forall_mem_cons.1 hcolumns
      obtain ⟨hvalue, hmore⟩ := List.forall_mem_cons.1 hrow
      refine List.forall_mem_cons.2 ⟨?_, ih hrest hmore⟩
      exact List.forall_mem_append.2 ⟨hfirst, by simpa using hvalue⟩

/-- The cells of a table come from its rows, or fill up a row that is too short. -/
theorem forall_mem_ofRows (headers : List String) {rows : List (List Cell)}
    (hrows : ∀ row ∈ rows, ∀ c ∈ row, p c) :
    ∀ column ∈ (ofRows headers rows).columns, ∀ c ∈ column, p c := by
  have hfold : ∀ t : Table, (∀ column ∈ t.columns, ∀ c ∈ column, p c) →
      ∀ column ∈ (rows.foldl addRow t).columns, ∀ c ∈ column, p c := by
    induction rows with
    | nil => exact fun t ht => ht
    | cons row rows ih =>
        obtain ⟨hrow, hmore⟩ := List.forall_mem_cons.1 hrows
        exact fun t ht => ih hmore _ (forall_mem_extendColumns hempty ht hrow)
  refine hfold _ fun column hcolumn => ?_
  rw [List.eq_of_mem_replicate hcolumn]
  nofun

end

theorem same_mapCells {t : Table} {f : Cell → Cell}
    (h : ∀ column ∈ t.columns, ∀ c ∈ column, (f c).same c = true) :
    (t.mapCells f).same t = true := by
  have hcolumn : ∀ column ∈ t.columns,
      ((column.map f).zip column).all (fun pair => pair.1.same pair.2) = true := by
    intro column hmem
    rw [List.zip, List.zipWith_map_left, List.zipWith_self, List.all_map, List.all_eq_true]
    exact h column hmem
  have hcolumns : (t.mapCells f).columns.zip t.columns =
      t.columns.map fun column => (column.map f, column) := by
    rw [mapCells, List.zip, List.zipWith_map_left, List.zipWith_self]
  unfold same
  rw [hcolumns, List.all_map]
  simpa [mapCells] using hcolumn

end Table

namespace Delimited

/-! ### Loaded tables -/

/-- Every record has a field. -/
theorem ne_nil_of_mem_recordsFrom {α : Type} [DecidableEq α] (d : Dialect α) (place : Place)
    (field : List α) (fields : List (List α)) (text : List α) :
    ∀ record ∈ recordsFrom d place field fields text, record ≠ [] := by
  induction text generalizing place field fields with
  | nil =>
      unfold recordsFrom
      split <;> simp
  | cons c text ih =>
      unfold recordsFrom
      split
      · exact ih _ _ _
      · exact ih _ _ _
      · exact ih _ _ _
      · exact ih _ _ _
      · exact List.forall_mem_cons.2 ⟨by simp, ih _ _ _⟩

/-- A table as it is read from records with a header: trimmed names, at least one of them, and cells
that were detected. -/
structure Loaded (t : Table) : Prop extends t.Sound where
  ne_nil : t.schema.names ≠ []
  trimmed : ∀ name ∈ t.schema.names, Text.trim name.toList = name.toList
  detected : ∀ column ∈ t.columns, ∀ c ∈ column, c.Detected

theorem loaded_of_tableOfRecords {records : List (List (List Char))}
    (hrecords : ∀ record ∈ records, record ≠ []) {t : Table}
    (h : tableOfRecords {} records = .ok t) : Loaded t := by
  cases records with
  | nil => cases h
  | cons header rows =>
      obtain rfl := Except.ok.inj h
      set headers := header.map fun name => String.ofList (Text.trim name) with hheaders
      have hlength : headers.length = header.length := by simp [hheaders]
      have htrim : ∀ name ∈ headers, Text.trim name.toList = name.toList := by
        simp [hheaders, Text.trim_trim]
      have hschema :=
        Table.schema_ofRows headers (rows.map fun row => row.map (ReadOptions.cell {}))
      refine ⟨⟨(Table.ofRows_spec _ _).1, ?_⟩, ?_, ?_, ?_⟩
      · rw [hschema]
        exact Schema.nodup_ofHeaders _
      · rw [hschema, ← List.length_pos_iff, ← Schema.size, Schema.size_ofHeaders, hlength]
        exact List.length_pos_of_ne_nil (hrecords header (by simp))
      · rw [hschema]
        exact Schema.forall_mem_ofHeaders htrim fun name hname n =>
          Schema.trim_alternative (htrim name hname) (n + 1)
      · refine Table.forall_mem_ofRows .empty _ ?_
        simp [ReadOptions.cell, Cell.detected_detect]

theorem Loaded.readable {t : Table} (h : Loaded t)
    (hmark : t.schema.names.head?.bind (·.toList.head?) ≠ some '\uFEFF') :
    Readable t.schema.names where
  ne_nil := h.ne_nil
  starts name hname := (Text.ends_of_trim (h.trimmed name hname)).1
  ends name hname := (Text.ends_of_trim (h.trimmed name hname)).2
  unmarked := hmark

theorem Loaded.mapCells_convert {t : Table} (h : Loaded t) :
    (t.mapCells fun c => convert true c.display) = t.mapCells Cell.plainZero := by
  have hcolumns : t.columns.map (·.map fun c => convert true c.display) =
      t.columns.map (·.map Cell.plainZero) :=
    List.map_congr_left fun column hcolumn => List.map_congr_left fun c hc =>
      (h.detected column hcolumn c hc).detect_display
  rw [Table.mapCells, Table.mapCells, hcolumns]

/-- A table that was loaded is the same after it is saved and loaded again. -/
theorem readText_saved {text : String} {t : Table} (h : readText {} text = .ok t)
    (hmark : t.schema.names.head?.bind (·.toList.head?) ≠ some '\uFEFF') :
    ∃ u, readText {} (writeText {} t) = .ok u ∧
      readBytes {} (writeText {} t).toUTF8.data.toList = .ok u ∧ u.same t = true := by
  have hloaded : Loaded t := loaded_of_tableOfRecords (ne_nil_of_mem_recordsFrom _ _ _ _ _) h
  have hmarks : Marks ',' '"' := ⟨by decide, by decide, by decide⟩
  obtain ⟨htext, hbytes⟩ :=
    read_saved_cells hloaded.toSound (hloaded.readable hmark) hmarks false true
  rw [hloaded.mapCells_convert] at htext hbytes
  refine ⟨_, htext, hbytes, Table.same_mapCells fun column hcolumn c hc => ?_⟩
  exact (hloaded.detected column hcolumn c hc).same_plainZero

/-- A header that is repeated up to blanks, a negative zero, a word for NaN, a number past all
floats, a field of two lines and a row that is too short. -/
theorem readText_saved_mixed :
    let text := "a, a ,\"x\"\"y\"\n-0,NaN, tRuE\n\"l1\nl2\",1e400\n"
    let t : Table := ⟨⟨["a", "a.1", "x\"y"]⟩,
      [[.number (-0), .text "l1\nl2"], [.text "NaN", .number (1 / 0)], [.boolean true, .empty]], 2⟩
    readText {} text = .ok t ∧ ∃ u, readText {} (writeText {} t) = .ok u ∧
      readBytes {} (writeText {} t).toUTF8.data.toList = .ok u ∧ u.same t = true := by
  intro text t
  have hread : readText {} text = .ok t := by decide +kernel
  exact ⟨hread, readText_saved hread (by decide)⟩

end Delimited

end SheetBoard
