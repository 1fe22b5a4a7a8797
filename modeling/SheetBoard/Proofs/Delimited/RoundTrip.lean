import SheetBoard.Delimited.Table
import SheetBoard.Proofs.Delimited.Records
import SheetBoard.Proofs.Table.Changes

/-! Reading undoes writing: a table that was written as delimited text reads back with each cell as
its text reads, from the characters and from the bytes. -/

namespace SheetBoard.Delimited

/-! ### Characters as bytes -/

theorem utf8EncodeChar_ascii {c : Char} (h : c.toNat < 128) :
    String.utf8EncodeChar c = [c.toNat.toUInt8] := by
  have hle : c.val.toNat ≤ 0x7f := Nat.le_of_lt_succ h
  simp only [String.utf8EncodeChar, hle, if_true]
  rfl

/-- The bytes of the other characters are out of the range of ASCII. -/
theorem le_of_mem_utf8EncodeChar {c : Char} (h : 128 ≤ c.toNat) {b : UInt8}
    (hb : b ∈ String.utf8EncodeChar c) : 128 ≤ b.toNat := by
  have hlong : ¬ c.val.toNat ≤ 0x7f := Nat.not_le_of_lt h
  have hbyte : ∀ n m : Nat, 128 ≤ m → n + m < 256 → 128 ≤ (UInt8.ofNat (n + m)).toNat := by
    intro n m hm hlt
    rw [UInt8.toNat_ofNat_of_lt' hlt]
    omega
  simp only [String.utf8EncodeChar, hlong, if_false] at hb
  split at hb
  · simp only [List.mem_cons, List.not_mem_nil, or_false] at hb
    rcases hb with rfl | rfl <;> exact hbyte _ _ (by decide) (by omega)
  · split at hb
    · simp only [List.mem_cons, List.not_mem_nil, or_false] at hb
      rcases hb with rfl | rfl | rfl <;> exact hbyte _ _ (by decide) (by omega)
    · simp only [List.mem_cons, List.not_mem_nil, or_false] at hb
      rcases hb with rfl | rfl | rfl | rfl <;> exact hbyte _ _ (by decide) (by omega)

/-- The byte of an ASCII character is found in no other character. -/
theorem mem_utf8EncodeChar_ascii {a c : Char} (ha : a.toNat < 128) :
    a.toNat.toUInt8 ∈ String.utf8EncodeChar c ↔ c = a := by
  have hcode : ∀ d : Char, d.toNat < 128 → d.toNat.toUInt8.toNat = d.toNat := by
    intro d hd
    exact UInt8.toNat_ofNat_of_lt' (Nat.lt_trans hd (by decide))
  constructor
  · intro hmem
    by_cases hc : c.toNat < 128
    · rw [utf8EncodeChar_ascii hc, List.mem_singleton] at hmem
      apply Char.toNat_inj.1
      rw [← hcode c hc, ← hcode a ha, hmem]
    · have hle := le_of_mem_utf8EncodeChar (Nat.le_of_not_lt hc) hmem
      rw [hcode a ha] at hle
      omega
  · rintro rfl
    rw [utf8EncodeChar_ascii ha]
    exact List.mem_singleton_self _

theorem toList_data_toUTF8 (text : String) :
    text.toUTF8.data.toList = text.toList.flatMap String.utf8EncodeChar := by
  have hbytes : text.toUTF8 = text.toList.utf8Encode := by
    rw [← String.toByteArray_ofList, String.ofList_toList]
    rfl
  rw [hbytes, List.utf8Encode]
  simp

theorem decodeField?_encode (text : List Char) :
    decodeField? (text.flatMap String.utf8EncodeChar) = some text := by
  have hbytes : (⟨(text.flatMap String.utf8EncodeChar).toArray⟩ : ByteArray) =
      (String.ofList text).toByteArray := by
    rw [String.toByteArray_ofList, List.utf8Encode]
    exact ByteArray.ext (by simp)
  rw [decodeField?, hbytes, String.fromUTF8?, dif_pos (String.ofList text).isValidUTF8]
  exact congrArg some String.toList_ofList

theorem dropMarkBytes_encode (text : List Char) :
    dropMarkBytes (text.flatMap String.utf8EncodeChar) =
      (dropMark text).flatMap String.utf8EncodeChar := by
  cases text with
  | nil => rfl
  | cons c text =>
      by_cases hc : c = '\uFEFF'
      · subst hc
        rfl
      · have hcode : c.toNat ≠ 0xFEFF := fun h => hc (Char.toNat_inj.1 h)
        rw [dropMark, if_neg hcode]
        unfold dropMarkBytes
        split
        · -- Bytes that begin like the mark decode to the mark first.
          rename_i rest hbytes
          have hmark : String.utf8EncodeChar '\uFEFF' = [0xEF, 0xBB, 0xBF] := by decide
          have hencoded : (c :: text).utf8Encode =
              (String.utf8EncodeChar '\uFEFF').toByteArray ++ rest.toByteArray := by
            rw [List.utf8Encode, hbytes, hmark, ← List.toByteArray_append]
            rfl
          have hfirst := List.utf8DecodeChar?_utf8Encode_cons (l := text) (c := c)
          rw [hencoded, ByteArray.utf8DecodeChar?_utf8EncodeChar_append] at hfirst
          exact absurd (Option.some.inj hfirst).symm hc
        · rfl

/-! ### The symbols of a dialect -/

/-- The delimiter and the quote are ASCII characters that can be told apart, within a line. -/
structure Marks (delimiter quote : Char) : Prop where
  distinct : delimiter ≠ quote
  ascii : ∀ c ∈ [delimiter, quote], c.toNat < 128
  inLine : ∀ c ∈ [delimiter, quote], c ≠ '\n' ∧ c ≠ '\r'

namespace Marks

variable {delimiter quote : Char} (h : Marks delimiter quote)
include h

theorem distinct_charDialect : (charDialect delimiter quote).Distinct := by
  have hline : ∀ c ∈ [delimiter, quote], (charDialect delimiter quote).endsLine c = false := by
    intro c hc
    rw [Dialect.endsLine, Bool.or_eq_false_iff]
    exact ⟨decide_eq_false (h.inLine c hc).1, decide_eq_false (h.inLine c hc).2⟩
  exact ⟨h.distinct, hline delimiter (by simp), hline quote (by simp)⟩

theorem encodes_utf8 :
    (charDialect delimiter quote).Encodes (byteDialect delimiter quote)
      String.utf8EncodeChar where
  ne_nil _ := String.utf8EncodeChar_ne_nil
  delimiter := utf8EncodeChar_ascii (h.ascii delimiter (by simp))
  quote := utf8EncodeChar_ascii (h.ascii quote (by simp))
  quote_mem c := (mem_utf8EncodeChar_ascii (h.ascii quote (by simp))).1
  needsQuotes c := by
    have hdelimiter := mem_utf8EncodeChar_ascii (c := c) (h.ascii delimiter (by simp))
    have hquote := mem_utf8EncodeChar_ascii (c := c) (h.ascii quote (by simp))
    have hfeed : (10 : UInt8) ∈ String.utf8EncodeChar c ↔ c = '\n' :=
      mem_utf8EncodeChar_ascii (a := '\n') (by decide)
    have hreturn : (13 : UInt8) ∈ String.utf8EncodeChar c ↔ c = '\r' :=
      mem_utf8EncodeChar_ascii (a := '\r') (by decide)
    rw [Bool.eq_iff_iff]
    simp only [Dialect.needsQuotes, Dialect.endsLine, List.any_eq_true, Bool.or_eq_true,
      decide_eq_true_eq, List.mem_singleton, exists_eq_left]
    simp only [byteDialect, charDialect]
    rw [← hdelimiter, ← hquote, ← hfeed, ← hreturn]
    grind

theorem distinct_byteDialect : (byteDialect delimiter quote).Distinct := by
  have hbyte : ∀ c ∈ [delimiter, quote], ∀ a : Char, a.toNat < 128 → c ≠ a →
      c.toNat.toUInt8 ≠ a.toNat.toUInt8 := by
    intro c hc a ha hne heq
    have hmem := (mem_utf8EncodeChar_ascii (h.ascii c hc)).2 rfl
    rw [heq] at hmem
    exact hne ((mem_utf8EncodeChar_ascii ha).1 hmem)
  have hline : ∀ c ∈ [delimiter, quote],
      (byteDialect delimiter quote).endsLine c.toNat.toUInt8 = false := by
    intro c hc
    rw [Dialect.endsLine, Bool.or_eq_false_iff]
    exact ⟨decide_eq_false (hbyte c hc '\n' (by decide) (h.inLine c hc).1),
      decide_eq_false (hbyte c hc '\r' (by decide) (h.inLine c hc).2)⟩
  exact ⟨hbyte delimiter (by simp) quote (h.ascii quote (by simp)) h.distinct,
    hline delimiter (by simp), hline quote (by simp)⟩

end Marks

/-! ### Written text -/

theorem mapM_map_eq_some {α β : Type} {read : β → Option α} {write : α → β}
    (h : ∀ a, read (write a) = some a) (xs : List α) : (xs.map write).mapM read = some xs := by
  induction xs with
  | nil => rfl
  | cons x xs ih =>
      rw [List.map_cons, List.mapM_cons, h, ih]
      rfl

/-- The symbols at the end of a line. -/
def lineEnd (carriageReturns : Bool) : List Char := if carriageReturns then ['\r', '\n'] else ['\n']

section

variable {delimiter quote : Char} (h : Marks delimiter quote) (carriageReturns : Bool)
include h

/-- No byte order mark comes in by the symbols of the dialect. -/
theorem dropMark_writeRecord {name : List Char} (hname : name.head? ≠ some '\uFEFF')
    (names : List (List Char)) (rest : List Char) :
    dropMark ((charDialect delimiter quote).writeRecord (name :: names) ++ rest) =
      (charDialect delimiter quote).writeRecord (name :: names) ++ rest := by
  have hascii : ∀ c ∈ [delimiter, quote], c.toNat ≠ 0xFEFF := by
    intro c hc hmark
    have hlt := h.ascii c hc
    omega
  obtain ⟨c, text, htext⟩ :=
    List.exists_cons_of_ne_nil (writeRecord_ne_nil (charDialect delimiter quote) (name :: names))
  have hc : c.toNat ≠ 0xFEFF := by
    rcases head?_writeRecord (by rw [htext]; rfl) with hc | hc | ⟨-, hhead⟩
    · exact hc ▸ hascii delimiter (by simp)
    · exact hc ▸ hascii quote (by simp)
    · intro hmark
      apply hname
      rw [hhead, Char.toNat_inj.1 (hmark.trans (by decide : 0xFEFF = '\uFEFF'.toNat))]
  rw [htext, List.cons_append, dropMark, if_neg hc]

variable {written : List (List (List Char))} (hwritten : ∀ record ∈ written, record ≠ [])
include hwritten

theorem records_lines :
    records (charDialect delimiter quote) (written.flatMap fun record =>
      (charDialect delimiter quote).writeRecord record ++ lineEnd carriageReturns) = written := by
  apply records_flatMap_writeRecord h.distinct_charDialect _ _ hwritten
  · cases carriageReturns <;> simp [lineEnd]
  · cases carriageReturns <;> rfl

/-- The bytes of the lines are the lines of the bytes, and each field is text again. -/
theorem mapM_records_lines :
    (records (byteDialect delimiter quote) ((written.flatMap fun record =>
      (charDialect delimiter quote).writeRecord record ++ lineEnd carriageReturns).flatMap
        String.utf8EncodeChar)).mapM (fun record => record.mapM decodeField?) = some written := by
  have hlines : (written.flatMap fun record =>
      (charDialect delimiter quote).writeRecord record ++ lineEnd carriageReturns).flatMap
        String.utf8EncodeChar =
      (written.map fun record => record.map (·.flatMap String.utf8EncodeChar)).flatMap
        fun record => (byteDialect delimiter quote).writeRecord record ++
          (lineEnd carriageReturns).flatMap String.utf8EncodeChar := by
    simp [List.flatMap_assoc, List.flatMap_map, h.encodes_utf8.writeRecord_flatMap]
  rw [hlines, records_flatMap_writeRecord h.distinct_byteDialect]
  · exact mapM_map_eq_some (mapM_map_eq_some decodeField?_encode) written
  · cases carriageReturns <;> simp [lineEnd, utf8EncodeChar_ascii]
  · cases carriageReturns <;> rfl
  · simpa using hwritten

end

/-! ### Tables -/

/-- The cell that a text is read as. -/
def convert (detect : Bool) (text : String) : Cell :=
  if detect then .detect text.toList else if text = "" then .empty else .text text

/-- There are names, none with blanks at its ends, and the first does not begin with a byte order
mark. -/
structure Readable (names : List String) : Prop where
  ne_nil : names ≠ []
  starts : ∀ name ∈ names, name.toList.head?.any Text.isBlank = false
  ends : ∀ name ∈ names, name.toList.getLast?.any Text.isBlank = false
  unmarked : names.head?.bind (·.toList.head?) ≠ some '\uFEFF'

theorem cell_eq_convert (options : ReadOptions) (text : String) :
    options.cell text.toList = convert options.detectTypes text := by
  simp [ReadOptions.cell, convert]

section

variable {t : Table} (ht : t.Sound) (hnames : Readable t.schema.names)
include ht hnames

theorem ne_nil_of_mem_recordsOfTable (options : WriteOptions) :
    ∀ record ∈ recordsOfTable options t, record ≠ [] := by
  have hsize : 0 < t.schema.size := List.length_pos_of_ne_nil hnames.ne_nil
  have hheader : t.schema.names.map String.toList ≠ [] := by simpa using hnames.ne_nil
  have hrows : ∀ record ∈ t.rows.map fun row => row.cells.map fun cell => cell.display.toList,
      record ≠ [] := by
    intro record hrecord
    obtain ⟨row, hrow, rfl⟩ := List.mem_map.1 hrecord
    have hfields : row.cells ∈ t.grid.rows := List.mem_map_of_mem hrow
    have hlength := Table.length_of_mem_rows_grid ht.toWellFormed _ hfields
    apply List.ne_nil_of_length_pos
    rwa [List.length_map, hlength]
  intro record hrecord
  unfold recordsOfTable at hrecord
  split at hrecord
  · rcases List.mem_cons.1 hrecord with rfl | hrecord
    · exact hheader
    · exact hrows record hrecord
  · exact hrows record hrecord

/-- The records of a table are read as its names and its cells. -/
theorem tableOfRecords_recordsOfTable {options : WriteOptions} (hwrite : options.writeHeader = true)
    {readOptions : ReadOptions} (hread : readOptions.hasHeader = true) :
    tableOfRecords readOptions (recordsOfTable options t) =
      .ok (t.mapCells fun cell => convert readOptions.detectTypes cell.display) := by
  have htrim : (t.schema.names.map String.toList).map (fun name => String.ofList (Text.trim name)) =
      t.schema.names := by
    rw [List.map_map]
    conv_rhs => rw [← List.map_id t.schema.names]
    apply List.map_congr_left
    intro name hname
    rw [Function.comp_apply, Text.trim_eq_self (hnames.starts name hname) (hnames.ends name hname),
      String.ofList_toList]
    rfl
  rw [recordsOfTable, if_pos hwrite, tableOfRecords, if_pos hread]
  simp only [htrim]
  rw [← Table.ofRows_map_cells ht.toWellFormed ht.distinct]
  simp [cell_eq_convert, Function.comp_def]

omit ht in
theorem dropMark_writeText {options : WriteOptions} (hwrite : options.writeHeader = true)
    (h : Marks options.delimiter options.quote) :
    dropMark (writeText options t).toList = (writeText options t).toList := by
  obtain ⟨name, names, hcons⟩ := List.exists_cons_of_ne_nil hnames.ne_nil
  have hname : name.toList.head? ≠ some '\uFEFF' := by simpa [hcons] using hnames.unmarked
  rw [writeText, String.toList_ofList, recordsOfTable, if_pos hwrite, hcons, List.map_cons,
    List.flatMap_cons, List.append_assoc]
  exact dropMark_writeRecord h hname _ _

end

/-- Each cell of a written table is read as its text is. -/
theorem read_saved_cells {t : Table} (ht : t.Sound) (hnames : Readable t.schema.names)
    {delimiter quote : Char} (h : Marks delimiter quote) (carriageReturns detectTypes : Bool) :
    let text := writeText { delimiter, quote, writeHeader := true, carriageReturns } t
    let options : ReadOptions := { delimiter, quote, hasHeader := true, detectTypes }
    let read := t.mapCells fun cell => convert detectTypes cell.display
    readText options text = .ok read ∧ readBytes options text.toUTF8.data.toList = .ok read := by
  intro text
  have htext : text.toList = (recordsOfTable
      { delimiter, quote, writeHeader := true, carriageReturns } t).flatMap fun record =>
        (charDialect delimiter quote).writeRecord record ++ lineEnd carriageReturns :=
    String.toList_ofList
  have hmark : dropMark text.toList = text.toList := dropMark_writeText hnames rfl h
  have hwritten := ne_nil_of_mem_recordsOfTable ht hnames
    { delimiter, quote, writeHeader := true, carriageReturns }
  constructor
  · rw [readText, hmark, htext, records_lines h carriageReturns hwritten]
    exact tableOfRecords_recordsOfTable ht hnames rfl rfl
  · rw [readBytes, toList_data_toUTF8, dropMarkBytes_encode, hmark, htext,
      mapM_records_lines h carriageReturns hwritten]
    exact tableOfRecords_recordsOfTable ht hnames rfl rfl

/-- Reading undoes writing, up to the cells that the texts of the cells are read as. Texts and
missing cells come back as they were. -/
theorem read_writeText {t : Table} (ht : t.Sound) (hnames : Readable t.schema.names)
    {delimiter quote : Char} (h : Marks delimiter quote) (carriageReturns : Bool) :
    let text := writeText { delimiter, quote, writeHeader := true, carriageReturns } t
    (∀ detectTypes,
      let options : ReadOptions := { delimiter, quote, hasHeader := true, detectTypes }
      let read := t.mapCells fun cell => convert detectTypes cell.display
      readText options text = .ok read ∧ readBytes options text.toUTF8.data.toList = .ok read) ∧
    ((∀ column ∈ t.columns, ∀ cell ∈ column, cell = .empty ∨ ∃ s, s ≠ "" ∧ cell = .text s) →
      readText { delimiter, quote, hasHeader := true, detectTypes := false } text = .ok t) := by
  intro text
  refine ⟨read_saved_cells ht hnames h carriageReturns, fun hcells => ?_⟩
  rw [(read_saved_cells ht hnames h carriageReturns false).1, Table.mapCells_eq_self]
  intro column hcolumn cell hcell
  rcases hcells column hcolumn cell hcell with rfl | ⟨s, hs, rfl⟩
  · rfl
  · simp [convert, Cell.display, hs]

/-- One column, whose missing cells are lines of their own, with every symbol of the dialect in the
fields. -/
theorem read_writeText_notes :
    let notes : Table := ⟨⟨["it's; \"odd\""]⟩,
      [[.empty, .text "a\r\nb", .text "''", .text " ; ", .empty]], 5⟩
    writeText ⟨';', '\'', true, true⟩ notes =
      "'it''s; \"odd\"'\r\n''\r\n'a\r\nb'\r\n''''''\r\n' ; '\r\n''\r\n" ∧
    readText ⟨';', '\'', true, false⟩ (writeText ⟨';', '\'', true, true⟩ notes) = .ok notes := by
  intro notes
  have hsound : notes.Sound :=
    { width := rfl, height := by decide, distinct := List.nodup_singleton _ }
  have hnames : Readable notes.schema.names := ⟨by decide, by decide, by decide, by decide⟩
  have hmarks : Marks ';' '\'' := ⟨by decide, by decide, by decide⟩
  refine ⟨by decide, (read_writeText hsound hnames hmarks true).2 ?_⟩
  intro column hcolumn cell hcell
  obtain rfl := List.mem_singleton.1 hcolumn
  simp only [List.mem_cons, List.not_mem_nil, or_false] at hcell
  rcases hcell with rfl | rfl | rfl | rfl | rfl
  · exact .inl rfl
  · exact .inr ⟨_, by decide, rfl⟩
  · exact .inr ⟨_, by decide, rfl⟩
  · exact .inr ⟨_, by decide, rfl⟩
  · exact .inl rfl

end SheetBoard.Delimited
