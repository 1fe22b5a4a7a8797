import SheetBoard.Delimited.Records

/-! Delimited text reads back as the records it was written from, whatever the fields hold. -/

namespace SheetBoard.Delimited

variable {α : Type} [DecidableEq α]

/-- The delimiter and the quote can be told apart, and neither ends a line. -/
structure Dialect.Distinct (d : Dialect α) : Prop where
  delimiter_ne_quote : d.delimiter ≠ d.quote
  delimiter_inLine : d.endsLine d.delimiter = false
  quote_inLine : d.endsLine d.quote = false

/-- A symbol that ends an unquoted field. -/
def Dialect.endsField (d : Dialect α) (c : α) : Bool := c = d.delimiter || d.endsLine c

/-- A field with its quotes doubled. -/
def Dialect.doubled (d : Dialect α) (field : List α) : List α :=
  field.flatMap fun c => if c = d.quote then [c, c] else [c]

theorem Dialect.doubled_cons (d : Dialect α) (c : α) (field : List α) :
    d.doubled (c :: field) = (if c = d.quote then [c, c] else [c]) ++ d.doubled field := rfl

theorem Dialect.doubled_append (d : Dialect α) (xs ys : List α) :
    d.doubled (xs ++ ys) = d.doubled xs ++ d.doubled ys := List.flatMap_append

theorem Dialect.doubled_eq_self {d : Dialect α} {field : List α} (h : d.quote ∉ field) :
    d.doubled field = field := by
  induction field with
  | nil => rfl
  | cons c field ih =>
      simp only [List.mem_cons, not_or] at h
      rw [d.doubled_cons, if_neg (Ne.symm h.1), ih h.2]
      rfl

theorem Dialect.writeField_eq (d : Dialect α) (field : List α) :
    d.writeField field =
      if d.needsQuotes field then d.quote :: (d.doubled field ++ [d.quote]) else field := rfl

theorem Dialect.writeRecord_eq (d : Dialect α) (record : List (List α)) :
    d.writeRecord record =
      if (List.intercalate [d.delimiter] (record.map d.writeField)).isEmpty then [d.quote, d.quote]
      else List.intercalate [d.delimiter] (record.map d.writeField) := rfl

theorem Dialect.needsQuotes_append (d : Dialect α) (xs ys : List α) :
    d.needsQuotes (xs ++ ys) = (d.needsQuotes xs || d.needsQuotes ys) := List.any_append

theorem Dialect.needsQuotes_cons (d : Dialect α) (c : α) (field : List α) :
    d.needsQuotes (c :: field) = false ↔
      c ≠ d.quote ∧ d.endsField c = false ∧ d.needsQuotes field = false := by
  simp only [needsQuotes, endsField, List.any_cons, Bool.or_eq_false_iff, decide_eq_false_iff_not]
  grind

/-! ### One symbol -/

/-- Two places at which the next symbol does the same lead to the same records. -/
theorem recordsFrom_congr {d : Dialect α} {c : α} {place place' : Place}
    (h : d.action place c = d.action place' c) (field : List α) (fields : List (List α))
    (rest : List α) :
    recordsFrom d place field fields (c :: rest) =
      recordsFrom d place' field fields (c :: rest) := by
  rw [recordsFrom, recordsFrom, h]

section

variable {d : Dialect α} {c : α}

theorem ne_quote_of_endsField (hd : d.Distinct) (h : d.endsField c = true) : c ≠ d.quote := by
  rintro rfl
  simp [Dialect.endsField, hd.quote_inLine, hd.delimiter_ne_quote.symm] at h

/-- A field that is complete may be as good as empty, unquoted or closed by a quote. -/
theorem action_of_endsField (hd : d.Distinct) (h : d.endsField c = true) :
    d.action .fieldStart c = d.action .unquoted c ∧
      d.action .afterQuote c = d.action .unquoted c := by
  have hc := ne_quote_of_endsField hd h
  simp [Dialect.action, Dialect.startAction, hc]

theorem action_of_plain (hquote : c ≠ d.quote) (h : d.endsField c = false) :
    d.action .fieldStart c = .push .unquoted ∧ d.action .unquoted c = .push .unquoted := by
  simp only [Dialect.endsField, Bool.or_eq_false_iff, decide_eq_false_iff_not] at h
  simp [Dialect.action, Dialect.startAction, Dialect.plainAction, hquote, h]

end

/-! ### One field -/

section

variable {d : Dialect α}

theorem recordsFrom_unquoted {text : List α} (h : d.needsQuotes text = false)
    (field : List α) (fields : List (List α)) (rest : List α) :
    recordsFrom d .unquoted field fields (text ++ rest) =
      recordsFrom d .unquoted (text.reverse ++ field) fields rest := by
  induction text generalizing field with
  | nil => rfl
  | cons c text ih =>
      obtain ⟨hquote, hend, htext⟩ := (d.needsQuotes_cons c text).1 h
      rw [List.cons_append, recordsFrom, (action_of_plain hquote hend).2]
      simp [ih htext]

theorem recordsFrom_doubled (text field : List α) (fields : List (List α)) (rest : List α) :
    recordsFrom d .quoted field fields (d.doubled text ++ rest) =
      recordsFrom d .quoted (text.reverse ++ field) fields rest := by
  induction text generalizing field with
  | nil => rfl
  | cons c text ih =>
      rw [d.doubled_cons, List.reverse_cons, List.append_assoc, List.append_assoc,
        List.singleton_append, ← ih]
      by_cases hc : c = d.quote
      · simp [hc, recordsFrom, Dialect.action]
      · simp [hc, recordsFrom, Dialect.action]

/-- Before a symbol that ends it, a written field has been read as what it was. -/
theorem recordsFrom_writeField (hd : d.Distinct) (text : List α) (fields : List (List α)) {c : α}
    (hc : d.endsField c = true) (rest : List α) :
    recordsFrom d .fieldStart [] fields (d.writeField text ++ c :: rest) =
      recordsFrom d .unquoted text.reverse fields (c :: rest) := by
  rw [d.writeField_eq]
  by_cases hquotes : d.needsQuotes text = true
  · rw [if_pos hquotes, List.cons_append, List.append_assoc, recordsFrom]
    have hopen : d.action .fieldStart d.quote = .move .quoted := by
      simp [Dialect.action, Dialect.startAction]
    have hclose : d.action .quoted d.quote = .move .afterQuote := by simp [Dialect.action]
    rw [hopen]
    simp only [recordsFrom_doubled]
    rw [List.singleton_append, recordsFrom, hclose]
    simpa using recordsFrom_congr (action_of_endsField hd hc).2 text.reverse fields rest
  · rw [if_neg hquotes]
    cases text with
    | nil => exact recordsFrom_congr (action_of_endsField hd hc).1 [] fields rest
    | cons first text =>
        obtain ⟨hquote, hend, htext⟩ :=
          (d.needsQuotes_cons first text).1 (Bool.not_eq_true _ ▸ hquotes)
        rw [List.cons_append, recordsFrom, (action_of_plain hquote hend).1]
        simp [recordsFrom_unquoted htext]

/-! ### One record -/

theorem recordsFrom_intercalate (hd : d.Distinct) {c : α} (hc : d.endsLine c = true)
    (rest text : List α) (texts fields : List (List α)) :
    recordsFrom d .fieldStart [] fields
        (List.intercalate [d.delimiter] ((text :: texts).map d.writeField) ++ c :: rest) =
      (fields.reverse ++ text :: texts) :: recordsFrom d .recordStart [] [] rest := by
  have hend : d.endsField c = true := by simp [Dialect.endsField, hc]
  have hcomma : d.endsField d.delimiter = true := by simp [Dialect.endsField]
  induction texts generalizing text fields with
  | nil =>
      have hne : c ≠ d.delimiter := by
        rintro rfl
        simp [hd.delimiter_inLine] at hc
      have haction : d.action .unquoted c = .endRecord := by
        simp [Dialect.action, Dialect.plainAction, hne, hc]
      simp [recordsFrom_writeField hd text fields hend, recordsFrom, haction]
  | cons next texts ih =>
      have haction : d.action .unquoted d.delimiter = .endField := by
        simp [Dialect.action, Dialect.plainAction]
      rw [List.map_cons, List.map_cons, List.intercalate_cons_cons, ← List.map_cons,
        List.append_assoc, List.append_assoc, List.singleton_append,
        recordsFrom_writeField hd text fields hcomma, recordsFrom, haction]
      simpa using ih next (text :: fields)

/-- A written field begins as it is, or with a quote. -/
theorem head?_writeField {text : List α} {c : α} (h : (d.writeField text).head? = some c) :
    c = d.quote ∨ d.needsQuotes text = false ∧ text.head? = some c := by
  rw [d.writeField_eq] at h
  by_cases hquotes : d.needsQuotes text = true
  · left
    simpa [hquotes, eq_comm] using h
  · right
    simpa [hquotes] using h

/-- A written record begins with a symbol of the dialect, or as its first field does. -/
theorem head?_writeRecord {text : List α} {texts : List (List α)} {c : α}
    (h : (d.writeRecord (text :: texts)).head? = some c) :
    c = d.delimiter ∨ c = d.quote ∨ d.needsQuotes text = false ∧ text.head? = some c := by
  rw [d.writeRecord_eq] at h
  cases hfield : d.writeField text with
  | cons first rest =>
      right
      apply head?_writeField
      cases texts with
      | nil => simpa [hfield] using h
      | cons next texts => simpa [hfield, List.intercalate_cons_cons] using h
  | nil =>
      cases texts with
      | nil =>
          right; left
          simpa [hfield, eq_comm] using h
      | cons next texts =>
          left
          simpa [hfield, List.intercalate_cons_cons, eq_comm] using h

theorem writeRecord_ne_nil (d : Dialect α) (record : List (List α)) :
    d.writeRecord record ≠ [] := by
  rw [d.writeRecord_eq]
  split
  · simp
  · exact mt List.isEmpty_iff.2 ‹_›

/-- No written record begins with the end of a line, so that none is passed over. -/
theorem endsLine_head_writeRecord (hd : d.Distinct) {text : List α} {texts : List (List α)} {c : α}
    (h : (d.writeRecord (text :: texts)).head? = some c) : d.endsLine c = false := by
  rcases head?_writeRecord h with rfl | rfl | ⟨hquotes, hhead⟩
  · exact hd.delimiter_inLine
  · exact hd.quote_inLine
  · cases text with
    | nil => simp at hhead
    | cons first text =>
        obtain rfl : first = c := by simpa using hhead
        have hend := ((d.needsQuotes_cons first text).1 hquotes).2.1
        simp only [Dialect.endsField, Bool.or_eq_false_iff] at hend
        exact hend.2

theorem recordsFrom_writeRecord (hd : d.Distinct) {record : List (List α)} (hrecord : record ≠ [])
    {c : α} (hc : d.endsLine c = true) (rest : List α) :
    records d (d.writeRecord record ++ c :: rest) = record :: records d rest := by
  obtain ⟨text, texts, rfl⟩ := List.exists_cons_of_ne_nil hrecord
  have hread := recordsFrom_intercalate hd hc rest text texts []
  have hfields : recordsFrom d .fieldStart [] [] (d.writeRecord (text :: texts) ++ c :: rest) =
      (text :: texts) :: records d rest := by
    rw [d.writeRecord_eq]
    split
    · -- The pair of quotes reads as the empty text would within a record.
      rename_i hempty
      rw [List.isEmpty_iff.1 hempty] at hread
      have hend : d.endsField c = true := by simp [Dialect.endsField, hc]
      have hplaces := action_of_endsField hd hend
      have hclosed := recordsFrom_congr (hplaces.2.trans hplaces.1.symm) [] [] rest
      simpa [recordsFrom, Dialect.action, Dialect.startAction, records] using hclosed.trans hread
    · exact hread
  obtain ⟨first, tail, hfirst⟩ := List.exists_cons_of_ne_nil (writeRecord_ne_nil d (text :: texts))
  have hline : d.endsLine first = false := endsLine_head_writeRecord hd (by rw [hfirst]; rfl)
  rw [← hfields, hfirst, List.cons_append]
  exact recordsFrom_congr (by simp [Dialect.action, hline]) [] [] _

/-! ### All records -/

/-- What ends a line: at least one symbol, each of which ends a line. -/
theorem records_lineEnd {ends : List α} (h : ends.all d.endsLine = true) (rest : List α) :
    records d (ends ++ rest) = records d rest := by
  induction ends with
  | nil => rfl
  | cons c ends ih =>
      simp only [List.all_cons, Bool.and_eq_true] at h
      have hskip : d.action .recordStart c = .skip := by simp [Dialect.action, h.1]
      rw [List.cons_append, records, recordsFrom, hskip]
      exact ih h.2

/-- Records written on lines of their own read back as they were. -/
theorem records_flatMap_writeRecord (hd : d.Distinct) {ends : List α} (hends : ends ≠ [])
    (hline : ends.all d.endsLine = true) {written : List (List (List α))}
    (hwritten : ∀ record ∈ written, record ≠ []) :
    records d (written.flatMap fun record => d.writeRecord record ++ ends) = written := by
  induction written with
  | nil => rfl
  | cons record written ih =>
      obtain ⟨c, ends, rfl⟩ := List.exists_cons_of_ne_nil hends
      have hall := hline
      simp only [List.all_cons, Bool.and_eq_true] at hall
      rw [List.flatMap_cons, List.append_assoc, List.cons_append,
        recordsFrom_writeRecord hd (hwritten record (by simp)) hall.1, records_lineEnd hall.2,
        ih fun record hrecord => hwritten record (by simp [hrecord])]

end

/-! ### Records in another alphabet -/

/-- Symbols are written as words of another alphabet in which the dialect keeps its symbols: the
other words do not have them. -/
structure Dialect.Encodes {β : Type} [DecidableEq β] (d : Dialect α) (e : Dialect β)
    (encode : α → List β) : Prop where
  ne_nil : ∀ c, encode c ≠ []
  delimiter : encode d.delimiter = [e.delimiter]
  quote : encode d.quote = [e.quote]
  quote_mem : ∀ c, e.quote ∈ encode c → c = d.quote
  needsQuotes : ∀ c, e.needsQuotes (encode c) = d.needsQuotes [c]

namespace Dialect.Encodes

variable {β : Type} [DecidableEq β] {d : Dialect α} {e : Dialect β} {encode : α → List β}
  (h : d.Encodes e encode)
include h

theorem needsQuotes_flatMap (field : List α) :
    e.needsQuotes (field.flatMap encode) = d.needsQuotes field := by
  induction field with
  | nil => rfl
  | cons c field ih =>
      rw [List.flatMap_cons, e.needsQuotes_append, h.needsQuotes, ih, ← d.needsQuotes_append,
        List.singleton_append]

theorem doubled_flatMap (field : List α) :
    e.doubled (field.flatMap encode) = (d.doubled field).flatMap encode := by
  induction field with
  | nil => rfl
  | cons c field ih =>
      rw [List.flatMap_cons, e.doubled_append, ih, d.doubled_cons, List.flatMap_append]
      by_cases hc : c = d.quote
      · simp [hc, Dialect.doubled, h.quote]
      · have hword : e.quote ∉ encode c := fun hmem => hc (h.quote_mem c hmem)
        simp [hc, Dialect.doubled_eq_self hword]

theorem writeField_flatMap (field : List α) :
    e.writeField (field.flatMap encode) = (d.writeField field).flatMap encode := by
  rw [e.writeField_eq, d.writeField_eq, h.needsQuotes_flatMap, h.doubled_flatMap]
  split
  · simp [h.quote]
  · rfl

theorem intercalate_flatMap (texts : List (List α)) :
    List.intercalate [e.delimiter] (texts.map (·.flatMap encode)) =
      (List.intercalate [d.delimiter] texts).flatMap encode := by
  match texts with
  | [] => rfl
  | [text] => simp
  | text :: next :: texts =>
      have ih := intercalate_flatMap (next :: texts)
      rw [List.map_cons] at ih
      rw [List.map_cons, List.map_cons, List.intercalate_cons_cons, ih,
        List.intercalate_cons_cons]
      simp [h.delimiter]

/-- A record is written in the other alphabet as it is written in this one. -/
theorem writeRecord_flatMap (record : List (List α)) :
    e.writeRecord (record.map (·.flatMap encode)) = (d.writeRecord record).flatMap encode := by
  have hfields : (record.map (·.flatMap encode)).map e.writeField =
      (record.map d.writeField).map (·.flatMap encode) := by
    simp [h.writeField_flatMap]
  have hempty : ∀ text : List α, (text.flatMap encode).isEmpty = text.isEmpty := by
    intro text
    cases text with
    | nil => rfl
    | cons c text => simp [h.ne_nil c]
  rw [e.writeRecord_eq, d.writeRecord_eq, hfields, h.intercalate_flatMap, hempty]
  split
  · simp [h.quote]
  · rfl

end Dialect.Encodes

end SheetBoard.Delimited
