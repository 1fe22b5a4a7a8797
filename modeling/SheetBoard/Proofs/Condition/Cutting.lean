import Mathlib.Data.Option.Basic
import SheetBoard.Condition

/-! How a condition is cut: into a column, a comparison and a value, at the first sign of a
comparison behind the column's first character. -/

namespace SheetBoard

namespace Text

variable {cs : List Char}

theorem length_trimEnd_le (cs : List Char) : (trimEnd cs).length ≤ cs.length := by
  have hreverse : (cs.reverse.dropWhile isBlank).length ≤ cs.reverse.length :=
    (List.dropWhile_sublist isBlank).length_le
  simpa [trimEnd, dropEndWhile] using hreverse

theorem trimStart_eq_self_of_trim (h : trim cs = cs) : trimStart cs = cs := by
  have hlength : cs.length ≤ (trimStart cs).length :=
    calc cs.length = (trim cs).length := by rw [h]
      _ ≤ (trimStart cs).length := length_trimEnd_le _
  exact (List.dropWhile_suffix isBlank).eq_of_length_le hlength

theorem any_head?_dropWhile_isBlank (cs : List Char) :
    (cs.dropWhile isBlank).head?.any isBlank = false := by
  have hnot := List.head?_dropWhile_not isBlank cs
  cases hhead : (cs.dropWhile isBlank).head? with
  | none => rfl
  | some c =>
      rw [hhead] at hnot
      exact hnot

/-- A trimmed text has no blank at its ends. -/
theorem ends_of_trim (h : trim cs = cs) :
    cs.head?.any isBlank = false ∧ cs.getLast?.any isBlank = false := by
  have hstart := trimStart_eq_self_of_trim h
  have hend : (cs.reverse.dropWhile isBlank).reverse = cs := by
    have htrim := h
    rwa [trim, hstart] at htrim
  constructor
  · rw [← hstart]
    exact any_head?_dropWhile_isBlank cs
  · rw [← hend, List.getLast?_reverse]
    exact any_head?_dropWhile_isBlank cs.reverse

theorem trimStart_cons {c : Char} (hc : isBlank c = true) (cs : List Char) :
    trimStart (c :: cs) = trimStart cs :=
  List.dropWhile_cons_of_pos hc

theorem trimStart_of_head? {c : Char} (hc : isBlank c = false) (cs : List Char) :
    trimStart (c :: cs) = c :: cs :=
  List.dropWhile_cons_of_neg (by simp [hc])

theorem trim_cons {c : Char} (hc : isBlank c = true) (cs : List Char) :
    trim (c :: cs) = trim cs := by
  rw [trim, trimStart_cons hc, trim]

end Text

namespace Condition

/-- Every comparison starts with one of these characters, or ends with the last of them behind an
exclamation mark. -/
def isSign (c : Char) : Bool := c = '<' || c = '>' || c = '='

/-- A column that is found again in front of a comparison: on one line, without blanks at its ends,
and without signs behind its first character. -/
structure Legible (column : List Char) : Prop where
  ne_nil : column ≠ []
  trimmed : Text.trim column = column
  line : '\n' ∉ column
  signs : ∀ c ∈ column.tail, isSign c = false

/-- A value that is found again behind a comparison: on one line and without blanks at its ends. -/
structure OneLine (value : List Char) : Prop where
  ne_nil : value ≠ []
  trimmed : Text.trim value = value
  line : '\n' ∉ value

theorem operatorAt?_eq_none {c : Char} {rest : List Char} (hc : isSign c = false)
    (hrest : rest.head? ≠ some '=') : operatorAt? (c :: rest) = none := by
  unfold operatorAt?
  split <;> simp_all [isSign]

theorem operatorAt?_append {spelling : List Char} {op : Comparison}
    (h : Comparison.ofText? spelling = some op) (rest : List Char) :
    operatorAt? (spelling ++ ' ' :: rest) = some (op, ' ' :: rest) := by
  unfold Comparison.ofText? at h
  split at h <;> cases h <;> rfl

theorem isBlank_of_ofText? {spelling : List Char} {op : Comparison}
    (h : Comparison.ofText? spelling = some op) :
    ∃ c rest, spelling = c :: rest ∧ Text.isBlank c = false := by
  unfold Comparison.ofText? at h
  split at h
  case h_9 => cases h
  all_goals exact ⟨_, _, rfl, by decide⟩

theorem isOperatorChar_of_ofText? {spelling : List Char} {op : Comparison}
    (h : Comparison.ofText? spelling = some op) :
    ∀ c ∈ spelling, Criterion.isOperatorChar c = true := by
  unfold Comparison.ofText? at h
  split at h
  case h_9 => cases h
  all_goals decide

/-- No comparison starts within a text that does not end with a blank and has no signs in it. -/
theorem comparisonAt?_eq_none {x rest : List Char} (hne : x ≠ [])
    (hlast : x.getLast?.any Text.isBlank = false) (hsigns : ∀ c ∈ x, isSign c = false)
    (hrest : rest.head? ≠ some '=') : comparisonAt? (x ++ rest) = none := by
  have hnone : operatorAt? (Text.trimStart (x ++ rest)) = none := by
    induction x with
    | nil => exact absurd rfl hne
    | cons c x ih =>
        have hmore : ∀ d ∈ x, isSign d = false := fun d hd => hsigns d (by simp [hd])
        cases hblank : Text.isBlank c with
        | true =>
            rw [List.cons_append, Text.trimStart_cons hblank]
            cases x with
            | nil => simp [hblank] at hlast
            | cons d x => exact ih (by simp) (by simpa using hlast) hmore
        | false =>
            rw [List.cons_append, Text.trimStart_of_head? hblank]
            refine operatorAt?_eq_none (hsigns c (by simp)) ?_
            cases x with
            | nil => exact hrest
            | cons d x =>
                rintro hd
                have hsign := hmore '=' (by simp [Option.some.inj hd])
                cases hsign
  simp [comparisonAt?, hnone]

/-- A comparison between blanks, with a value behind it. -/
theorem comparisonAt?_spaced {spelling value : List Char} {op : Comparison}
    (hop : Comparison.ofText? spelling = some op) (hvalue : OneLine value) :
    comparisonAt? (' ' :: (spelling ++ ' ' :: value)) = some (op, value) := by
  obtain ⟨c, rest, hspelling, hc⟩ := isBlank_of_ofText? hop
  have hstart : Text.trimStart (' ' :: (spelling ++ ' ' :: value)) = spelling ++ ' ' :: value := by
    rw [Text.trimStart_cons (by decide), hspelling, List.cons_append, Text.trimStart_of_head? hc]
  have htrim : Text.trim (' ' :: value) = value := by
    rw [Text.trim_cons (by decide), hvalue.trimmed]
  simp [comparisonAt?, hstart, operatorAt?_append hop, htrim, hvalue.line, guard]

/-- The cut passes over a column without signs behind its first character. -/
theorem split?_append {column rest value : List Char} {op : Comparison} (hne : column ≠ [])
    (hline : '\n' ∉ column) (hlast : column.getLast?.any Text.isBlank = false)
    (hsigns : ∀ c ∈ column.tail, isSign c = false) (hrest : rest.head? ≠ some '=')
    (hfound : comparisonAt? rest = some (op, value)) :
    split? (column ++ rest) = some (column, op, value) := by
  induction column with
  | nil => exact absurd rfl hne
  | cons c column ih =>
      have hc : c ≠ '\n' := fun hc => hline (by simp [hc])
      cases column with
      | nil => simp [split?, hc, hfound]
      | cons d column =>
          have hnext : comparisonAt? (d :: column ++ rest) = none :=
            comparisonAt?_eq_none (by simp) (by simpa using hlast) hsigns hrest
          have hmore := ih (by simp) (fun h => hline (by simp [h])) (by simpa using hlast)
            (fun e he => hsigns e (List.mem_of_mem_tail he))
          rw [List.cons_append, split?, if_neg hc, hnext, hmore]
          rfl

theorem parts?_of_head? {c : Char} (hc : Text.isBlank c = false) (cs : List Char) :
    parts? (c :: cs) = split? (c :: cs) := by
  have hblanks : (c :: cs).takeWhile Text.isBlank = [] :=
    List.takeWhile_cons_of_neg (by simp [hc])
  simp [parts?, hblanks]

/-- A legible column, a comparison and a value with blanks between them are found again. -/
theorem parts?_spaced {column spelling value : List Char} {op : Comparison}
    (hcolumn : Legible column) (hop : Comparison.ofText? spelling = some op)
    (hvalue : OneLine value) :
    parts? (column ++ ' ' :: (spelling ++ ' ' :: value)) = some (column, op, value) := by
  obtain ⟨hhead, hlast⟩ := Text.ends_of_trim hcolumn.trimmed
  have hsplit := split?_append hcolumn.ne_nil hcolumn.line hlast hcolumn.signs (by simp)
    (comparisonAt?_spaced hop hvalue)
  cases column with
  | nil => exact absurd rfl hcolumn.ne_nil
  | cons c column =>
      rw [List.cons_append, parts?_of_head? (by simpa using hhead)]
      exact hsplit

theorem read_spaced (schema : Schema) {column spelling value : String} {op : Comparison}
    (hcolumn : Legible column.toList) (hop : Comparison.ofText? spelling.toList = some op)
    (hvalue : OneLine value.toList) :
    read schema (column ++ " " ++ spelling ++ " " ++ value) =
      .ok ⟨columnOf schema column.toList, op, readValue value.toList⟩ := by
  have htext : (column ++ " " ++ spelling ++ " " ++ value).toList =
      column.toList ++ ' ' :: (spelling.toList ++ ' ' :: value.toList) := by
    simp
  simp [read, htext, parts?_spaced hcolumn hop hvalue, hvalue.ne_nil]

theorem columnOf_of_contains {schema : Schema} {column : String}
    (h : schema.contains column = true) : columnOf schema column.toList = column := by
  simp [columnOf, h]

end Condition

end SheetBoard
