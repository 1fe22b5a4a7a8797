import SheetBoard.Proofs.Condition.Reading
import SheetBoard.Proofs.Number.Numeral
import SheetBoard.Proofs.Table.Changes

/-! The number of rows that meet a condition against the count of a column's values by a criterion.
Conditions and criteria read their values in different ways, which agree on all words but those for
NaN: a condition takes such a word as text, a criterion as a number. -/

namespace SheetBoard

open SheetBoard.Script (Value)

/-! ### Words in lower case -/

namespace Text

/-- The letters of the two truth words. -/
def truthLetters : List Char := ['t', 'r', 'u', 'e', 'f', 'a', 'l', 's']

theorem toNat_of_mem_truthLetters : ∀ c ∈ truthLetters, 0 < c.toNat ∧ c.toNat < 128 := by decide

theorem notMem_truthLetters {c : Char} (hc : isAscii c = false) : c ∉ truthLetters := by
  intro hmem
  have hlow := (toNat_of_mem_truthLetters c hmem).2
  simp [isAscii, hlow] at hc

theorem ofNat_notMem_truthLetters {n : Nat} (hn : 128 ≤ n) : Char.ofNat n ∉ truthLetters := by
  intro hmem
  have hlow := toNat_of_mem_truthLetters _ hmem
  by_cases hvalid : n.isValidChar
  · have hsame : (Char.ofNat n).toNat = n := by
      rw [Char.ofNat, dif_pos hvalid]
      rfl
    omega
  · rw [Char.ofNat, dif_neg hvalid] at hlow
    exact absurd hlow.1 (by decide)

/-- Of the characters beyond ASCII only the Kelvin sign becomes an ASCII letter on its own. -/
theorem offset_lowerRuns : ∀ r ∈ lowerRuns,
    128 ≤ (r.first : Int) + r.offset ∨ r.first = 0x212A ∧ r.last = 0x212A ∧ r.offset = -8383 := by
  decide +kernel

theorem shiftCase_notMem_truthLetters {c : Char} (hc : isAscii c = false) :
    shiftCase lowerRuns c ∉ truthLetters := by
  unfold shiftCase
  split
  · rename_i r hr
    have hcovers := List.find?_some hr
    simp only [CaseRun.covers, Bool.and_eq_true, decide_eq_true_eq] at hcovers
    rcases offset_lowerRuns r (List.mem_of_find?_eq_some hr) with hlow | ⟨hfirst, hlast, hoffset⟩
    · exact ofNat_notMem_truthLetters (by omega)
    · have hkelvin : c.toNat = 0x212A := by omega
      rw [hkelvin, hoffset]
      decide
  · exact notMem_truthLetters hc

theorem toLower_of_isAscii_eq_false {c : Char} (hc : isAscii c = false) : c.toLower = c := by
  have hhigh : 128 ≤ c.toNat := by simpa [isAscii] using hc
  unfold Char.toLower
  split
  · rename_i hupper
    have hlow : c.toNat ≤ 'Z'.toNat := hupper.2
    have hbound : 'Z'.toNat < 128 := by decide
    omega
  · rfl

/-- The first character of what stands for `c` in lower case. -/
theorem lowerFrom_cons (before : List Char) (c : Char) (rest : List Char) :
    if isAscii c then lowerFrom before (c :: rest) = c.toLower :: lowerFrom (c :: before) rest
    else ∃ d more, lowerFrom before (c :: rest) = d :: more ∧ d ∉ truthLetters := by
  rw [lowerFrom]
  split
  · rename_i hc
    have hsigma : c ≠ 'Σ' := by
      rintro rfl
      cases hc
    simp [hsigma, lowerChar, hc]
  · rename_i hc
    have hc : isAscii c = false := by simpa using hc
    by_cases hsigma : c = 'Σ'
    · rw [if_pos hsigma]
      refine ⟨_, _, rfl, ?_⟩
      split <;> decide
    · rw [if_neg hsigma, lowerChar, if_neg (by simp [hc])]
      split
      · exact ⟨_, _, rfl, by decide⟩
      · exact ⟨_, _, rfl, shiftCase_notMem_truthLetters hc⟩

/-- On the truth words the case of all letters is the case of ASCII letters. -/
theorem lowerFrom_eq_iff {w : List Char} (hw : ∀ c ∈ w, c ∈ truthLetters) (before cs : List Char) :
    lowerFrom before cs = w ↔ cs.map Char.toLower = w := by
  induction cs generalizing before w with
  | nil => rfl
  | cons c cs ih =>
      have hstep := lowerFrom_cons before c cs
      split at hstep
      · rw [hstep, List.map_cons]
        cases w with
        | nil => simp
        | cons d w =>
            have hrest := ih (fun e he => hw e (List.mem_cons_of_mem d he)) (c :: before)
            rw [List.cons.injEq, List.cons.injEq, hrest]
      · rename_i hc
        obtain ⟨d, more, hlower, hd⟩ := hstep
        have hc : isAscii c = false := by simpa using hc
        rw [hlower, List.map_cons, toLower_of_isAscii_eq_false hc]
        refine ⟨?_, ?_⟩
        · rintro rfl
          exact absurd (hw d (by simp)) hd
        · rintro rfl
          exact absurd (hw c (by simp)) (notMem_truthLetters hc)

theorem lower_eq_iff_equalIgnoringCase {cs : List Char} {word : String}
    (hword : ∀ c ∈ word.toList, c ∈ truthLetters ∧ c.toLower = c) :
    String.ofList (lower cs) = word ↔ equalIgnoringCase (String.ofList cs) word = true := by
  have hsame : word.toList.map Char.toLower = word.toList :=
    (List.map_congr_left fun c hc => (hword c hc).2).trans (List.map_id _)
  rw [← String.toList_inj, String.toList_ofList, lower,
    lowerFrom_eq_iff fun c hc => (hword c hc).1]
  simp [equalIgnoringCase, hsame]

theorem lower_eq_true_iff {cs : List Char} :
    String.ofList (lower cs) = "true" ↔ equalIgnoringCase (String.ofList cs) "true" = true :=
  lower_eq_iff_equalIgnoringCase (by decide)

theorem lower_eq_false_iff {cs : List Char} :
    String.ofList (lower cs) = "false" ↔ equalIgnoringCase (String.ofList cs) "false" = true :=
  lower_eq_iff_equalIgnoringCase (by decide)

theorem toLower_of_isDigit {c : Char} (hc : Number.isDigit c = true) : c.toLower = c := by
  have hlow : c ≤ '9' := by simpa using (Bool.and_eq_true_iff.1 hc).2
  unfold Char.toLower
  split
  · rename_i hupper
    have hhigh : 'A'.toNat ≤ c.toNat := hupper.1
    have hdigit : c.toNat ≤ '9'.toNat := hlow
    exact absurd (Nat.le_trans hhigh hdigit) (by decide)
  · rfl

end Text

/-! ### How a value is read -/

/-- A truth word is no number. -/
theorem Number.read?_of_truthWord {cs : List Char} {word : String}
    (hword : word = "true" ∨ word = "false")
    (h : Text.equalIgnoringCase (String.ofList cs) word = true) : read? cs = none := by
  have hlower : cs.map Char.toLower = word.toList := by
    rcases hword with rfl | rfl <;> simpa [Text.equalIgnoringCase] using h
  cases cs with
  | nil => rcases hword with rfl | rfl <;> cases hlower
  | cons c rest =>
      have hfirst : c.toLower = 't' ∨ c.toLower = 'f' := by
        rcases hword with rfl | rfl
        · exact .inl (List.cons.inj hlower).1
        · exact .inr (List.cons.inj hlower).1
      have hne : ∀ d : Char, d.toLower = d → d ≠ 't' → d ≠ 'f' → c ≠ d := by
        rintro d hd ht hf rfl
        rcases hfirst with hfirst | hfirst
        · exact ht (hd.symm.trans hfirst)
        · exact hf (hd.symm.trans hfirst)
      have hdigit : isDigit c = false := by
        cases hc : isDigit c with
        | false => rfl
        | true => exact absurd rfl (hne c (Text.toLower_of_isDigit hc) (by rintro rfl; cases hc)
            (by rintro rfl; cases hc))
      have hsign : splitSign (c :: rest) = (false, c :: rest) := by
        have hminus := hne '-' (by decide) (by decide) (by decide)
        have hplus := hne '+' (by decide) (by decide) (by decide)
        unfold splitSign
        split <;> simp_all
      have hwords : readWord? (c :: rest) = none := by
        rw [readWord?, hlower, String.ofList_toList]
        rcases hword with rfl | rfl <;> rfl
      have hpoint := hne '.' (by decide) (by decide) (by decide)
      have hdecimal : readDecimal? (c :: rest) = none := by
        simp [readDecimal?, hdigit, hpoint]
      simp [read?, hsign, hwords, hdecimal]

theorem Number.not_truthWord_of_read? {cs : List Char} {x : Float} (h : read? cs = some x) :
    Text.equalIgnoringCase (String.ofList cs) "true" = false ∧
      Text.equalIgnoringCase (String.ofList cs) "false" = false := by
  have hword : ∀ word, word = "true" ∨ word = "false" →
      Text.equalIgnoringCase (String.ofList cs) word = false := by
    intro word hword
    cases hequal : Text.equalIgnoringCase (String.ofList cs) word with
    | false => rfl
    | true =>
        rw [read?_of_truthWord hword hequal] at h
        cases h
  exact ⟨hword "true" (.inl rfl), hword "false" (.inr rfl)⟩

namespace Condition

/-- What a trimmed text is taken for, with the truth words as criteria know them. -/
theorem detect_of_trimmed {cs : List Char} (hne : cs ≠ []) (htrim : Text.trim cs = cs) :
    Cell.detect cs =
      if Text.equalIgnoringCase (.ofList cs) "true" then .boolean true
      else if Text.equalIgnoringCase (.ofList cs) "false" then .boolean false
      else
        match Number.read? cs with
        | some x => if x.isNaN then .text (.ofList cs) else .number x
        | none => .text (.ofList cs) := by
  have hempty : cs.isEmpty = false := by simp [hne]
  cases hread : Number.read? cs <;>
    simp only [Cell.detect, htrim, hempty, hread, Bool.false_eq_true, if_false,
      Text.lower_eq_true_iff, Text.lower_eq_false_iff]

/-- A value without quotes, as conditions and criteria both take it: on one line, trimmed, and
starting with neither a quote nor the sign of a comparison. -/
structure BareToken (token : List Char) : Prop extends OneLine token where
  quote : token.head? ≠ some '"'
  sign : token.head?.any Criterion.isOperatorChar = false

theorem readValue_bare {token : List Char} (h : BareToken token) :
    readValue token = Cell.detect token := by
  have hdetect : Cell.detect token ≠ .empty := by
    rw [detect_of_trimmed h.ne_nil h.trimmed]
    split
    · simp
    split
    · simp
    split
    · split <;> simp
    · simp
  unfold readValue
  split
  · exact absurd rfl h.quote
  · split
    · exact absurd ‹_› hdetect
    · rfl

section

variable {token : List Char} (h : BareToken token) (column : String) (op : Comparison)
include h

/-- A condition and a criterion read the same operand from a word that is not NaN. -/
theorem operand_bare (hnumber : ∀ x, Number.read? token = some x → x.isNaN = false) :
    (⟨column, op, readValue token⟩ : Condition).operand = Operand.ofText token := by
  simp only [operand, readValue_bare h, detect_of_trimmed h.ne_nil h.trimmed, Operand.ofText,
    h.trimmed]
  by_cases htrue : Text.equalIgnoringCase (String.ofList token) "true" = true
  · simp only [htrue, if_true]
  by_cases hfalse : Text.equalIgnoringCase (String.ofList token) "false" = true
  · simp only [htrue, hfalse, if_true, if_false, Bool.false_eq_true]
  cases hread : Number.read? token with
  | none => simp only [htrue, hfalse, if_false, Bool.false_eq_true]
  | some x => simp only [htrue, hfalse, hnumber x hread, if_false, Bool.false_eq_true]

/-- A word for NaN is a text to a condition and a number to a criterion. -/
theorem operand_bare_nan {x : Float} (hread : Number.read? token = some x) (hx : x.isNaN = true) :
    (⟨column, op, readValue token⟩ : Condition).operand = .text (.ofList token) ∧
      Operand.ofText token = .number x := by
  obtain ⟨htrue, hfalse⟩ := Number.not_truthWord_of_read? hread
  simp only [operand, readValue_bare h, detect_of_trimmed h.ne_nil h.trimmed, Operand.ofText,
    h.trimmed, htrue, hfalse, hread, hx, Bool.false_eq_true, if_false, if_true, and_self]

end

end Condition

/-! ### Counting -/

theorem Operand.ofText_trimEnd (cs : List Char) : ofText (Text.trimEnd cs) = ofText cs := by
  rw [ofText, ofText, Text.trim_trimEnd]

theorem Criterion.not_isBlank_of_isOperatorChar {c : Char} (h : isOperatorChar c = true) :
    Text.isBlank c = false := by
  simp only [isOperatorChar, Bool.or_eq_true, decide_eq_true_eq] at h
  rcases h with ((rfl | rfl) | rfl) | rfl <;> decide

/-- A comparison is read with all of the text behind it as its operand, if that is on one line and
does not go on with a sign. -/
theorem Criterion.ofText_comparison {spelling operand : List Char} {op : Comparison}
    (hop : Comparison.ofText? spelling = some op) (hline : '\n' ∉ operand)
    (hsign : operand.head?.any isOperatorChar = false) :
    ofText (spelling ++ operand) = .compares op (.ofText operand) := by
  obtain ⟨c, rest, hspelling, hc⟩ := Condition.isBlank_of_ofText? hop
  have hsigns := Condition.isOperatorChar_of_ofText? hop
  have htrim : Text.trim (spelling ++ operand) = spelling ++ Text.trimEnd operand := by
    have hstart : Text.trimStart (spelling ++ operand) = spelling ++ operand := by
      rw [hspelling, List.cons_append, Text.trimStart_of_head? hc]
    rw [Text.trim, hstart,
      Text.trimEnd_append fun d hd => not_isBlank_of_isOperatorChar (hsigns d hd)]
  have hfront := Text.trimEnd_isPrefix operand
  have hone : '\n' ∉ Text.trimEnd operand := fun hmem => hline (hfront.subset hmem)
  have hends : (Text.trimEnd operand).head?.any isOperatorChar = false := by
    cases htext : Text.trimEnd operand with
    | nil => rfl
    | cons d more =>
        obtain ⟨tail, htail⟩ := hfront
        rw [← htail, htext] at hsign
        exact hsign
  have hcomparison : comparison? (spelling ++ Text.trimEnd operand) =
      some (op, .ofText operand) := by
    simp [comparison?, Number.dropWhile_append_of_all hsigns hends,
      Number.takeWhile_append_of_all hsigns hends, hone, hop, guard, Operand.ofText_trimEnd]
  have hne : (spelling ++ Text.trimEnd operand).isEmpty = false := by simp [hspelling]
  simp [ofText, htrim, hne, hcomparison]

theorem countP_of_mapM {α β : Type} {f : α → Option β} (p : β → Bool) {xs : List α} {ys : List β}
    (h : xs.mapM f = some ys) : xs.countP (fun x => (f x).any p) = ys.countP p := by
  induction xs generalizing ys with
  | nil =>
      cases h
      rfl
  | cons x xs ih =>
      simp only [List.mapM_cons, Option.bind_eq_bind, Option.bind_eq_some_iff] at h
      obtain ⟨y, hy, zs, hzs, hys⟩ := h
      cases hys
      rw [List.countP_cons, List.countP_cons, ih hzs, hy]
      rfl

/-- The rows that meet a condition are as many as the cells of its column that compare. -/
theorem Table.rowCount_retain {t : Table} (ht : t.WellFormed) {c : Condition} {cells : List Cell}
    (hcolumn : t.column? c.column = some cells) :
    (t.retain [c]).rowCount =
      cells.countP fun cell => c.operand.compare c.op (.ofCell cell) := by
  obtain ⟨j, hindex, hj⟩ := Option.bind_eq_some_iff.1 hcolumn
  have hmapM : t.grid.rows.mapM (fun fields => fields[j]?) = some cells := column?_grid ht hj
  have haccepts : ∀ fields : List Cell,
      ([c].all fun d => d.accepts ⟨t.schema, 0, fields⟩) =
        (fields[j]?).any fun cell => c.operand.compare c.op (.ofCell cell) := by
    intro fields
    simp [Condition.accepts, Row.get?, hindex]
  calc (t.retain [c]).rowCount = (t.retain [c]).grid.rows.length := (length_rows_grid _).symm
    _ = (t.grid.rows.filter fun fields => [c].all (·.accepts ⟨t.schema, 0, fields⟩)).length := by
        rw [grid_retain ht]
        rfl
    _ = t.grid.rows.countP fun fields =>
          (fields[j]?).any fun cell => c.operand.compare c.op (.ofCell cell) := by
        rw [← List.countP_eq_length_filter]
        simp only [haccepts]
    _ = cells.countP fun cell => c.operand.compare c.op (.ofCell cell) :=
        countP_of_mapM _ hmapM

theorem Script.countIf_cells (cells : List Cell) {spelling token : String} {op : Comparison}
    (hop : Comparison.ofText? spelling.toList = some op)
    (htoken : Condition.BareToken token.toList) :
    Library.countIf (.array (cells.map .ofCell)) (.text (spelling ++ token)) =
      .ofNat (cells.countP fun cell =>
        (Operand.ofText token.toList).compare op (.ofCell cell)) := by
  simp only [Library.countIf, Criterion.ofValue, String.toList_append,
    Criterion.ofText_comparison hop htoken.line htoken.sign, Value.items, List.countP_map,
    Function.comp_def, Criterion.accepts]

namespace Condition

/-- A column name in which no comparison can start. -/
structure PlainName (name : List Char) : Prop extends OneLine name where
  signs : ∀ c ∈ name, Criterion.isOperatorChar c = false

theorem PlainName.legible {name : List Char} (h : PlainName name) : Legible name where
  ne_nil := h.ne_nil
  trimmed := h.trimmed
  line := h.line
  signs c hc := by
    have hoperator := h.signs c (List.mem_of_mem_tail hc)
    simp only [Criterion.isOperatorChar, Bool.or_eq_false_iff] at hoperator
    simp [isSign, hoperator.1.1.1, hoperator.1.1.2, hoperator.1.2]

/-- The rows that a condition keeps are as many as the values of the column that a criterion with
the same comparison and the same word counts, unless the word is one for NaN. Then the condition
compares texts, and the criterion compares with the number. -/
theorem countIf_eq_rowCount_retain {t : Table} (ht : t.WellFormed) {name : String}
    {cells : List Cell} (hcolumn : t.column? name = some cells) (hname : PlainName name.toList)
    {spelling token : String} {op : Comparison}
    (hop : Comparison.ofText? spelling.toList = some op) (htoken : BareToken token.toList) :
    ∃ c, read t.schema (name ++ " " ++ spelling ++ " " ++ token) = .ok c ∧
      ((∀ x, Number.read? token.toList = some x → x.isNaN = false) →
        Script.Library.countIf (.array (cells.map .ofCell)) (.text (spelling ++ token)) =
          .ofNat (t.retain [c]).rowCount) ∧
      ∀ x, Number.read? token.toList = some x → x.isNaN = true →
        (t.retain [c]).rowCount =
          cells.countP (fun cell => (Operand.text token).compare op (.ofCell cell)) ∧
        Script.Library.countIf (.array (cells.map .ofCell)) (.text (spelling ++ token)) =
          .ofNat (cells.countP fun cell => (Operand.number x).compare op (.ofCell cell)) := by
  have hcontains : t.schema.contains name = true := by
    obtain ⟨j, hindex, -⟩ := Option.bind_eq_some_iff.1 hcolumn
    simpa [Schema.contains] using Schema.mem_of_indexOf? hindex
  refine ⟨_, read_spaced t.schema hname.legible hop htoken.toOneLine, ?_⟩
  rw [columnOf_of_contains hcontains, Script.countIf_cells cells hop htoken]
  have hrows := Table.rowCount_retain ht (c := ⟨name, op, readValue token.toList⟩) hcolumn
  rw [hrows]
  refine ⟨fun hnumber => ?_, fun x hread hx => ?_⟩
  · rw [operand_bare htoken name op hnumber]
  · obtain ⟨htext, hnumber⟩ := operand_bare_nan htoken name op hread hx
    rw [htext, hnumber, String.ofList_toList]
    exact ⟨rfl, rfl⟩

/-- A bound on a column of numbers and texts, and a word for NaN that is one of the texts. -/
theorem countIf_eq_rowCount_retain_units :
    let t : Table := ⟨⟨["units sold"]⟩, [[.number 5, .text "7", .empty, .text "NaN"]], 4⟩
    let cells := [Cell.number 5, .text "7", .empty, .text "NaN"]
    t.WellFormed ∧ t.column? "units sold" = some cells ∧
      (∃ c, read t.schema ("units sold" ++ " " ++ ">=" ++ " " ++ "6") = .ok c ∧
        Script.Library.countIf (.array (cells.map .ofCell)) (.text (">=" ++ "6")) =
          .ofNat (t.retain [c]).rowCount) ∧
      ∃ c, read t.schema ("units sold" ++ " " ++ "=" ++ " " ++ "nan") = .ok c ∧
        (t.retain [c]).rowCount =
          cells.countP fun cell => (Operand.text "nan").compare .equal (.ofCell cell) := by
  intro t cells
  have ht : t.WellFormed := ⟨by decide, by decide⟩
  have hcolumn : t.column? "units sold" = some cells := by decide
  have hname : PlainName "units sold".toList :=
    ⟨⟨by decide, by decide +kernel, by decide⟩, by decide⟩
  have hsix : BareToken "6".toList :=
    ⟨⟨by decide, by decide +kernel, by decide⟩, by decide, by decide⟩
  have hnan : BareToken "nan".toList :=
    ⟨⟨by decide, by decide +kernel, by decide⟩, by decide, by decide⟩
  have hatLeast : Comparison.ofText? ">=".toList = some .greaterEqual := rfl
  have hequal : Comparison.ofText? "=".toList = some .equal := rfl
  obtain ⟨c, hread, hcount, -⟩ := countIf_eq_rowCount_retain ht hcolumn hname hatLeast hsix
  obtain ⟨d, hreadText, -, htext⟩ := countIf_eq_rowCount_retain ht hcolumn hname hequal hnan
  have hnumber : ∀ x, Number.read? "6".toList = some x → x.isNaN = false := by
    have hvalue : Number.read? "6".toList = some 6 := by decide +kernel
    intro x hx
    cases hvalue.symm.trans hx
    decide +kernel
  have hword : Number.read? "nan".toList = some (0.0 / 0.0) := by decide +kernel
  exact ⟨ht, hcolumn, ⟨c, hread, hcount hnumber⟩, d, hreadText,
    (htext _ hword (by decide +kernel)).1⟩

/-- The text `nan` meets the condition on it, and the criterion does not count it. -/
theorem countIf_ne_rowCount_retain_nan :
    let t : Table := ⟨⟨["x"]⟩, [[.text "nan", .text "a", .number 3]], 3⟩
    ∃ c, read t.schema "x = nan" = .ok c ∧ (t.retain [c]).rowCount = 1 ∧
      Script.Library.countIf (.array [.text "nan", .text "a", .number 3]) (.text "=nan") =
        .ofNat 0 := by
  intro t
  refine ⟨⟨"x", .equal, .text "nan"⟩, by decide +kernel, by decide +kernel, ?_⟩
  have hcount : List.countP (Criterion.ofValue (.text "=nan")).accepts
      [.text "nan", .text "a", .number 3] = 0 := by decide +kernel
  exact congrArg Value.ofNat hcount

end Condition

end SheetBoard
