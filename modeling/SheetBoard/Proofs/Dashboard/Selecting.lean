import SheetBoard.Dashboard.Selector
import SheetBoard.Proofs.Script.RangeCalls

/-! The column that a filter is about, next to the column that its values come from. The two are
found in different ways: the values by the letters of the range, and the column by the first header
that occurs in the formula, wherever it does. -/

namespace SheetBoard

/-! ### Values by key -/

namespace Association

variable {β : Type} {key : String} {value : β} {entries : List (String × β)}

theorem lookup_insert : (insert key value entries).lookup key = some value := by
  induction entries with
  | nil => simp [insert]
  | cons entry entries ih =>
      obtain ⟨k, v⟩ := entry
      rw [insert]
      cases hcompare : compare key k with
      | lt => simp
      | eq => simp
      | gt =>
          have hne : key ≠ k := by
            rintro rfl
            simp at hcompare
          simp [List.lookup_cons, beq_false_of_ne hne, ih]

theorem lookup_insert_of_ne {other : String} (h : other ≠ key) :
    (insert key value entries).lookup other = entries.lookup other := by
  have hother : (other == key) = false := beq_false_of_ne h
  induction entries with
  | nil => simp [insert, List.lookup_cons, hother]
  | cons entry entries ih =>
      obtain ⟨k, v⟩ := entry
      rw [insert]
      cases hcompare : compare key k with
      | lt => simp [List.lookup_cons, hother]
      | eq =>
          obtain rfl : key = k := by simpa using hcompare
          simp [List.lookup_cons, hother]
      | gt => simp [List.lookup_cons, ih]

end Association

/-! ### Finding -/

namespace Formula

section

variable {α : Type} {find : Pattern α} {before : Option Char} {x rest : List Char} {found : α}

theorem findFrom_skip (find : Pattern α) (before : Option Char) (x rest : List Char) :
    findFrom find x.length before (x ++ rest) = findFrom find 0 (lastChar before x) rest := by
  induction x generalizing before with
  | nil => rfl
  | cons c x ih => exact ih (some c)

theorem findFrom_found (hx : x ≠ []) (h : find before (x ++ rest) = some (found, rest)) :
    findFrom find 0 before (x ++ rest) = found :: findFrom find 0 (lastChar before x) rest := by
  obtain ⟨c, x, rfl⟩ := List.exists_cons_of_ne_nil hx
  rw [List.cons_append] at h ⊢
  have hsize : (x ++ rest).length - rest.length = x.length := by simp
  simp only [findFrom, h, hsize, findFrom_skip]
  rfl

theorem head?_findFrom {cs : List Char} (hcs : cs ≠ []) (h : find before cs = some (found, rest)) :
    (findFrom find 0 before cs).head? = some found := by
  obtain ⟨c, cs, rfl⟩ := List.exists_cons_of_ne_nil hcs
  simp [findFrom, h]

/-- Nothing is found in a text if nothing is found at any of its places. -/
theorem findFrom_passed (h : ∀ a c b, x = a ++ c :: b →
      find (lastChar before a) (c :: (b ++ rest)) = none) :
    findFrom find 0 before (x ++ rest) = findFrom find 0 (lastChar before x) rest := by
  induction x generalizing before with
  | nil => rfl
  | cons c x ih =>
      have hc : find before (c :: (x ++ rest)) = none := h [] c x rfl
      have hrest : findFrom find 0 (some c) (x ++ rest) =
          findFrom find 0 (lastChar (some c) x) rest :=
        ih fun a d b hx => h (c :: a) d b (by rw [hx]; rfl)
      simp only [List.cons_append, findFrom, hc]
      exact hrest

end

end Formula

namespace Dashboard

open Formula

theorem mentions_iff_infix {name cs : List Char} : mentions name cs = true ↔ name <:+: cs := by
  induction cs with
  | nil => simp [mentions]
  | cons c cs ih => simp [mentions, ih, List.infix_cons_iff]

/-! ### The formulas -/

/-- The formula for the distinct values of a column, such as `=UNIQUE(C2:C)`. -/
def uniqueFormula (letters : Capitals) : String :=
  "=UNIQUE(" ++ .ofList letters.chars ++ "2:" ++ .ofList letters.chars ++ ")"

/-- The formula for the distinct years of a column, such as `=UNIQUE(YEAR(C2:C))`. -/
def uniqueYearFormula (letters : Capitals) : String :=
  "=UNIQUE(YEAR(" ++ .ofList letters.chars ++ "2:" ++ .ofList letters.chars ++ "))"

section

variable (letters : Capitals)

theorem toList_uniqueFormula :
    (uniqueFormula letters).toList =
      "=UNIQUE(".toList ++ (rangeText letters (some 2) ++ [')']) := by
  have htwo : rowDigits (some 2) = "2".toList := by decide +kernel
  unfold uniqueFormula
  simp only [String.toList_append, String.toList_ofList, rangeText, htwo, List.append_assoc]
  rfl

theorem toList_uniqueYearFormula :
    (uniqueYearFormula letters).toList =
      "=UNIQUE(".toList ++ ("YEAR(".toList ++ (rangeText letters (some 2) ++ [')', ')'])) := by
  have htwo : rowDigits (some 2) = "2".toList := by decide +kernel
  unfold uniqueYearFormula
  simp only [String.toList_append, String.toList_ofList, rangeText, htwo, List.append_assoc]
  rfl

theorem uniqueFormula_eq : uniqueFormula letters =
    .ofList ('=' :: (Tree.around [Script.uniqueWord] letters 2).render) := by
  rw [← String.toList_inj, String.toList_ofList, toList_uniqueFormula, Tree.render_around_cons,
    Tree.render_around_nil]
  rfl

theorem uniqueYearFormula_eq : uniqueYearFormula letters =
    .ofList ('=' :: (Tree.around [Script.uniqueWord, Script.yearWord] letters 2).render) := by
  rw [← String.toList_inj, String.toList_ofList, toList_uniqueYearFormula, Tree.render_around_cons,
    Tree.render_around_cons, Tree.render_around_nil]
  simp only [Tree.parenthesised, List.cons_append, List.append_assoc]
  rfl

end

theorem open_notMem_rangeText (letters : Capitals) (first : Option Nat) :
    '(' ∉ rangeText letters first := by
  have hname : ∀ w, IsName w → '(' ∉ w := by
    intro w hw hopen
    have hchar := hw.all _ hopen
    cases hchar
  intro hopen
  rcases List.mem_append.1 hopen with hopen | hopen
  · exact hname _ (.row letters first) hopen
  · exact hname _ letters.isName ((List.mem_cons.1 hopen).resolve_left (by decide))

/-! ### Years -/

section

variable {before : Option Char} {cs : List Char}

theorem yearCall_eq_none (h : ¬"YEAR(".toList <+: cs) : yearCall before cs = none := by
  have hword : "YEAR(".toList.isPrefixOf cs = false :=
    Bool.eq_false_iff.2 fun hword => h (List.isPrefixOf_iff_prefix.1 hword)
  simp only [yearCall, hword, guard_eq_ite, Bool.false_eq_true, if_false]
  rfl

theorem yearCall_plain {c : Char} (hc : c ≠ 'Y') : yearCall before (c :: cs) = none :=
  yearCall_eq_none fun hword => hc (List.cons_prefix_cons.1 hword).1.symm

/-- No year is found without a parenthesis. -/
theorem findFrom_yearCall_eq_nil (h : '(' ∉ cs) : findFrom yearCall 0 before cs = [] := by
  have hpassed : findFrom yearCall 0 before (cs ++ []) =
      findFrom yearCall 0 (lastChar before cs) [] := by
    refine findFrom_passed fun a c b hcs => yearCall_eq_none fun hword => h ?_
    have hopen : '(' ∈ c :: (b ++ []) := hword.subset (by decide)
    rw [hcs]
    simpa using List.mem_append_right a hopen
  rw [List.append_nil] at hpassed
  exact hpassed

/-- No year is found in front of the range. -/
theorem findAll_yearCall_unique (rest : List Char) :
    findAll yearCall ("=UNIQUE(".toList ++ rest) = findFrom yearCall 0 (some '(') rest := by
  have hplain : ∀ c ∈ "=UNIQUE(".toList, c ≠ 'Y' := by decide
  exact findFrom_passed fun a c b hx => yearCall_plain (hplain c (by simp [hx]))

theorem yearCall_range (letters : Capitals) (rest : List Char) :
    yearCall before ("YEAR(".toList ++ (rangeText letters (some 2) ++ ')' :: rest)) =
      some (letters.chars, rest) := by
  have hword : ∀ cs, "YEAR(".toList.isPrefixOf ("YEAR(".toList ++ cs) = true := fun cs =>
    List.isPrefixOf_iff_prefix.2 (List.prefix_append _ cs)
  have hdrop : ∀ cs, ("YEAR(".toList ++ cs).drop "YEAR(".toList.length = cs := fun _ => rfl
  have hcapitals : (letters.chars ++ ')' :: rest).dropWhile isCapital = ')' :: rest :=
    Number.dropWhile_append_of_all letters.all rfl
  simp only [yearCall, hword, hdrop, guard_true, read?_rangeText, Option.bind_eq_bind,
    Option.bind_some, hcapitals]
  rfl

end

/-! ### References -/

section

variable {before : Option Char}

theorem columnReference_plain {c : Char} (hc : isNameStart c = false) (cs : List Char) :
    columnReference before (c :: cs) = none := by
  simp [columnReference, read?_plain hc]

theorem columnReference_callee (hbefore : startsWord before = true) (letters : Capitals)
    (rest : List Char) :
    columnReference before (letters.chars ++ '(' :: rest) = some (letters.chars, '(' :: rest) := by
  have hread : Reference.read? (letters.chars ++ '(' :: rest) =
      some (⟨letters.chars, []⟩, '(' :: rest) := by
    have hrow := read?_row letters none
    rw [rowDigits_none, List.append_nil] at hrow
    rw [read?_append rfl, hrow]
    rfl
  have hword : endsWord ('(' :: rest) = true := rfl
  simp [columnReference, hbefore, hread, rangeEnd, hword]

theorem columnReference_range (hbefore : startsWord before = true) (letters : Capitals)
    (first : Option Nat) (rest : List Char) :
    columnReference before (rangeText letters first ++ ')' :: rest) =
      some (letters.chars, ')' :: rest) := by
  have hcapitals : (letters.chars ++ ')' :: rest).dropWhile isCapital = ')' :: rest :=
    Number.dropWhile_append_of_all letters.all rfl
  have hword : endsWord (')' :: rest) = true := rfl
  have hend : rangeEnd (':' :: (letters.chars ++ ')' :: rest)) = ')' :: rest := by
    obtain ⟨c, chars, hchars⟩ := List.exists_cons_of_ne_nil letters.ne_nil
    have hc : isCapital c = true := letters.all c (by simp [hchars])
    have hhead : (letters.chars ++ ')' :: rest).head?.any isCapital = true := by
      simp [hchars, hc]
    simp only [rangeEnd, hcapitals, hword, hhead, Bool.and_self, if_true]
  simp [columnReference, hbefore, read?_rangeText, hend, hword]

/-- The word of the formula, which is spelled like the letters of a column. -/
def uniqueLetters : Capitals := ⟨"UNIQUE".toList, by decide, by decide⟩

/-- The references in the formula for distinct values are its own word and the range. -/
theorem findAll_columnReference_unique (letters : Capitals) :
    findAll columnReference (uniqueFormula letters).toList =
      [uniqueLetters.chars, letters.chars] := by
  have hplain : ∀ {before} c rest, isNameStart c = false →
      findFrom columnReference 0 before (c :: rest) = findFrom columnReference 0 (some c) rest := by
    intro before c rest hc
    simp only [findFrom, columnReference_plain hc]
  have htext : (uniqueFormula letters).toList = '=' :: (uniqueLetters.chars ++
      '(' :: (rangeText letters (some 2) ++ [')'])) := toList_uniqueFormula letters
  have hrange : rangeText letters (some 2) ≠ [] := by simp [rangeText]
  rw [findAll, htext, hplain _ _ (by decide),
    findFrom_found uniqueLetters.ne_nil (columnReference_callee (by decide) uniqueLetters _),
    hplain _ _ (by decide), findFrom_found hrange (columnReference_range (by decide) letters _ _),
    hplain _ _ (by decide)]
  rfl

end

/-! ### The selector -/

section

variable {schema : Schema} {letters : Capitals} {name : String}
  (hname : schema.nameAt? letters.chars = some name) {filter : Spec.Filter}
include hname

/-- The first header that occurs in the formula comes first, then the column that the word of the
formula has the letters of, and the column of the range comes last. -/
theorem selector_unique (h : filter.valuesFormula = uniqueFormula letters) :
    filter.selector schema = .column (((schema.names.find? fun header =>
      header.toList <:+: filter.valuesFormula.toList).orElse fun _ =>
        schema.nameAt? uniqueLetters.chars).getD name) := by
  have hyears : findAll yearCall (uniqueFormula letters).toList = [] := by
    rw [toList_uniqueFormula, findAll_yearCall_unique]
    refine findFrom_yearCall_eq_nil fun hopen => ?_
    rcases List.mem_append.1 hopen with hopen | hopen
    · exact open_notMem_rangeText letters _ hopen
    · exact absurd hopen (by decide)
  have hmentions : (fun header : String => mentions header.toList (uniqueFormula letters).toList) =
      fun header : String => decide (header.toList <:+: (uniqueFormula letters).toList) := by
    funext header
    rw [Bool.eq_iff_iff, mentions_iff_infix, decide_eq_true_iff]
  rw [Spec.Filter.selector, h, hyears, hmentions, findAll_columnReference_unique]
  cases schema.names.find? fun header => header.toList <:+: (uniqueFormula letters).toList with
  | some header => rfl
  | none =>
      cases hword : schema.nameAt? uniqueLetters.chars with
      | some other => simp [hword]
      | none => simp [hword, hname]

theorem selector_uniqueYear (h : filter.valuesFormula = uniqueYearFormula letters) :
    filter.selector schema = .year name := by
  have hyears : (findAll yearCall (uniqueYearFormula letters).toList).head? =
      some letters.chars := by
    rw [toList_uniqueYearFormula, findAll_yearCall_unique]
    exact head?_findFrom (by simp) (yearCall_range letters [')'])
  simp [Spec.Filter.selector, h, hyears, hname]

end

/-! ### Filters -/

/-- Of the filters with one name, the last one counts. -/
theorem lookup_selectors (schema : Schema) {before after : List Spec.Filter} {filter : Spec.Filter}
    (hafter : ∀ other ∈ after, other.name ≠ filter.name) :
    (selectors schema (before ++ filter :: after)).lookup filter.name =
      some (filter.selector schema) := by
  induction after using List.reverseRecOn with
  | nil =>
      simp only [selectors, List.foldl_append, List.foldl_cons, List.foldl_nil]
      exact Association.lookup_insert
  | append_singleton after last ih =>
      have hne : filter.name ≠ last.name := (hafter last (by simp)).symm
      rw [← List.cons_append, ← List.append_assoc, selectors, List.foldl_append, List.foldl_cons,
        List.foldl_nil, Association.lookup_insert_of_ne hne]
      exact ih fun other hother => hafter other (by simp [hother])

section

variable {t : Table} {today : Calendar.Date} {formula : List Char} {items : List Script.Value}
  (hvalue : Script.columnValue today t formula = .ok (.array items)) {spec : Spec}
  {before after : List Spec.Filter} {filter : Spec.Filter}
  (hfilters : spec.filters = before ++ filter :: after)
  (hformula : filter.valuesFormula = .ofList ('=' :: formula))
include hvalue hfilters hformula

/-- The values of a filter on a board are those of its formula. -/
theorem values_boardOver : ∃ panel,
    (boardOver .standard today t spec).filters[before.length]? = some panel ∧
      panel.spec = filter ∧ panel.values = some (items.map Script.Value.toCell) := by
  have hevaluate : Dashboard.evaluate today t
      (Target.columnScript ⟨.standard, t.schema⟩ filter.valuesFormula) = .ok (.array items) := by
    simpa only [Target.columnScript, hformula, Script.columnValue] using hvalue
  refine ⟨(Target.filterPanel ⟨.standard, t.schema⟩ filter).evaluate ⟨.standard, t.schema⟩ today t,
    ?_, ?_, ?_⟩
  · simp [boardOver, Target.board, hfilters]
  · simp [FilterPanel.evaluate, Target.filterPanel, hevaluate]
  · simp [FilterPanel.evaluate, Target.filterPanel, hevaluate]

end

/-- A filter by the distinct values of a column shows these values, but it is about the first column
whose header occurs in the formula, or else about the one that the word of the formula has the
letters of. It is about the column of its values if no other header occurs in the formula and the
table is not as wide as that. A filter by the years of a column is always about this column. -/
theorem lookup_selectors_unique {t : Table} {letters : Capitals} {name : String} {cells : List Cell}
    (hcolumn : Script.ColumnOf t letters name cells)
    (hletters : String.ofList letters.chars ∉ t.schema.names) {spec : Spec}
    {before after : List Spec.Filter} {filter : Spec.Filter}
    (hfilters : spec.filters = before ++ filter :: after)
    (hafter : ∀ other ∈ after, other.name ≠ filter.name) (today : Calendar.Date) :
    (filter.valuesFormula = uniqueFormula letters →
      (∃ panel, (boardOver .standard today t spec).filters[before.length]? = some panel ∧
        panel.spec = filter ∧ panel.values = some ((Script.Library.distinctValues
          (cells.map .ofCell)).map Script.Value.toCell)) ∧
      (selectors t.schema spec.filters).lookup filter.name =
        some (.column (((t.schema.names.find? fun header =>
          header.toList <:+: filter.valuesFormula.toList).orElse fun _ =>
            t.schema.nameAt? "UNIQUE".toList).getD name)) ∧
      ((∀ header ∈ t.schema.names, header.toList <:+: filter.valuesFormula.toList →
          header = name) → t.schema.nameAt? "UNIQUE".toList = none →
        (selectors t.schema spec.filters).lookup filter.name = some (.column name))) ∧
    (filter.valuesFormula = uniqueYearFormula letters →
      (∃ panel, (boardOver .standard today t spec).filters[before.length]? = some panel ∧
        panel.spec = filter ∧ panel.values = some ((Script.Library.distinctValues
          (cells.map fun cell => .number (Script.Library.yearIn (.ofCell cell)))).map
            Script.Value.toCell)) ∧
      (selectors t.schema spec.filters).lookup filter.name = some (.year name)) := by
  have hlookup : (selectors t.schema spec.filters).lookup filter.name =
      some (filter.selector t.schema) := by
    rw [hfilters]
    exact lookup_selectors t.schema hafter
  refine ⟨fun hformula => ?_, fun hformula => ?_⟩
  · have hvalues := values_boardOver (hcolumn.columnValue_unique hletters today) hfilters
      (hformula.trans (uniqueFormula_eq letters))
    rw [selector_unique hcolumn.nameAt hformula] at hlookup
    refine ⟨hvalues, hlookup, fun hheaders hword => ?_⟩
    rw [hlookup]
    cases hfound : t.schema.names.find? fun header =>
        header.toList <:+: filter.valuesFormula.toList with
    | some header =>
        have hoccurs : header.toList <:+: filter.valuesFormula.toList := by
          simpa using List.find?_some hfound
        rw [hheaders header (List.mem_of_find?_eq_some hfound) hoccurs]
        rfl
    | none =>
        have hnone : t.schema.nameAt? uniqueLetters.chars = none := hword
        rw [hnone]
        rfl
  · have hvalues := values_boardOver (hcolumn.columnValue_uniqueYear hletters today) hfilters
      (hformula.trans (uniqueYearFormula_eq letters))
    rw [selector_uniqueYear hcolumn.nameAt hformula] at hlookup
    exact ⟨hvalues, hlookup⟩

/-- A filter by values and one by years, with a header that is spelled like a part of the script. -/
theorem lookup_selectors_unique_sales :
    let t : Table := ⟨⟨["getColumnData", "sold on"]⟩, [[.text "x", .empty, .text "x"],
      [.text "2023-05-01", .text "2024-01-31", .text "2023-12-24"]], 3⟩
    let kind : Spec.Filter := ⟨"Kind", "list", "=UNIQUE(A2:A)"⟩
    let sold : Spec.Filter := ⟨"Sold", "list", "=UNIQUE(YEAR(B2:B))"⟩
    let spec : Spec := { filters := [kind, sold] }
    let today : Calendar.Date := ⟨2024, 3, 15⟩
    (∃ panel, (boardOver .standard today t spec).filters[0]? = some panel ∧ panel.spec = kind ∧
        panel.values = some [.text "x"]) ∧
      (selectors t.schema spec.filters).lookup "Kind" = some (.column "getColumnData") ∧
      (∃ panel, (boardOver .standard today t spec).filters[1]? = some panel ∧ panel.spec = sold ∧
        panel.values = some [.number 2023, .number 2024]) ∧
      (selectors t.schema spec.filters).lookup "Sold" = some (.year "sold on") := by
  intro t kind sold spec today
  have ha : Script.ColumnOf t ⟨['A'], by decide, by decide⟩ "getColumnData"
      [.text "x", .empty, .text "x"] := ⟨by decide +kernel, by decide +kernel, rfl⟩
  have hb : Script.ColumnOf t ⟨['B'], by decide, by decide⟩ "sold on"
      [.text "2023-05-01", .text "2024-01-31", .text "2023-12-24"] :=
    ⟨by decide +kernel, by decide +kernel, rfl⟩
  have hkind : kind.valuesFormula = uniqueFormula ⟨['A'], by decide, by decide⟩ := by
    decide +kernel
  have hsold : sold.valuesFormula = uniqueYearFormula ⟨['B'], by decide, by decide⟩ := by
    decide +kernel
  have hspec : spec.filters = [] ++ kind :: [sold] := rfl
  have hspec' : spec.filters = [kind] ++ sold :: [] := rfl
  obtain ⟨hvalues, -, hcolumn⟩ :=
    (lookup_selectors_unique ha (by decide) hspec (by decide) today).1 hkind
  obtain ⟨hyears, hyear⟩ :=
    (lookup_selectors_unique hb (by decide) hspec' (by decide) today).2 hsold
  have hdistinct : (Script.Library.distinctValues
      ([Cell.text "x", .empty, .text "x"].map .ofCell)).map Script.Value.toCell =
        [.text "x"] := by decide +kernel
  have hdates : (Script.Library.distinctValues
      ([Cell.text "2023-05-01", .text "2024-01-31", .text "2023-12-24"].map fun cell =>
        .number (Script.Library.yearIn (.ofCell cell)))).map Script.Value.toCell =
          [.number 2023, .number 2024] := by decide +kernel
  rw [hdistinct] at hvalues
  rw [hdates] at hyears
  exact ⟨hvalues, hcolumn (by decide +kernel) (by decide +kernel), hyears, hyear⟩

/-- The header `E` occurs in the word of the formula: the filter shows regions and is about another
column. -/
theorem lookup_selectors_region :
    let t : Table := ⟨⟨["region", "E"]⟩, [[.text "east", .text "west"], [.number 1, .number 2]], 2⟩
    let region : Spec.Filter := ⟨"Region", "list", "=UNIQUE(A2:A)"⟩
    let spec : Spec := { filters := [region] }
    let today : Calendar.Date := ⟨2024, 3, 15⟩
    (∃ panel, (boardOver .standard today t spec).filters[0]? = some panel ∧ panel.spec = region ∧
        panel.values = some [.text "east", .text "west"]) ∧
      (selectors t.schema spec.filters).lookup "Region" = some (.column "E") := by
  intro t region spec today
  have ha : Script.ColumnOf t ⟨['A'], by decide, by decide⟩ "region"
      [.text "east", .text "west"] := ⟨by decide +kernel, by decide +kernel, rfl⟩
  have hregion : region.valuesFormula = uniqueFormula ⟨['A'], by decide, by decide⟩ := by
    decide +kernel
  have hspec : spec.filters = [] ++ region :: [] := rfl
  have hvalues := values_boardOver (ha.columnValue_unique (by decide) today) hspec
    (hregion.trans (uniqueFormula_eq _))
  have hdistinct : (Script.Library.distinctValues
      ([Cell.text "east", .text "west"].map .ofCell)).map Script.Value.toCell =
        [.text "east", .text "west"] := by decide +kernel
  rw [hdistinct] at hvalues
  exact ⟨hvalues, by decide +kernel⟩

end Dashboard

end SheetBoard
