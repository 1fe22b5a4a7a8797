import SheetBoard.Proofs.Formula.AverageGrowth
import SheetBoard.Proofs.Script.References

/-! The value of an average growth over columns of numbers: what its one call computes, and what the
formula computes if it is not taken for a growth. The two agree for the growth that the call is made
for, from the second row on and in terms of the column it is compared with. -/

namespace SheetBoard.Script

open Formula

/-! ### How the two forms are read -/

/-- Ground pieces are read as their tokens are. -/
theorem read_ground {ps : List Piece} (hoperand : IsOperand ps) (hground : ∀ p ∈ ps, p.IsGround)
    {e : Expr} (h : Derives (scriptTokens ps) e) :
    read (writeOperators (FunctionTable.standard.apply (textOf ps))) = .ok e :=
  read_writeOperators_apply hoperand (fun p hp => (hground p hp).valid)
    (fun _ hm => (hground _ hm).formal rfl) (fun r hr => (hground _ hr).ne_reference r rfl) h

theorem reads_fetchFrom (name : String) (row : Nat) :
    Reads (scriptTokens (fetchFrom name row)) (.call "getColumnData" [.text name, natExpr row]) :=
  reads_fetch (by simp) name (some row)

theorem Reads.call_one {n : String} (hn : n ≠ "not") {ts : List Token} {e : Expr}
    (h : Derives ts e) : Reads (.name n :: .leftParen :: ts ++ [.rightParen]) (.call n [e]) := by
  have harguments : ∀ p ∈ [(ts, e)], Derives p.1 p.2 := by simpa using h
  exact .call hn fun rest => by simpa using arguments harguments rest

theorem Reads.call_two {n : String} (hn : n ≠ "not") {ts us : List Token} {e f : Expr}
    (he : Derives ts e) (hf : Derives us f) :
    Reads (.name n :: .leftParen :: (ts ++ .comma :: us) ++ [.rightParen]) (.call n [e, f]) := by
  have harguments : ∀ p ∈ [(ts, e), (us, f)], Derives p.1 p.2 := by simpa using ⟨he, hf⟩
  exact .call hn fun rest => by simpa using arguments harguments rest

/-- The names under which the two forms call functions. -/
theorem tokens_averages :
    ((Piece.callee averageWord).renamed .standard).inScript.tokens =
      [.name "arrayAvg", .leftParen] ∧
    ∀ name ∈ ["arrayAvg", "arrayPercentageGrowth"],
      ((Piece.callee name.toList).renamed .standard).inScript.tokens =
        [.name name, .leftParen] := by
  decide +kernel

section

variable {x y z : List Piece} {e f g : Expr} (hx : Reads (scriptTokens x) e)
  (hy : Reads (scriptTokens y) f)
include hx hy

theorem reads_growthCall : Reads (scriptTokens (growthCall x y))
    (.call "arrayAvg" [.call "arrayPercentageGrowth" [e, f]]) := by
  have hgrowth := Reads.call_two (n := "arrayPercentageGrowth") (by decide) hx.derives hy.derives
  have haverage := Reads.call_one (n := "arrayAvg") (by decide) hgrowth.derives
  have hnames := tokens_averages.2
  have htokens : scriptTokens (growthCall x y) = Token.name "arrayAvg" :: Token.leftParen ::
      (Token.name "arrayPercentageGrowth" :: Token.leftParen ::
        (scriptTokens x ++ Token.comma :: scriptTokens y) ++ [Token.rightParen]) ++
          [Token.rightParen] := by
    simp only [growthCall, scriptTokens_cons, scriptTokens_append, scriptTokens_nil, tokens_mark,
      hnames _ (List.mem_cons_self ..), hnames _ (List.mem_cons_of_mem _ (List.mem_cons_self ..))]
    rfl
  rwa [htokens]

theorem reads_growthPieces (hz : Reads (scriptTokens z) g) :
    Reads (scriptTokens (growthPieces x y z)) (.call "arrayAvg"
      [.binary .multiply (.binary .divide (.binary .subtract e f) g) (natExpr 100)]) := by
  have hdifference := (hx.binary hy .subtract).enclosed
  have hquotient := (hdifference.binary hz .divide).enclosed
  have hproduct := hquotient.binary (Reads.number (Number.ofDecimal 100 0)) .multiply
  have haverage := Reads.call_one (n := "arrayAvg") (by decide) hproduct
  have hfactor : ((Piece.numeral ['1', '0', '0']).renamed .standard).inScript.tokens =
      [.number (Number.ofDecimal 100 0)] := by decide +kernel
  have htokens : scriptTokens (growthPieces x y z) = Token.name "arrayAvg" :: Token.leftParen ::
      (Token.leftParen :: (Token.leftParen :: (scriptTokens x ++ Operator.subtract.token ::
        scriptTokens y) ++ [Token.rightParen] ++ Operator.divide.token :: scriptTokens z) ++
          [Token.rightParen] ++ [Operator.multiply.token, Token.number (Number.ofDecimal 100 0)]) ++
            [Token.rightParen] := by
    simp only [growthPieces, enclosed, scriptTokens_cons, scriptTokens_append, scriptTokens_nil,
      tokens_mark, tokens_averages.1, hfactor]
    rfl
  rwa [htokens]

end

/-! ### Columns of numbers -/

/-- The mean of the numbers other than NaN, or zero if there are none. -/
def mean (xs : List Float) : Float :=
  let counted := xs.filter (!·.isNaN)
  if counted.isEmpty then 0 else counted.foldl (· + ·) 0 / Float.ofNat counted.length

/-- The growth from `y` to `x` in percent, or zero where there is nothing to compare with. -/
def growthPercent (x y : Float) : Float :=
  if y == 0 || y.isNaN || x.isNaN then 0 else (x - y) / y * 100

/-- The differences of `xs` and `ys` in percent of `zs`, up to the end of the shortest. -/
def percentages (xs ys zs : List Float) : List Float :=
  List.zipWith (fun d z => d / z * 100) (List.zipWith (· - ·) xs ys) zs

/-- The data from a spreadsheet row on. The row number is read as a float. -/
def fromRow (row : Nat) (xs : List Float) : List Float :=
  xs.drop ((Number.toInt (Number.ofDecimal row 0)).toNat - 2)

theorem fromRow_two (xs : List Float) : fromRow 2 xs = xs := by
  rw [fromRow, Number.toInt_ofDecimal (by decide)]
  rfl

theorem countedNumbers_numbers (xs : List Float) :
    Library.countedNumbers [.array (xs.map .number)] = xs.filter (!·.isNaN) := by
  have hitems : Library.allValues [.array (xs.map .number)] = xs.map .number := by
    simp [Library.allValues, Value.items, List.flatMap_map, ← List.map_eq_flatMap]
  have hcounted : ∀ x, Library.countedNumber? (.number x) = Option.guard (!·.isNaN) x := by
    intro x
    cases hx : x.isNaN <;> simp only [Library.countedNumber?, Option.guard, hx] <;> rfl
  rw [Library.countedNumbers, hitems, List.filterMap_map, ← List.filterMap_eq_filter]
  exact congrArg (List.filterMap · xs) (funext hcounted)

theorem average_numbers (xs : List Float) :
    Library.average [.array (xs.map .number)] = .number (mean xs) := by
  simp only [Library.average, countedNumbers_numbers, mean]
  split <;> rfl

theorem growth_numbers (xs ys : List Float) :
    Library.growth (.array (xs.map .number)) (.array (ys.map .number)) =
      .array ((List.zipWith growthPercent xs ys).map .number) := by
  have hrate : ∀ x y, Library.growthRate (.number x) (.number y) = .number (growthPercent x y) := by
    intro x y
    exact (apply_ite Value.number _ _ _).symm
  simp [Library.growth, Value.items, List.zipWith_map, List.map_zipWith, hrate]

section

variable {f : Value → Value → Value} {g : Float → Float → Float}

/-- Two arrays of numbers are combined number by number. -/
theorem combine_numbers {xs ys : List Float}
    (h : ∀ x, ∀ y ∈ ys, f (.number x) (.number y) = .number (g x y)) :
    Value.combine f (.array (xs.map .number)) (.array (ys.map .number)) =
      .array ((List.zipWith g xs ys).map .number) := by
  rw [Value.combine]
  congr 1
  induction xs generalizing ys with
  | nil => simp [Value.combineItems]
  | cons x xs ih =>
      cases ys with
      | nil => simp [Value.combineItems]
      | cons y ys =>
          have hrest := ih fun x w (hw : w ∈ ys) => h x w (by simp [hw])
          simp [Value.combineItems, Value.combine, Value.map, h, hrest]

theorem combine_numbers_single {xs : List Float} {y : Float}
    (h : ∀ x, f (.number x) (.number y) = .number (g x y)) :
    Value.combine f (.array (xs.map .number)) (.number y) =
      .array ((xs.map (g · y)).map .number) := by
  rw [Value.combine, Value.combineItems_single _ _ _ rfl]
  simp [Value.combine, Value.map, h]

end

/-! ### The value of the two forms -/

theorem ColumnOf.eval_fetchFrom {t : Table} {letters : Capitals} {name : String} {xs : List Float}
    (h : ColumnOf t letters name (xs.map .number)) (today : Calendar.Date) (row : Nat) :
    eval ⟨some t, today⟩ (.call "getColumnData" [.text name, natExpr row]) =
      .ok (.array ((fromRow row xs).map .number)) := by
  rw [eval_columnFrom (h.column?_eq today), ← List.map_drop, List.map_map]
  rfl

theorem eval_average {ctx : Context} {e : Expr} {xs : List Float}
    (h : eval ctx e = .ok (.array (xs.map .number))) :
    eval ctx (.call "arrayAvg" [e]) = .ok (.number (mean xs)) := by
  have hresolve : resolveCall "arrayAvg" 1 = .ok .average := rfl
  rw [eval]
  simp [hresolve, evalAll, h, Builtin.apply, average_numbers]

section

variable {ctx : Context} {e f g : Expr} {xs ys zs : List Float}
  (he : eval ctx e = .ok (.array (xs.map .number)))
  (hf : eval ctx f = .ok (.array (ys.map .number)))
include he hf

theorem eval_growthCall : eval ctx (.call "arrayAvg" [.call "arrayPercentageGrowth" [e, f]]) =
    .ok (.number (mean (List.zipWith growthPercent xs ys))) := by
  have hresolve : resolveCall "arrayPercentageGrowth" 2 = .ok .growth := rfl
  refine eval_average ?_
  rw [eval]
  simp [hresolve, evalAll, he, hf, Builtin.apply, growth_numbers]

theorem eval_growthExpr (hg : eval ctx g = .ok (.array (zs.map .number)))
    (hzero : ∀ z ∈ zs, (z == 0) = false) :
    eval ctx (.call "arrayAvg"
        [.binary .multiply (.binary .divide (.binary .subtract e f) g) (natExpr 100)]) =
      .ok (.number (mean (percentages xs ys zs))) := by
  have hdifference : eval ctx (.binary .subtract e f) =
      .ok (.array ((List.zipWith (· - ·) xs ys).map .number)) := by
    rw [eval_binary (by simp) (by simp) he hf]
    exact congrArg Except.ok (combine_numbers fun _ _ _ => rfl)
  have hquotient : eval ctx (.binary .divide (.binary .subtract e f) g) =
      .ok (.array ((List.zipWith (· / ·) (List.zipWith (· - ·) xs ys) zs).map .number)) := by
    rw [eval_binary (by simp) (by simp) hdifference hg, combine_numbers]
    intro x z hz
    simp [binaryValue, Value.toFloat, Value.toFloat?, hzero z hz]
  have hfactor : eval ctx (natExpr 100) = .ok (.number 100) := by
    rw [natExpr, eval]
    rfl
  have hproduct : eval ctx
      (.binary .multiply (.binary .divide (.binary .subtract e f) g) (natExpr 100)) =
        .ok (.array (((List.zipWith (· / ·) (List.zipWith (· - ·) xs ys) zs).map (· * 100)).map
          .number)) := by
    rw [eval_binary (by simp) (by simp) hquotient hfactor]
    exact congrArg Except.ok (combine_numbers_single fun _ => rfl)
  rw [List.map_zipWith] at hproduct
  exact eval_average hproduct

end

/-- The value of a formula over columns if no growth is looked for. -/
def plainValue (today : Calendar.Date) (t : Table) (formula : List Char) :
    Except ScriptError Value :=
  let text := resolve (.columns t.schema) formula
  Dashboard.evaluate today t (.ofList (writeOperators (FunctionTable.standard.apply text)))

section

variable {t : Table} {x y z : Capitals} {current previous base : String} {xs ys zs : List Float}
  (hx : ColumnOf t x current (xs.map .number)) (hy : ColumnOf t y previous (ys.map .number))
  (today : Calendar.Date) {a b c : Nat}
include hx hy

theorem columnValue_growth (z : Capitals) :
    columnValue today t (averageGrowth (rangeText x (some a)) (rangeText y (some b))
        (rangeText z (some c))) =
      .ok (.number (mean (List.zipWith growthPercent xs ys))) := by
  have hread : read (columnScript .standard t.schema (.ofList ('=' :: averageGrowth
      (rangeText x (some a)) (rangeText y (some b)) (rangeText z (some c))))).toList = .ok (.call
        "arrayAvg" [.call "arrayPercentageGrowth"
          [.call "getColumnData" [.text current, natExpr 2],
            .call "getColumnData" [.text previous, natExpr 2]]]) := by
    simp only [columnScript, String.toList_ofList, script, bodyScript]
    rw [writeGrowth_averageGrowth hx.nameAt hy.nameAt, resolve_growthCall]
    exact read_ground (isOperand_growthCall (isOperand_fetchFrom _ _) (isOperand_fetchFrom _ _))
      (isGround_growthCall (isGround_fetchFrom _ _) (isGround_fetchFrom _ _))
      (reads_growthCall (reads_fetchFrom current 2) (reads_fetchFrom previous 2)).derives
  have hcurrent := hx.eval_fetchFrom today 2
  have hprevious := hy.eval_fetchFrom today 2
  rw [fromRow_two] at hcurrent hprevious
  simp only [columnValue, Dashboard.evaluate, run, hread]
  exact eval_growthCall hcurrent hprevious

theorem plainValue_growth (hz : ColumnOf t z base (zs.map .number))
    (hletters : ∀ letters ∈ [x, y, z], String.ofList letters.chars ∉ t.schema.names)
    (hzero : ∀ d ∈ zs, (d == 0) = false) (ha : 2 ≤ a) (hb : 2 ≤ b) (hc : 2 ≤ c)
    (hheaders : ∀ header ∈ t.schema.names, header.toList ≠ percentTail c) :
    plainValue today t (averageGrowth (rangeText x (some a)) (rangeText y (some b))
        (rangeText z (some c))) =
      .ok (.number (mean (percentages (fromRow a xs) (fromRow b ys) (fromRow c zs)))) := by
  have hresolve := resolve_averageGrowth hx.nameAt hy.nameAt hz.nameAt hletters ha hb hc hheaders
  have hread := read_ground
    (isOperand_growthPieces (isOperand_fetchFrom current a) (isOperand_fetchFrom previous b)
      (isOperand_fetchFrom base c))
    (isGround_growthPieces (isGround_fetchFrom current a) (isGround_fetchFrom previous b)
      (isGround_fetchFrom base c))
    (reads_growthPieces (reads_fetchFrom current a) (reads_fetchFrom previous b)
      (reads_fetchFrom base c)).derives
  simp only [plainValue, Dashboard.evaluate, run, hresolve, String.toList_ofList, hread]
  exact eval_growthExpr (hx.eval_fetchFrom today a) (hy.eval_fetchFrom today b)
    (hz.eval_fetchFrom today c) fun d hd => hzero d (List.mem_of_mem_drop hd)

end

/-- The rates of a column compared with itself are the same for both forms, if there is something to
compare with in every row. -/
theorem percentages_self {xs ys : List Float} (hzero : ∀ d ∈ ys, (d == 0) = false)
    (hnan : ∀ d ∈ xs ++ ys, d.isNaN = false) :
    percentages xs ys ys = List.zipWith growthPercent xs ys := by
  induction xs generalizing ys with
  | nil => rfl
  | cons x xs ih =>
      cases ys with
      | nil => rfl
      | cons y ys =>
          have hrest := ih (fun d (hd : d ∈ ys) => hzero d (by simp [hd])) fun d hd =>
            hnan d (by rcases List.mem_append.1 hd with hd | hd <;> simp [hd])
          have hy := hzero y (by simp)
          have hrate : growthPercent x y = (x - y) / y * 100 := by
            rw [growthPercent, hy, hnan y (by simp), hnan x (by simp)]
            rfl
          rw [List.zipWith_cons_cons, ← hrest, hrate]
          rfl

/-- An average growth over columns of numbers has the mean of the growth rates of its first two
columns as its value, whatever its start rows and its third column are. Without the call that it is
written as, it would have the mean of the differences in percent of the third column, each from its
start row on. For the growth of one column over the other from the second row on the two are the
same. One header would be found in the plain form: the text from the last start row on. -/
theorem columnValue_averageGrowth {t : Table} {x y z : Capitals} {current previous base : String}
    {xs ys zs : List Float} (hx : ColumnOf t x current (xs.map .number))
    (hy : ColumnOf t y previous (ys.map .number)) (hz : ColumnOf t z base (zs.map .number))
    (hletters : ∀ letters ∈ [x, y, z], String.ofList letters.chars ∉ t.schema.names)
    (hzero : ∀ d ∈ zs, (d == 0) = false) {a b c : Nat} (ha : 2 ≤ a) (hb : 2 ≤ b) (hc : 2 ≤ c)
    (today : Calendar.Date) :
    let formula :=
      averageGrowth (rangeText x (some a)) (rangeText y (some b)) (rangeText z (some c))
    columnValue today t formula = .ok (.number (mean (List.zipWith growthPercent xs ys))) ∧
      ((∀ header ∈ t.schema.names, header.toList ≠ percentTail c) →
        plainValue today t formula =
          .ok (.number (mean (percentages (fromRow a xs) (fromRow b ys) (fromRow c zs)))) ∧
        (zs = ys → a = 2 → b = 2 → c = 2 → (∀ d ∈ xs ++ ys, d.isNaN = false) →
          columnValue today t formula = plainValue today t formula)) := by
  have hcolumn := columnValue_growth hx hy today z (a := a) (b := b) (c := c)
  refine ⟨hcolumn, fun hheaders => ?_⟩
  have hplain := plainValue_growth hx hy today hz hletters hzero ha hb hc hheaders
  refine ⟨hplain, ?_⟩
  rintro rfl rfl rfl rfl hnan
  rw [hcolumn, hplain, fromRow_two, fromRow_two, percentages_self hzero hnan]

/-- Headers that parts of the script are spelled like, and a start row that the call ignores. -/
theorem columnValue_averageGrowth_calls :
    let t : Table := ⟨⟨["getColumnData", "3))/getColumnData", "AVERAGE"]⟩,
      [[.number 110, .number 60], [.number 100, .number 40], [.number 50, .number 80]], 2⟩
    let today : Calendar.Date := ⟨2024, 3, 15⟩
    ColumnOf t ⟨['A'], by decide, by decide⟩ "getColumnData" ([110, 60].map .number) ∧
      ColumnOf t ⟨['B'], by decide, by decide⟩ "3))/getColumnData" ([100, 40].map .number) ∧
      ColumnOf t ⟨['C'], by decide, by decide⟩ "AVERAGE" ([50, 80].map .number) ∧
      columnValue today t "AVERAGE(((A2:A-B3:B)/C2:C)*100)".toList = .ok (.number 30) ∧
      plainValue today t "AVERAGE(((A2:A-B3:B)/C2:C)*100)".toList = .ok (.number 140) ∧
      columnValue today t "AVERAGE(((A2:A-B2:B)/B2:B)*100)".toList =
        plainValue today t "AVERAGE(((A2:A-B2:B)/B2:B)*100)".toList := by
  intro t today
  have ha : ColumnOf t ⟨['A'], by decide, by decide⟩ "getColumnData" ([110, 60].map .number) :=
    ⟨by decide +kernel, by decide +kernel, rfl⟩
  have hb : ColumnOf t ⟨['B'], by decide, by decide⟩ "3))/getColumnData" ([100, 40].map .number) :=
    ⟨by decide +kernel, by decide +kernel, rfl⟩
  have hc : ColumnOf t ⟨['C'], by decide, by decide⟩ "AVERAGE" ([50, 80].map .number) :=
    ⟨by decide +kernel, by decide +kernel, rfl⟩
  have hheaders : ∀ header ∈ t.schema.names, header.toList ≠ percentTail 2 := by decide +kernel
  obtain ⟨hcall, hplain⟩ := columnValue_averageGrowth ha hb hc (by decide) (by decide +kernel)
    (a := 2) (b := 3) (c := 2) (by decide) (by decide) (by decide) today
  obtain ⟨-, hsame⟩ := columnValue_averageGrowth ha hb hb (by decide) (by decide +kernel)
    (a := 2) (b := 2) (c := 2) (by decide) (by decide) (by decide) today
  have hgrowth : mean (List.zipWith growthPercent [110, 60] [100, 40]) = 30 := by decide +kernel
  have hpercent : mean (percentages (fromRow 2 [110, 60]) (fromRow 3 [100, 40])
      (fromRow 2 [50, 80])) = 140 := by decide +kernel
  have htext : averageGrowth (rangeText ⟨['A'], by decide, by decide⟩ (some 2))
      (rangeText ⟨['B'], by decide, by decide⟩ (some 3))
      (rangeText ⟨['C'], by decide, by decide⟩ (some 2)) =
        "AVERAGE(((A2:A-B3:B)/C2:C)*100)".toList := by decide +kernel
  have hidiom : averageGrowth (rangeText ⟨['A'], by decide, by decide⟩ (some 2))
      (rangeText ⟨['B'], by decide, by decide⟩ (some 2))
      (rangeText ⟨['B'], by decide, by decide⟩ (some 2)) =
        "AVERAGE(((A2:A-B2:B)/B2:B)*100)".toList := by decide +kernel
  rw [hgrowth, htext] at hcall
  rw [hpercent, htext] at hplain
  rw [hidiom] at hsame
  exact ⟨ha, hb, hc, hcall, (hplain hheaders).1,
    (hsame hheaders).2 rfl rfl rfl rfl (by decide +kernel)⟩

/-- The third column is lost: a growth by ten is a fifth of fifty, and not a tenth. -/
theorem columnValue_growth_base :
    let t : Table := ⟨⟨["cur", "prev", "base"]⟩, [[.number 110], [.number 100], [.number 50]], 1⟩
    let today : Calendar.Date := ⟨2024, 3, 15⟩
    columnValue today t "AVERAGE(((A2:A-B2:B)/C2:C)*100)".toList = .ok (.number 10) ∧
      plainValue today t "AVERAGE(((A2:A-B2:B)/C2:C)*100)".toList = .ok (.number 20) := by
  intro t today
  have ha : ColumnOf t ⟨['A'], by decide, by decide⟩ "cur" ([110].map .number) :=
    ⟨by decide +kernel, by decide +kernel, rfl⟩
  have hb : ColumnOf t ⟨['B'], by decide, by decide⟩ "prev" ([100].map .number) :=
    ⟨by decide +kernel, by decide +kernel, rfl⟩
  have hc : ColumnOf t ⟨['C'], by decide, by decide⟩ "base" ([50].map .number) :=
    ⟨by decide +kernel, by decide +kernel, rfl⟩
  have hcall := columnValue_growth ha hb today ⟨['C'], by decide, by decide⟩
    (a := 2) (b := 2) (c := 2)
  have hplain := plainValue_growth ha hb today hc (by decide) (by decide +kernel)
    (a := 2) (b := 2) (c := 2) (by decide) (by decide) (by decide) (by decide +kernel)
  have hgrowth : mean (List.zipWith growthPercent [110] [100]) = 10 := by decide +kernel
  have hpercent : mean (percentages (fromRow 2 [110]) (fromRow 2 [100]) (fromRow 2 [50])) = 20 := by
    decide +kernel
  have htext : averageGrowth (rangeText ⟨['A'], by decide, by decide⟩ (some 2))
      (rangeText ⟨['B'], by decide, by decide⟩ (some 2))
      (rangeText ⟨['C'], by decide, by decide⟩ (some 2)) =
        "AVERAGE(((A2:A-B2:B)/C2:C)*100)".toList := by decide +kernel
  rw [hgrowth, htext] at hcall
  rw [hpercent, htext] at hplain
  exact ⟨hcall, hplain⟩

end SheetBoard.Script
