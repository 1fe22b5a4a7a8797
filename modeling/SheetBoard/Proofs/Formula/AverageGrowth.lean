import Mathlib.Data.Option.Basic
import SheetBoard.Proofs.Formula.Fetching

/-! The average growth over columns, under headers of any spelling: what the passes make of the
formula piece by piece, and how it is found and written as one call. -/

namespace SheetBoard.Formula

/-! ### The formula in pieces -/

def averageWord : List Char := "AVERAGE".toList

/-- The pieces of `AVERAGE(((x-y)/z)*100)`. -/
def growthPieces (x y z : List Piece) : List Piece :=
  let difference := enclosed (x ++ .mark (.operator .subtract) :: y)
  let quotient := enclosed (difference ++ .mark (.operator .divide) :: z)
  .callee averageWord ::
    (quotient ++ [.mark (.operator .multiply), .numeral ['1', '0', '0']]) ++ [.mark .right]

/-- The pieces of the call that the formula is written as. -/
def growthCall (x y : List Piece) : List Piece :=
  .callee "arrayAvg".toList ::
    (.callee "arrayPercentageGrowth".toList :: (x ++ .mark .listComma :: y) ++ [.mark .right]) ++
      [.mark .right]

/-- The text `AVERAGE(((x-y)/z)*100)`. -/
def averageGrowth (x y z : List Char) : List Char :=
  averageWord ++ Tree.parenthesised (growthText x y z)

theorem textOf_growthPieces (x y z : List Piece) :
    textOf (growthPieces x y z) = averageGrowth (textOf x) (textOf y) (textOf z) := by
  simp [growthPieces, averageGrowth, growthText, textOf_enclosed, Tree.parenthesised, Piece.text,
    Mark.text, Operator.text]

section

variable {x y z : List Piece} (hx : IsOperand x) (hy : IsOperand y)
include hx hy

theorem isOperand_growthPieces (hz : IsOperand z) : IsOperand (growthPieces x y z) := by
  have hdifference := (hx.infixed hy (m := .operator .subtract) rfl (by simp) (by simp)).enclosed
  have hquotient :=
    (hdifference.infixed hz (m := .operator .divide) rfl (by simp) (by simp)).enclosed
  have hfactor : IsOperand [.numeral ['1', '0', '0']] := .single rfl rfl
  exact .group rfl rfl
    (.inr (hquotient.infixed hfactor (m := .operator .multiply) rfl (by simp) (by simp)))

theorem isOperand_growthCall : IsOperand (growthCall x y) :=
  .group rfl rfl (.inr (.group rfl rfl
    (.inr (hx.infixed hy (m := .listComma) rfl (by simp) (by simp)))))

end

/-- What holds of the operands and of the pieces around them holds of all pieces. -/
theorem forall_growthPieces {P : Piece → Prop} {x y z : List Piece} (hx : ∀ p ∈ x, P p)
    (hy : ∀ p ∈ y, P p) (hz : ∀ p ∈ z, P p) (haround : ∀ p ∈ growthPieces [] [] [], P p) :
    ∀ p ∈ growthPieces x y z, P p := by
  simp only [growthPieces, enclosed, List.cons_append, List.nil_append, List.forall_mem_cons,
    List.forall_mem_append] at haround ⊢
  simp_all

/-- A range of a column from a row on. -/
def rangeFrom (letters : Capitals) (row : Nat) : List Piece :=
  [.reference (.range letters (some row) none)]

/-- The call that fetches a column from a row on. -/
def fetchFrom (name : String) (row : Nat) : List Piece :=
  fetchPieces "getColumnData" name (some row)

theorem isOperand_fetchFrom (name : String) (row : Nat) : IsOperand (fetchFrom name row) :=
  (fetchPieces_operand (by decide) name _).1

theorem isGround_fetchFrom (name : String) (row : Nat) : ∀ p ∈ fetchFrom name row, p.IsGround :=
  isGround_fetchPieces (by decide) name _

theorem isGround_around : ∀ p ∈ growthPieces [] [] [], p.IsGround := by
  have hname : IsName averageWord := by decide
  have hfactor : ['1', '0', '0'] = Number.digitsOf 100 := by decide +kernel
  simp only [growthPieces, enclosed, List.forall_mem_cons, List.cons_append, List.nil_append]
  exact ⟨hname, rfl, rfl, rfl, rfl, rfl, rfl, rfl, ⟨100, hfactor⟩, rfl, by simp⟩

theorem isGround_growthPieces {x y z : List Piece} (hx : ∀ p ∈ x, p.IsGround)
    (hy : ∀ p ∈ y, p.IsGround) (hz : ∀ p ∈ z, p.IsGround) :
    ∀ p ∈ growthPieces x y z, p.IsGround := forall_growthPieces hx hy hz isGround_around

theorem isGround_growthCall {x y : List Piece} (hx : ∀ p ∈ x, p.IsGround)
    (hy : ∀ p ∈ y, p.IsGround) : ∀ p ∈ growthCall x y, p.IsGround := by
  have haverage : IsName "arrayAvg".toList := by decide
  have hgrowth : IsName "arrayPercentageGrowth".toList := by decide
  simp only [growthCall, List.cons_append, List.forall_mem_cons, List.forall_mem_append]
  exact ⟨haverage, hgrowth, ⟨⟨hx, rfl, hy⟩, rfl, by simp⟩, rfl, by simp⟩

theorem valid_growthRanges (x y z : Capitals) (a b c : Nat) :
    ∀ p ∈ growthPieces (rangeFrom x a) (rangeFrom y b) (rangeFrom z c),
      p.Valid ∧ p.isLiteral = false := by
  have hrange : ∀ letters row, ∀ p ∈ rangeFrom letters row, p.Valid ∧ p.isLiteral = false := by
    simp [rangeFrom, Piece.Valid, Ref.IsPlain, Piece.isLiteral]
  have haround : ∀ p ∈ growthPieces [] [] [], p.isLiteral = false := by
    simp [growthPieces, enclosed, Piece.isLiteral]
  exact forall_growthPieces (hrange x a) (hrange y b) (hrange z c)
    fun p hp => ⟨(isGround_around p hp).valid, haround p hp⟩

theorem textOf_growthRanges (x y z : Capitals) (a b c : Nat) :
    textOf (growthPieces (rangeFrom x a) (rangeFrom y b) (rangeFrom z c)) =
      averageGrowth (rangeText x (some a)) (rangeText y (some b)) (rangeText z (some c)) := by
  rw [textOf_growthPieces]
  simp [rangeFrom, Piece.text, Ref.text, rangeText, rowDigits_none]

/-! ### The formula resolved -/

/-- What a row number, two parentheses and the factor of a percentage spell together. -/
def percentTail (n : Nat) : List Char := Number.digitsOf n ++ [')', ')', '*', '1', '0', '0']

theorem not_endsWith_percentTail {header : String} (hheader : isSearchable header = true) {n : Nat}
    (hne : header.toList ≠ percentTail n) :
    ¬EndsWith header.toList ([',', ' '] ++ percentTail n) := by
  intro h
  have hbounded := bounded_of_isSearchable hheader
  have hdigits : ∀ c ∈ Number.digitsOf n, isNameChar c = true := fun c hc =>
    isNameChar_of_isDigit (Number.isDigit_of_mem_digitsOf hc)
  rcases suffix_or_eq_of_endsWith hbounded (by decide +kernel) hdigits h with hsuffix | hsame
  · have hfactor := hbounded.infix_of_append_left (a := [')', ')', '*']) (by decide +kernel)
      hsuffix.isInfix
    exact not_infix_numeral hheader (.ofNat 100) hfactor
  · exact hne hsame

theorem resolve_growthCall (scope : Scope) (current previous : String) :
    resolve scope (textOf (growthCall (fetchFrom current 2) (fetchFrom previous 2))) =
      textOf (growthCall (fetchFrom current 2) (fetchFrom previous 2)) := by
  refine resolve_ground (isOperand_growthCall (isOperand_fetchFrom _ _) (isOperand_fetchFrom _ _))
    (isGround_growthCall (isGround_fetchFrom _ _) (isGround_fetchFrom _ _)) fun header hheader => ?_
  have hrow := not_endsWith_row (isSearchable_of_mem_searchedNames hheader) (n := 2)
  exact ⟨hrow, hrow, trivial⟩

theorem flatMap_growthPieces (scope : Scope) (kind : Ref → Bool) (x y z : List Piece) :
    (growthPieces x y z).flatMap (scope.write kind) =
      growthPieces (x.flatMap (scope.write kind)) (y.flatMap (scope.write kind))
        (z.flatMap (scope.write kind)) := by
  simp [growthPieces, enclosed, Scope.write]

theorem flatMap_rangeFrom {schema : Schema} {letters : Capitals} {name : String}
    (h : schema.nameAt? letters.chars = some name) {row : Nat} (hrow : 2 ≤ row) :
    (rangeFrom letters row).flatMap ((Scope.columns schema).write fun _ => true) =
      fetchFrom name row := by
  have hsome : (some row).filter (· ≠ 1) = some row := by
    have hne : row ≠ 1 := by omega
    simp [hne]
  simp only [rangeFrom, fetchFrom, List.flatMap_singleton, Scope.write, Scope.pieces, columnName, h,
    hsome]
  rfl

theorem resolve_averageGrowth {schema : Schema} {x y z : Capitals}
    {current previous base : String} (hx : schema.nameAt? x.chars = some current)
    (hy : schema.nameAt? y.chars = some previous) (hz : schema.nameAt? z.chars = some base)
    (hletters : ∀ letters ∈ [x, y, z], String.ofList letters.chars ∉ schema.names) {a b c : Nat}
    (ha : 2 ≤ a) (hb : 2 ≤ b) (hc : 2 ≤ c)
    (hheaders : ∀ header ∈ schema.names, header.toList ≠ percentTail c) :
    resolve (.columns schema) (averageGrowth (rangeText x (some a)) (rangeText y (some b))
        (rangeText z (some c))) =
      textOf (growthPieces (fetchFrom current a) (fetchFrom previous b) (fetchFrom base c)) := by
  have hoperand := isOperand_growthPieces (isOperand_fetchFrom current a)
    (isOperand_fetchFrom previous b) (isOperand_fetchFrom base c)
  have hground := isGround_growthPieces (isGround_fetchFrom current a)
    (isGround_fetchFrom previous b) (isGround_fetchFrom base c)
  have hrange : ∀ (letters : Capitals) (row : Nat), IsOperand (rangeFrom letters row) :=
    fun _ _ => .single rfl rfl
  have hchain := (isOperand_growthPieces (hrange x a) (hrange y b) (hrange z c)).chain
  have hvalid : ∀ p ∈ growthPieces (rangeFrom x a) (rangeFrom y b) (rangeFrom z c), p.Valid :=
    fun p hp => (valid_growthRanges x y z a b c p hp).1
  have hranges : RangesOf schema (growthPieces (rangeFrom x a) (rangeFrom y b) (rangeFrom z c)) :=
    forall_growthPieces (rangesOf_range hx (hletters x (by simp)) _)
      (rangesOf_range hy (hletters y (by simp)) _) (rangesOf_range hz (hletters z (by simp)) _)
      fun p hp r hr => absurd hr ((isGround_around p hp).ne_reference r)
  have hwrite : (growthPieces (rangeFrom x a) (rangeFrom y b) (rangeFrom z c)).flatMap
      ((Scope.columns schema).write fun _ => true) =
        growthPieces (fetchFrom current a) (fetchFrom previous b) (fetchFrom base c) := by
    rw [flatMap_growthPieces, flatMap_rangeFrom hx ha, flatMap_rangeFrom hy hb,
      flatMap_rangeFrom hz hc]
  rw [← textOf_growthRanges, resolve_ranges hchain hvalid hranges hwrite hoperand hground]
  refine resolve_ground hoperand hground fun header hheader => ?_
  have hsearchable := isSearchable_of_mem_searchedNames hheader
  have hrow : ∀ n, ¬EndsWith header.toList ([',', ' '] ++ Number.digitsOf n) :=
    fun n => not_endsWith_row hsearchable
  have htail := not_endsWith_percentTail hsearchable
    (hheaders header (mem_names_of_mem_searchedNames hheader))
  refine ⟨hrow a, hrow b, hrow c, ?_, trivial⟩
  simpa [percentTail, Piece.text, Mark.text, Operator.text] using htail

/-! ### The formula as one call -/

theorem read?_rangeText (letters : Capitals) (first : Option Nat) (rest : List Char) :
    Reference.read? (rangeText letters first ++ rest) =
      some (⟨letters.chars, rowDigits first⟩, ':' :: (letters.chars ++ rest)) := by
  have htext : rangeText letters first ++ rest =
      (letters.chars ++ rowDigits first) ++ ':' :: (letters.chars ++ rest) := by simp [rangeText]
  rw [htext, read?_append rfl, read?_row]
  rfl

theorem readRange?_rangeText (letters : Capitals) (first : Option Nat) {rest : List Char}
    (hrest : rest.head?.any isCapital = false) :
    readRange? (rangeText letters first ++ rest) = some (letters.chars, rest) := by
  obtain ⟨d, ds, hchars⟩ := List.exists_cons_of_ne_nil letters.ne_nil
  have hd : isCapital d = true := letters.all d (by simp [hchars])
  have hblank := isBlank_of_isNameChar (isNameChar_of_isNameStart (isNameStart_of_isCapital hd))
  have htrim : Text.trimStart (rangeText letters first ++ rest) =
      rangeText letters first ++ rest := by
    simp [rangeText, hchars, Text.trimStart, hblank]
  have hdigits : (letters.chars ++ rest).dropWhile Text.isDecimalDigit = letters.chars ++ rest := by
    simp [hchars, isDecimalDigit_of_isCapital hd]
  simp [readRange?, htrim, read?_rangeText, hdigits, Number.dropWhile_append_of_all letters.all hrest]

theorem growthFormula_averageGrowth (before : Option Char) (x y z : Capitals) (a b c : Nat) :
    growthFormula before (averageGrowth (rangeText x (some a)) (rangeText y (some b))
      (rangeText z (some c))) = some ((x.chars, y.chars), []) := by
  have htake : ∀ rest, (((averageWord ++ rest).take "AVERAGE".toList.length).map Char.toUpper ==
      "AVERAGE".toList) = true := fun _ => rfl
  have hdrop : ∀ rest, (averageWord ++ rest).drop "AVERAGE".toList.length = rest := fun _ => rfl
  have hopen : ∀ rest, passMark? '(' ('(' :: rest) = some rest := fun _ => rfl
  have hclose : ∀ rest, passMark? ')' (')' :: rest) = some rest := fun _ => rfl
  have hminus : ∀ rest, passMark? '-' ('-' :: rest) = some rest := fun _ => rfl
  have hslash : ∀ rest, passMark? '/' ('/' :: rest) = some rest := fun _ => rfl
  have hstar : ∀ rest, passMark? '*' ('*' :: rest) = some rest := fun _ => rfl
  have hx : ∀ rest, readRange? (rangeText x (some a) ++ '-' :: rest) =
      some (x.chars, '-' :: rest) := fun _ => readRange?_rangeText x _ rfl
  have hyz : ∀ (letters : Capitals) (row : Nat) rest,
      readRange? (rangeText letters (some row) ++ ')' :: rest) =
        some (letters.chars, ')' :: rest) := fun letters _ _ => readRange?_rangeText letters _ rfl
  simp only [growthFormula, averageGrowth, htake, hdrop, guard_true]
  simp only [growthText, Tree.parenthesised, List.cons_append, List.append_assoc, List.nil_append,
    Option.bind_eq_bind, Option.bind_some, hopen, hclose, hminus, hslash, hstar, hx, hyz]
  rfl

/-- The formula is written as one call, in which the third range and the start rows are lost. -/
theorem writeGrowth_averageGrowth {schema : Schema} {x y : Capitals} {current previous : String}
    (hx : schema.nameAt? x.chars = some current) (hy : schema.nameAt? y.chars = some previous)
    (z : Capitals) (a b c : Nat) :
    writeGrowth schema (averageGrowth (rangeText x (some a)) (rangeText y (some b))
        (rangeText z (some c))) =
      textOf (growthCall (fetchFrom current 2) (fetchFrom previous 2)) := by
  have hunquoted : Unquoted (averageGrowth (rangeText x (some a)) (rangeText y (some b))
      (rangeText z (some c))) := by
    rw [← textOf_growthRanges]
    exact unquoted_textOf (valid_growthRanges x y z a b c)
  have hne : averageGrowth (rangeText x (some a)) (rangeText y (some b)) (rangeText z (some c)) ≠
      [] := by simp [averageGrowth, Tree.parenthesised]
  have htext : textOf (growthCall (fetchFrom current 2) (fetchFrom previous 2)) =
      "arrayAvg(arrayPercentageGrowth(getColumnData(".toList ++ quote current.toList ++
        ", 2), getColumnData(".toList ++ quote previous.toList ++ ", 2)))".toList := by
    have hrow : Number.digitsOf 2 = ['2'] := by decide +kernel
    simp [growthCall, fetchFrom, fetchPieces, Piece.text, Mark.text, hrow]
  have hfound := growthFormula_averageGrowth none x y z a b c
  rw [← List.append_nil (averageGrowth _ _ _)] at hfound
  rw [writeGrowth, editUnquoted_eq_self_of_unquoted _ hunquoted rfl, htext]
  exact replaceAll_found hne hfound (by simp [hx, hy])

end SheetBoard.Formula
