import SheetBoard.Proofs.Formula.AverageGrowth

/-! The lookup `INDEX(values, MATCH("key", keys))` over columns, under headers of any spelling. It
is no growth, its ranges become fetches, and no header is found in what it becomes. -/

namespace SheetBoard.Formula

/-! ### Formulas without an average -/

section

variable {before : Option Char} {w rest : List Char}

/-- Text stays where nothing is found in it. -/
theorem replaces_kept {α : Type} {find : Pattern α}
    {form : Option Char → α → List Char → Option (List Char)}
    (h : ∀ before y, y <:+ w → y ≠ [] → find before (y ++ rest) = none) :
    Replaces (editOf find form) before w w rest := by
  induction w generalizing before with
  | nil => rfl
  | cons c w ih =>
      have hc : Replaces (editOf find form) before [c] [c] (w ++ rest) :=
        replaces_char (h before (c :: w) (List.suffix_refl _) (by simp))
      exact hc.append (ih fun before y hy => h before y (hy.trans (List.suffix_cons c w)))

/-- A growth starts with its word and a parenthesis. -/
theorem average_of_growthFormula {cs : List Char} {found : List Char × List Char}
    (h : growthFormula before cs = some (found, rest)) :
    ∃ w tail, w.map Char.toUpper = averageWord ∧ cs = w ++ '(' :: tail := by
  unfold growthFormula at h
  obtain ⟨_, hword, h⟩ := Option.bind_eq_some_iff.1 h
  rw [guard_eq_ite] at hword
  split at h
  · rename_i tail hdrop
    have hcs := List.take_append_drop "AVERAGE".toList.length cs
    rw [hdrop] at hcs
    refine ⟨_, tail, ?_, hcs.symm⟩
    split at hword
    · rename_i hsame
      exact eq_of_beq hsame
    · cases hword
  · cases h

theorem growthFormula_word_eq_none (hw : ∀ c ∈ w, isNameChar c = true)
    (hrest : rest.head?.any isNameChar = false)
    (hcall : w.map Char.toUpper = averageWord → rest.head? ≠ some '(') :
    growthFormula before (w ++ rest) = none := by
  cases hfound : growthFormula before (w ++ rest) with
  | none => rfl
  | some result =>
      obtain ⟨v, tail, hv, hcs⟩ := average_of_growthFormula hfound
      obtain ⟨rfl, rfl⟩ := eq_of_average_append hw hrest hv hcs
      exact absurd rfl (hcall hv)

variable {form : Option Char → List Char × List Char → List Char → Option (List Char)}

theorem replaces_growth_plain (hw : ∀ c ∈ w, isNameStart c = false) :
    Replaces (editOf growthFormula form) before w w rest := by
  refine replaces_kept fun before y hy hne => ?_
  obtain ⟨c, y, rfl⟩ := List.exists_cons_of_ne_nil hne
  cases hfound : growthFormula before (c :: y ++ rest) with
  | none => rfl
  | some result =>
      obtain ⟨v, tail, hv, hcs⟩ := average_of_growthFormula hfound
      have hc := hw c (hy.subset (by simp))
      cases v with
      | nil => cases hv
      | cons d v =>
          obtain rfl : c = d := (List.cons.inj hcs).1
          rw [isNameStart_of_average hv c (by simp)] at hc
          cases hc

theorem replaces_growth_word (hw : ∀ c ∈ w, isNameChar c = true)
    (hrest : rest.head?.any isNameChar = false) (hcall : rest.head? ≠ some '(') :
    Replaces (editOf growthFormula form) before w w rest :=
  replaces_kept fun _ _ hy _ => growthFormula_word_eq_none (fun c hc => hw c (hy.subset hc)) hrest
    fun _ => hcall

/-- A call stays if its name does not end like the word of the growth. -/
theorem replaces_growth_callee (hw : ∀ c ∈ w, isNameChar c = true)
    (haverage : ¬averageWord <:+ w.map Char.toUpper) :
    Replaces (editOf growthFormula form) before (w ++ ['(']) (w ++ ['(']) rest := by
  refine replaces_kept fun before y hy hne => ?_
  rcases List.suffix_concat_iff.1 hy with rfl | ⟨v, rfl, hv⟩
  · exact absurd rfl hne
  · rw [List.append_assoc]
    refine growthFormula_word_eq_none (fun c hc => hw c (hv.subset hc)) rfl fun hword => ?_
    rw [← hword] at haverage
    exact absurd (hv.map Char.toUpper) haverage

end

theorem writesPiece_growth {p : Piece} (hvalid : p.Valid) (hliteral : p.isLiteral = false)
    (hparticle : ∀ w, p ≠ .mark (.particle w))
    (haverage : ∀ name, p = .callee name → ¬averageWord <:+ name.map Char.toUpper)
    (form : Option Char → List Char × List Char → List Char → Option (List Char)) :
    WritesPiece growthFormula form (fun p => [p]) p := by
  intro before rest _ hrest
  rw [textOf_cons, textOf_nil, List.append_nil]
  have hname : ∀ w, IsName w → p.ends = true →
      Replaces (editOf growthFormula form) before w w rest := fun w hw hends =>
    replaces_growth_word hw.all ((hrest hends).any (by decide)) ((hrest hends).head?_ne (by decide))
  cases p with
  | mark m =>
      refine replaces_growth_plain ?_
      cases m with
      | particle w => exact absurd rfl (hparticle w)
      | operator op => cases op <;> decide
      | scriptOperator op => cases op <;> decide
      | _ => decide
  | callee name =>
      have hcallee : IsName name := hvalid
      exact replaces_growth_callee hcallee.all (haverage name rfl)
  | numeral digits =>
      refine replaces_growth_plain fun c hc => ?_
      rcases isDigit_or_point_of_isNumeral hvalid c hc with hc | rfl
      · exact isNameStart_of_isDigit hc
      · decide
  | literal value => cases hliteral
  | truth capitals value =>
      refine hname _ ?_ rfl
      cases capitals <;> cases value <;> decide
  | reference r =>
      cases r with
      | cell letters row => exact hname _ (.cell letters row) rfl
      | header name => exact hname _ hvalid.1 rfl
      | range letters first last =>
          -- Two names with a colon between them.
          have hfirst : Replaces (editOf growthFormula form) before
              (letters.chars ++ rowDigits first) (letters.chars ++ rowDigits first)
              (':' :: (letters.chars ++ rowDigits last) ++ rest) :=
            replaces_growth_word (IsName.row letters first).all rfl (by simp)
          have hcolon : Replaces (editOf growthFormula form)
              (lastChar before (letters.chars ++ rowDigits first)) [':'] [':']
              (letters.chars ++ rowDigits last ++ rest) := replaces_growth_plain (by decide)
          have hlast : Replaces (editOf growthFormula form)
              (lastChar (lastChar before (letters.chars ++ rowDigits first)) [':'])
              (letters.chars ++ rowDigits last) (letters.chars ++ rowDigits last) rest :=
            replaces_growth_word (IsName.row letters last).all ((hrest rfl).any (by decide))
              ((hrest rfl).head?_ne (by decide))
          exact hfirst.append (hcolon.append hlast)

/-- A formula without a call of an average is left as it is. -/
theorem writeGrowth_textOf {ps : List Piece} (hchain : ps.IsChain Piece.Adjacent)
    (hvalid : ∀ p ∈ ps, p.Valid) (hparticle : ∀ w, .mark (.particle w) ∉ ps)
    (haverage : ∀ name, .callee name ∈ ps → ¬averageWord <:+ name.map Char.toUpper)
    (schema : Schema) : writeGrowth schema (textOf ps) = textOf ps := by
  have hpass : writeGrowth schema (textOf ps) = textOf (ps.flatMap fun p => [p]) := by
    refine editUnquoted_textOf hchain hvalid (fun p hp hliteral => ?_) fun _ => rfl
    refine writesPiece_growth (hvalid p hp) hliteral ?_ ?_ _
    · rintro w rfl
      exact hparticle w hp
    · rintro name rfl
      exact haverage name hp
  rwa [List.flatMap_singleton'] at hpass

/-! ### The formula in pieces -/

/-- The pieces of a call with two arguments and a blank between them. -/
def pairCall (word : List Char) (a b : List Piece) : List Piece :=
  .callee word :: (a ++ .mark .listComma :: b) ++ [.mark .right]

def indexWord : List Char := "INDEX".toList

def matchWord : List Char := "MATCH".toList

/-- The pieces of `INDEX(values, MATCH("key", keys))`. -/
def lookupPieces (values : List Piece) (key : List Char) (keys : List Piece) : List Piece :=
  pairCall indexWord values (pairCall matchWord [.literal key] keys)

/-- The text `INDEX(values, MATCH("key", keys))`. -/
def lookupText (values key keys : List Char) : List Char :=
  let place := matchWord ++ Tree.parenthesised (quote key ++ [',', ' '] ++ keys)
  indexWord ++ Tree.parenthesised (values ++ [',', ' '] ++ place)

theorem textOf_lookupPieces (values : List Piece) (key : List Char) (keys : List Piece) :
    textOf (lookupPieces values key keys) = lookupText (textOf values) key (textOf keys) := by
  simp [lookupPieces, pairCall, lookupText, Tree.parenthesised, Piece.text, Mark.text]

section

variable {values keys : List Piece}

theorem isOperand_lookupPieces (hvalues : IsOperand values) (hkeys : IsOperand keys)
    (key : List Char) : IsOperand (lookupPieces values key keys) := by
  have hcall : ∀ word {a b}, IsOperand a → IsOperand b → IsOperand (pairCall word a b) :=
    fun word a b ha hb =>
      .group rfl rfl (.inr (ha.infixed hb (m := .listComma) rfl (by simp) (by simp)))
  exact hcall _ hvalues (hcall _ (.single rfl rfl) hkeys)

/-- What holds of both ranges and of the pieces around them holds of all pieces. -/
theorem forall_lookupPieces {P : Piece → Prop} {key : List Char} (hvalues : ∀ p ∈ values, P p)
    (hkeys : ∀ p ∈ keys, P p) (haround : ∀ p ∈ lookupPieces [] key [], P p) :
    ∀ p ∈ lookupPieces values key keys, P p := by
  simp only [lookupPieces, pairCall, List.cons_append, List.nil_append, List.forall_mem_cons,
    List.forall_mem_append] at haround ⊢
  simp_all

theorem isGround_aroundLookup (key : List Char) : ∀ p ∈ lookupPieces [] key [], p.IsGround := by
  have hindex : IsName indexWord := by decide
  have hmatch : IsName matchWord := by decide
  simp only [lookupPieces, pairCall, List.forall_mem_cons, List.cons_append, List.nil_append]
  exact ⟨hindex, rfl, hmatch, trivial, rfl, rfl, rfl, by simp⟩

end

theorem flatMap_lookupPieces (scope : Scope) (kind : Ref → Bool) (values : List Piece)
    (key : List Char) (keys : List Piece) :
    (lookupPieces values key keys).flatMap (scope.write kind) =
      lookupPieces (values.flatMap (scope.write kind)) key (keys.flatMap (scope.write kind)) := by
  simp [lookupPieces, pairCall, Scope.write]

/-! ### The formula resolved -/

section

variable (x y : Capitals) (a b : Nat) (key : List Char)

theorem textOf_lookupRanges : textOf (lookupPieces (rangeFrom y b) key (rangeFrom x a)) =
    lookupText (rangeText y (some b)) key (rangeText x (some a)) := by
  rw [textOf_lookupPieces]
  simp [rangeFrom, Piece.text, Ref.text, rangeText, rowDigits_none]

theorem isOperand_lookupRanges : IsOperand (lookupPieces (rangeFrom y b) key (rangeFrom x a)) :=
  isOperand_lookupPieces (.single rfl rfl) (.single rfl rfl) key

theorem valid_lookupRanges :
    ∀ p ∈ lookupPieces (rangeFrom y b) key (rangeFrom x a), p.Valid := by
  have hrange : ∀ letters row, ∀ p ∈ rangeFrom letters row, p.Valid := by
    simp [rangeFrom, Piece.Valid, Ref.IsPlain]
  exact forall_lookupPieces (hrange y b) (hrange x a)
    fun p hp => (isGround_aroundLookup key p hp).valid

theorem writeGrowth_lookup (schema : Schema) :
    writeGrowth schema (lookupText (rangeText y (some b)) key (rangeText x (some a))) =
      lookupText (rangeText y (some b)) key (rangeText x (some a)) := by
  rw [← textOf_lookupRanges]
  refine writeGrowth_textOf (isOperand_lookupRanges x y a b key).chain
    (valid_lookupRanges x y a b key) ?_ ?_ schema
  · simp [lookupPieces, pairCall, rangeFrom]
  · intro name hname
    have hword : name ∈ [indexWord, matchWord] := by
      simpa [lookupPieces, pairCall, rangeFrom] using hname
    have hwords : ∀ word ∈ [indexWord, matchWord], ¬averageWord <:+ word.map Char.toUpper := by
      decide
    exact hwords name hword

end

/-- Both ranges are fetched under the names of their columns. -/
theorem resolve_lookup {schema : Schema} {x y : Capitals} {keyName valueName : String}
    (hx : schema.nameAt? x.chars = some keyName) (hy : schema.nameAt? y.chars = some valueName)
    (hletters : ∀ letters ∈ [x, y], String.ofList letters.chars ∉ schema.names) {a b : Nat}
    (ha : 2 ≤ a) (hb : 2 ≤ b) (key : List Char) :
    resolve (.columns schema) (lookupText (rangeText y (some b)) key (rangeText x (some a))) =
      textOf (lookupPieces (fetchFrom valueName b) key (fetchFrom keyName a)) := by
  have hoperand := isOperand_lookupPieces (isOperand_fetchFrom valueName b)
    (isOperand_fetchFrom keyName a) key
  have hground := forall_lookupPieces (isGround_fetchFrom valueName b)
    (isGround_fetchFrom keyName a) (isGround_aroundLookup key)
  have hranges : RangesOf schema (lookupPieces (rangeFrom y b) key (rangeFrom x a)) :=
    forall_lookupPieces (rangesOf_range hy (hletters y (by simp)) _)
      (rangesOf_range hx (hletters x (by simp)) _)
      fun p hp r hr => absurd hr ((isGround_aroundLookup key p hp).ne_reference r)
  have hwrite : (lookupPieces (rangeFrom y b) key (rangeFrom x a)).flatMap
      ((Scope.columns schema).write fun _ => true) =
        lookupPieces (fetchFrom valueName b) key (fetchFrom keyName a) := by
    rw [flatMap_lookupPieces, flatMap_rangeFrom hy hb, flatMap_rangeFrom hx ha]
  rw [← textOf_lookupRanges, resolve_ranges (isOperand_lookupRanges x y a b key).chain
    (valid_lookupRanges x y a b key) hranges hwrite hoperand hground]
  -- The only numbers are the start rows, and neither of them ends a header.
  refine resolve_ground hoperand hground fun header hheader => ?_
  have hrow : ∀ n, ¬EndsWith header.toList ([',', ' '] ++ Number.digitsOf n) :=
    fun n => not_endsWith_row (isSearchable_of_mem_searchedNames hheader)
  exact ⟨hrow b, hrow a, trivial⟩

end SheetBoard.Formula
