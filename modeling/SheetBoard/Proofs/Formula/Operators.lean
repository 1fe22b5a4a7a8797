import SheetBoard.Proofs.Formula.Replacing

/-! Operators in pieces: outside literals each operator is written as scripts write it, and nothing
else changes. -/

namespace SheetBoard.Formula

/-- The piece as scripts write it. -/
def Piece.inScript : Piece → Piece
  | .mark (.operator op) => .mark (.scriptOperator op)
  | p => p

/-- The operator that joins texts. -/
def Piece.isConcat : Piece → Bool
  | .mark m => m = .operator .concat
  | _ => false

/-- Text of names with points in them, such as the names of a library's members. -/
structure IsMember (cs : List Char) : Prop where
  start : cs.head?.any isNameStart = true
  all : ∀ c ∈ cs, isNameChar c = true ∨ c = '.'

instance (cs : List Char) : Decidable (IsMember cs) :=
  decidable_of_iff (cs.head?.any isNameStart = true ∧ ∀ c ∈ cs, isNameChar c = true ∨ c = '.')
    ⟨fun h => ⟨h.1, h.2⟩, fun h => ⟨h.start, h.all⟩⟩

theorem IsName.isMember {cs : List Char} (h : IsName cs) : IsMember cs :=
  ⟨h.start, fun c hc => .inl (h.all c hc)⟩

theorem IsMember.exists_cons {cs : List Char} (h : IsMember cs) :
    ∃ c rest, cs = c :: rest ∧ isNameStart c = true := by
  cases cs with
  | nil => cases h.start
  | cons c rest => exact ⟨c, rest, rfl, h.start⟩

theorem IsMember.unquoted {cs : List Char} (h : IsMember cs) : Unquoted cs := by
  intro c hc
  rcases h.all c hc with hname | rfl
  · exact isQuote_of_isNameChar hname
  · rfl

/-- Like a valid piece, but callees may be members. -/
def Piece.Legible : Piece → Prop
  | .callee name => IsMember name
  | p => p.Valid

theorem Piece.Valid.legible {p : Piece} (h : p.Valid) : p.Legible := by
  cases p with
  | callee name => exact IsName.isMember h
  | _ => exact h

/-! ### The ends of a piece -/

/-- An operand may start with this character, signs apart. -/
def opensOperand (c : Char) : Bool := isNameChar c || c = '(' || c = '"'

/-- An operand may end with this character. -/
def closesOperand (c : Char) : Bool := isNameChar c || c = ')' || c = '"'

theorem isBlank_of_opensOperand {c : Char} (h : opensOperand c = true) :
    Text.isBlank c = false := by
  rcases (by simpa [opensOperand, or_assoc] using h : isNameChar c = true ∨ c = '(' ∨ c = '"')
    with hname | rfl | rfl
  · exact isBlank_of_isNameChar hname
  · decide
  · decide

theorem IsName.opens {w : List Char} (h : IsName w) : w.head?.any opensOperand = true := by
  obtain ⟨c, tail, rfl, hc⟩ := h.exists_cons
  simp [opensOperand, isNameChar_of_isNameStart hc]

theorem IsName.closes {w : List Char} (h : IsName w) : w.getLast?.any closesOperand = true := by
  rw [List.getLast?_eq_some_getLast h.ne_nil, Option.any_some]
  simp [closesOperand, h.all _ (List.getLast_mem _)]

theorem any_head?_append {α : Type} {p : α → Bool} {a : List α} (h : a.head?.any p = true)
    (b : List α) : (a ++ b).head?.any p = true := by
  cases a with
  | nil => cases h
  | cons c a => exact h

theorem any_getLast?_append {α : Type} {p : α → Bool} {b : List α} (h : b.getLast?.any p = true)
    (a : List α) : (a ++ b).getLast?.any p = true := by
  have hb : b ≠ [] := by
    rintro rfl
    cases h
  rwa [List.getLast?_append_of_ne_nil _ hb]

theorem closes_numeral (n : Number.Numeral) : n.text.getLast?.any closesOperand = true := by
  have hdigits : ∀ ds : List Char, ds ≠ [] → (∀ c ∈ ds, Number.isDigit c = true) →
      ds.getLast?.any closesOperand = true := by
    intro ds hne hall
    rw [List.getLast?_eq_some_getLast hne, Option.any_some]
    simp [closesOperand, isNameChar_of_isDigit (hall _ (List.getLast_mem _))]
  unfold Number.Numeral.text
  split
  · simpa using hdigits n.whole n.whole_ne_nil n.whole_digits
  · rename_i hfraction
    refine any_getLast?_append ?_ n.whole
    rw [List.getLast?_cons_of_ne_nil hfraction]
    exact hdigits n.fraction hfraction n.fraction_digits

theorem Piece.Legible.opens {p : Piece} (h : p.Legible) (hstarts : p.starts = true)
    (hsign : p ≠ .mark .negation) : p.text.head?.any opensOperand = true := by
  cases p with
  | mark m =>
      have hm : m = .left ∨ m = .negation := by simpa [Piece.starts] using hstarts
      rcases hm with rfl | rfl
      · decide
      · exact absurd rfl hsign
  | callee name =>
      obtain ⟨hstart, -⟩ : IsMember name := h
      obtain ⟨c, tail, rfl, hc⟩ : ∃ c tail, name = c :: tail ∧ isNameStart c = true := by
        cases name with
        | nil => cases hstart
        | cons c tail => exact ⟨c, tail, rfl, hstart⟩
      simp [Piece.text, opensOperand, isNameChar_of_isNameStart hc]
  | numeral digits =>
      obtain ⟨n, rfl⟩ := h
      obtain ⟨c, tail, htext, hc⟩ := n.text_eq_cons
      rw [Piece.text, htext]
      simp [opensOperand, isNameChar_of_isDigit hc]
  | literal value => rfl
  | truth capitals value => cases capitals <;> cases value <;> decide
  | reference r =>
      cases r with
      | cell letters row => exact (IsName.cell letters row).opens
      | range letters first last =>
          exact any_head?_append (IsName.row letters first).opens _
      | header name => exact (h.1 : IsName name.toList).opens

theorem Piece.Legible.closes {p : Piece} (h : p.Legible) (hends : p.ends = true) :
    p.text.getLast?.any closesOperand = true := by
  cases p with
  | mark m =>
      have hm : m = .right := by simpa [Piece.ends] using hends
      subst hm
      decide
  | callee name => cases hends
  | numeral digits =>
      obtain ⟨n, rfl⟩ := h
      exact closes_numeral n
  | literal value =>
      exact any_getLast?_append (b := ['"']) (by decide) _
  | truth capitals value => cases capitals <;> cases value <;> decide
  | reference r =>
      cases r with
      | cell letters row => exact (IsName.cell letters row).closes
      | range letters first last =>
          rw [Piece.text, Ref.text, List.append_cons]
          exact any_getLast?_append (IsName.row letters last).closes _
      | header name => exact (h.1 : IsName name.toList).closes

/-! ### Text without operators -/

/-- The text has no quote and no character that is an operator or part of one. -/
def Quiet (cs : List Char) : Prop := ∀ c ∈ cs, isQuote c = false ∧ c ∉ ['&', '=', '<', '>']

instance (cs : List Char) : Decidable (Quiet cs) :=
  inferInstanceAs (Decidable (∀ c ∈ cs, isQuote c = false ∧ c ∉ ['&', '=', '<', '>']))

theorem Quiet.append {a b : List Char} (ha : Quiet a) (hb : Quiet b) : Quiet (a ++ b) := by
  intro c hc
  rcases List.mem_append.mp hc with hc | hc
  · exact ha c hc
  · exact hb c hc

theorem quiet_of_isNameChar {cs : List Char} (h : ∀ c ∈ cs, isNameChar c = true ∨ c = '.') :
    Quiet cs := by
  intro c hc
  rcases h c hc with hname | rfl
  · refine ⟨isQuote_of_isNameChar hname, fun hmem => ?_⟩
    rcases (by simpa using hmem : c = '&' ∨ c = '=' ∨ c = '<' ∨ c = '>') with rfl | rfl | rfl | rfl
    all_goals exact absurd hname (by decide)
  · decide

theorem IsName.quiet {cs : List Char} (h : IsName cs) : Quiet cs :=
  quiet_of_isNameChar h.isMember.all

/-- The piece is an operator, in either spelling. -/
def Piece.isOperator : Piece → Bool
  | .mark (.operator _) => true
  | .mark (.scriptOperator _) => true
  | _ => false

theorem Mark.quiet_text : ∀ m : Mark, (Piece.mark m).isOperator = false → Quiet m.text :=
  of_all (by decide)

theorem Piece.Legible.quiet {p : Piece} (h : p.Legible) (hliteral : p.isLiteral = false)
    (hoperator : p.isOperator = false) : Quiet p.text := by
  cases p with
  | mark m => exact m.quiet_text hoperator
  | callee name => exact (quiet_of_isNameChar (h : IsMember name).all).append (by decide)
  | numeral digits =>
      refine quiet_of_isNameChar fun c hc => ?_
      exact (isDigit_or_point_of_isNumeral h c hc).imp_left isNameChar_of_isDigit
  | literal value => cases hliteral
  | truth capitals value => cases capitals <;> cases value <;> decide
  | reference r =>
      cases r with
      | cell letters row => exact (IsName.cell letters row).quiet
      | range letters first last =>
          have hcolon : Quiet [':'] := by decide
          exact (IsName.row letters first).quiet.append
            (hcolon.append (IsName.row letters last).quiet)
      | header name => exact (h.1 : IsName name.toList).quiet

/-! ### One piece -/

/-- Text without operators is copied. -/
theorem writeOperatorsFrom_quiet {x : List Char} (hx : Quiet x) (seen out rest : List Char) :
    writeOperatorsFrom .outside false seen out (x ++ rest) =
      writeOperatorsFrom .outside false (x.reverse ++ seen) (x.reverse ++ out) rest := by
  induction x generalizing seen out with
  | nil => rfl
  | cons c x ih =>
      obtain ⟨hquote, hoperator⟩ := hx c (by simp)
      simp only [List.mem_cons, List.not_mem_nil, or_false, not_or] at hoperator
      obtain ⟨hamp, heq, hless, hgreater⟩ := hoperator
      rw [List.cons_append, writeOperatorsFrom]
      simp only [hamp, heq, hless, hgreater, QuoteState.step_outside hquote, ne_eq,
        not_true_eq_false, if_false, false_and, Bool.false_eq_true]
      rw [ih fun d hd => hx d (by simp [hd])]
      simp

/-- No blanks are skipped where an operand starts. -/
theorem writeOperatorsFrom_skipping {x : List Char} (hx : x.head?.any opensOperand = true)
    (seen out rest : List Char) :
    writeOperatorsFrom .outside true seen out (x ++ rest) =
      writeOperatorsFrom .outside false seen out (x ++ rest) := by
  cases x with
  | nil => cases hx
  | cons c x =>
      have hblank : Text.isBlank c = false := isBlank_of_opensOperand hx
      rw [List.cons_append, writeOperatorsFrom, writeOperatorsFrom]
      simp [hblank]

theorem writeOperatorsFrom_escaped {x : List Char} (h : Escaped x) (seen out rest : List Char) :
    writeOperatorsFrom (.inside '"') false seen out (x ++ rest) =
      writeOperatorsFrom (.inside '"') false (x.reverse ++ seen) (x.reverse ++ out) rest := by
  induction h generalizing seen out with
  | nil => rfl
  | plain hmark hslash _ ih => simp [hmark, hslash, writeOperatorsFrom, QuoteState.step, ih]
  | slash c _ ih => simp [writeOperatorsFrom, QuoteState.step, ih]

/-- A literal is copied. -/
theorem writeOperatorsFrom_quote (s seen out rest : List Char) :
    writeOperatorsFrom .outside false seen out (quote s ++ rest) =
      writeOperatorsFrom .outside false ((quote s).reverse ++ seen) ((quote s).reverse ++ out)
        rest := by
  rw [quote_append, writeOperatorsFrom]
  simp only [QuoteState.step_open]
  simp [writeOperatorsFrom_escaped (escaped_escape s), writeOperatorsFrom, quote]

theorem ne_of_closesOperand {c d : Char} (hc : closesOperand c = true)
    (hd : closesOperand d = false) : c ≠ d := by
  rintro rfl
  rw [hc] at hd
  cases hd

theorem isOperandChar_of_closesOperand {c : Char} (h : closesOperand c = true) :
    (isOperandChar c || c = ')' || isQuote c) = true := by
  rcases (by simpa [closesOperand, or_assoc] using h : isNameChar c = true ∨ c = ')' ∨ c = '"')
    with hname | rfl | rfl
  · simp [isOperandChar_of_isNameChar hname]
  · decide
  · decide

theorem isBlank_of_closesOperand {c : Char} (h : closesOperand c = true) :
    Text.isBlank c = false := by
  rcases (by simpa [closesOperand, or_assoc] using h : isNameChar c = true ∨ c = ')' ∨ c = '"')
    with hname | rfl | rfl
  · exact isBlank_of_isNameChar hname
  · decide
  · decide

theorem isOperandChar_of_opensOperand {c : Char} (h : opensOperand c = true) :
    (isOperandChar c || c = '(' || isQuote c) = true := by
  rcases (by simpa [opensOperand, or_assoc] using h : isNameChar c = true ∨ c = '(' ∨ c = '"')
    with hname | rfl | rfl
  · simp [isOperandChar_of_isNameChar hname]
  · decide
  · decide

theorem joinsOperands_of_operands {seen rest : List Char}
    (hseen : seen.head?.any closesOperand = true) (hrest : rest.head?.any opensOperand = true) :
    joinsOperands seen rest = true := by
  cases seen with
  | nil => cases hseen
  | cons c seen =>
      cases rest with
      | nil => cases hrest
      | cons d rest =>
          have hc : closesOperand c = true := hseen
          have hd : opensOperand d = true := hrest
          have hleft : c ≠ '&' := ne_of_closesOperand hc (by decide)
          have hright : d ≠ '&' := by
            rintro rfl
            cases hd
          have hleftEnd := isOperandChar_of_closesOperand hc
          have hrightStart := isOperandChar_of_opensOperand hd
          simp only [joinsOperands, List.dropWhile_cons, isBlank_of_closesOperand hc,
            isBlank_of_opensOperand hd, Bool.false_eq_true, if_false, List.head?_cons,
            Option.any_some, hleftEnd, hrightStart]
          simp [hleft, hright]

/-- An operator between two operands is written as scripts write it. -/
theorem writeOperatorsFrom_operator (op : Operator) {seen out rest : List Char}
    (hseen : seen.head?.any closesOperand = true) (hout : out.head?.any Text.isBlank = false)
    (hrest : rest.head?.any opensOperand = true ∨ op ≠ .concat ∧ rest.head? = some '-') :
    writeOperatorsFrom .outside false seen out (op.text ++ rest) =
      writeOperatorsFrom .outside (Piece.mark (.operator op)).isConcat (op.text.reverse ++ seen)
        (op.scriptText.reverse ++ out) rest := by
  have hrestNe : ∀ c, opensOperand c = false → c ≠ '-' → rest.head? ≠ some c := by
    intro c hopens hsign hhead
    rcases hrest with hrest | ⟨-, hrest⟩
    · simp [hhead, hopens] at hrest
    · simp [hhead, hsign] at hrest
  have hequal := hrestNe '=' (by decide) (by decide)
  have hgreater := hrestNe '>' (by decide) (by decide)
  cases seen with
  | nil => cases hseen
  | cons c seen =>
      have hc : closesOperand c = true := hseen
      have hseenNe := fun d => ne_of_closesOperand (d := d) hc
      have hcomparison : partOfComparison (c :: seen) rest = false := by
        simp [partOfComparison, hequal, hseenNe '=' (by decide), hseenNe '!' (by decide),
          hseenNe '<' (by decide), hseenNe '>' (by decide)]
      cases op with
      | concat =>
          have hjoins := joinsOperands_of_operands hseen (hrest.resolve_right (by simp))
          have hkept : out.dropWhile Text.isBlank = out := by
            cases out with
            | nil => rfl
            | cons d out => exact List.dropWhile_cons_of_neg (by simpa using hout)
          simp [Operator.text, Operator.scriptText, writeOperatorsFrom, Piece.isConcat, hjoins,
            hkept]
      | equal =>
          simp [Operator.text, Operator.scriptText, writeOperatorsFrom, Piece.isConcat, hcomparison]
      | less =>
          simp [Operator.text, Operator.scriptText, writeOperatorsFrom, Piece.isConcat, hgreater,
            QuoteState.step, isQuote]
      | greater =>
          simp [Operator.text, Operator.scriptText, writeOperatorsFrom, Piece.isConcat,
            hseenNe '<' (by decide), QuoteState.step, isQuote]
      | greaterEqual =>
          simp [Operator.text, Operator.scriptText, writeOperatorsFrom, Piece.isConcat,
            hseenNe '<' (by decide), QuoteState.step, isQuote, partOfComparison]
      | _ =>
          simp [Operator.text, Operator.scriptText, writeOperatorsFrom, Piece.isConcat,
            QuoteState.step, isQuote, partOfComparison]

/-! ### All pieces -/

theorem Piece.Legible.text_ne_nil {p : Piece} (h : p.Legible) : p.text ≠ [] := by
  cases p with
  | callee name => simp [Piece.text]
  | _ => exact Piece.Valid.text_ne_nil h

theorem Piece.Legible.inScript_text_ne_nil {p : Piece} (h : p.Legible) : p.inScript.text ≠ [] := by
  cases p with
  | mark m =>
      cases m with
      | operator op => exact (Mark.scriptOperator op).text_ne_nil
      | _ => exact h.text_ne_nil
  | _ => exact h.text_ne_nil

/-- A piece that is no operator is copied. -/
theorem writeOperatorsFrom_copied {p : Piece} (hp : p.Legible) (hoperator : p.isOperator = false)
    {skipping : Bool} (hskipping : skipping = true → p.text.head?.any opensOperand = true)
    (seen out rest : List Char) :
    writeOperatorsFrom .outside skipping seen out (p.text ++ rest) =
      writeOperatorsFrom .outside false (p.text.reverse ++ seen) (p.text.reverse ++ out) rest := by
  have hstart : writeOperatorsFrom .outside skipping seen out (p.text ++ rest) =
      writeOperatorsFrom .outside false seen out (p.text ++ rest) := by
    cases skipping with
    | false => rfl
    | true => exact writeOperatorsFrom_skipping (hskipping rfl) seen out rest
  rw [hstart]
  cases hliteral : p.isLiteral with
  | false => exact writeOperatorsFrom_quiet (hp.quiet hliteral hoperator) seen out rest
  | true =>
      cases p with
      | literal s => exact writeOperatorsFrom_quote s seen out rest
      | _ => cases hliteral

theorem Piece.inScript_of_ends {p : Piece} (h : p.ends = true) : p.inScript = p := by
  cases p with
  | mark m =>
      obtain rfl : m = .right := by simpa [Piece.ends] using h
      rfl
  | _ => rfl

theorem Piece.inScript_of_not_isOperator {p : Piece} (h : p.isOperator = false) :
    p.inScript = p ∧ p.isConcat = false := by
  cases p with
  | mark m =>
      cases m with
      | operator op => cases h
      | _ => exact ⟨rfl, by simp [Piece.isConcat]⟩
  | _ => exact ⟨rfl, rfl⟩

/-- The texts that the scan has seen and written end with the piece, in its two spellings. -/
structure StandsAfter (p : Piece) (seen out : List Char) : Prop where
  seen : seen.head? = p.text.getLast?
  out : out.head? = p.inScript.text.getLast?

theorem standsAfter_reverse {p : Piece} (hp : p.text ≠ []) (hscript : p.inScript.text ≠ [])
    (seen out : List Char) :
    StandsAfter p (p.text.reverse ++ seen) (p.inScript.text.reverse ++ out) := by
  have hhead : ∀ a b : List Char, a ≠ [] → (a.reverse ++ b).head? = a.getLast? := by
    intro a b ha
    rw [List.head?_append_of_ne_nil _ (by simpa using ha), List.head?_reverse]
  exact ⟨hhead _ _ hp, hhead _ _ hscript⟩

/-- Behind an operator an operand follows. -/
theorem opens_textOf {op : Operator} {ps : List Piece}
    (hchain : (.mark (.operator op) :: ps).IsChain Piece.Adjacent)
    (hlegible : ∀ p ∈ ps, p.Legible)
    (hends : (Piece.mark (.operator op) :: ps).getLast?.any Piece.ends = true) :
    (textOf ps).head?.any opensOperand = true ∨ op ≠ .concat ∧ (textOf ps).head? = some '-' := by
  cases ps with
  | nil => cases hends
  | cons p ps =>
      obtain ⟨hstarts, hsign⟩ : p.starts = true ∧ (op = .concat → p ≠ .mark .negation) := by
        simpa [Piece.Adjacent, Piece.ends, Piece.opens] using (List.isChain_cons_cons.1 hchain).1
      by_cases hp : p = .mark .negation
      · subst hp
        exact .inr ⟨fun hop => hsign hop rfl, rfl⟩
      · exact .inl (any_head?_append ((hlegible p (by simp)).opens hstarts hp) (textOf ps))

/-- What a piece after another one does to the scan. -/
theorem writeOperatorsFrom_next {p q : Piece} {ps : List Piece}
    (hchain : (p :: q :: ps).IsChain Piece.Adjacent) (hlegible : ∀ r ∈ p :: q :: ps, r.Legible)
    (hscript : ∀ op, q ≠ .mark (.scriptOperator op))
    (hends : (q :: ps).getLast?.any Piece.ends = true) {seen out : List Char}
    (h : StandsAfter p seen out) :
    writeOperatorsFrom .outside p.isConcat seen out (q.text ++ textOf ps) =
      writeOperatorsFrom .outside q.isConcat (q.text.reverse ++ seen)
        (q.inScript.text.reverse ++ out) (textOf ps) := by
  have hp := hlegible p (by simp)
  have hq := hlegible q (by simp)
  have hpq := (List.isChain_cons_cons.1 hchain).1
  cases hoperator : q.isOperator with
  | false =>
      obtain ⟨hsame, hconcat⟩ := Piece.inScript_of_not_isOperator hoperator
      rw [hsame, hconcat]
      refine writeOperatorsFrom_copied hq hoperator (fun hjoins => ?_) seen out _
      obtain rfl : p = .mark (.operator .concat) := by
        cases p with
        | mark m => simpa [Piece.isConcat] using hjoins
        | _ => cases hjoins
      obtain ⟨hstarts, hsign⟩ : q.starts = true ∧ q ≠ .mark .negation := by
        simpa [Piece.Adjacent, Piece.ends, Piece.opens] using hpq
      exact hq.opens hstarts hsign
  | true =>
      obtain ⟨op, rfl⟩ : ∃ op, q = .mark (.operator op) := by
        cases q with
        | mark m =>
            cases m with
            | operator op => exact ⟨op, rfl⟩
            | scriptOperator op => exact absurd rfl (hscript op)
            | _ => cases hoperator
        | _ => cases hoperator
      -- An operator follows only the end of an operand.
      have hpends : p.ends = true := by
        cases hpends : p.ends with
        | true => rfl
        | false => simp [Piece.Adjacent, hpends, Piece.starts] at hpq
      have hclosed := hp.closes hpends
      have hjoins : p.isConcat = false := by
        cases p with
        | mark m =>
            obtain rfl : m = .right := by simpa [Piece.ends] using hpends
            rfl
        | _ => rfl
      have hout : out.head?.any Text.isBlank = false := by
        rw [h.out, Piece.inScript_of_ends hpends]
        cases hlast : p.text.getLast? with
        | none => rfl
        | some c =>
            rw [hlast] at hclosed
            exact isBlank_of_closesOperand hclosed
      rw [hjoins]
      exact writeOperatorsFrom_operator op (by rwa [h.seen]) hout
        (opens_textOf hchain.tail (fun r hr => hlegible r (by simp [hr])) hends)

theorem writeOperatorsFrom_textOf {p : Piece} {ps : List Piece}
    (hchain : (p :: ps).IsChain Piece.Adjacent) (hlegible : ∀ q ∈ p :: ps, q.Legible)
    (hscript : ∀ op, .mark (.scriptOperator op) ∉ ps)
    (hends : (p :: ps).getLast?.any Piece.ends = true) {seen out : List Char}
    (h : StandsAfter p seen out) :
    writeOperatorsFrom .outside p.isConcat seen out (textOf ps) =
      out.reverse ++ textOf (ps.map Piece.inScript) := by
  induction ps generalizing p seen out with
  | nil => simp [writeOperatorsFrom]
  | cons q ps ih =>
      have hqends : (q :: ps).getLast?.any Piece.ends = true := by
        rwa [List.getLast?_cons_cons] at hends
      have hq := hlegible q (by simp)
      rw [textOf_cons, writeOperatorsFrom_next hchain hlegible
        (fun op hop => hscript op (by simp [hop])) hqends h]
      rw [ih hchain.tail (fun r hr => hlegible r (by simp [hr]))
        (fun op hop => hscript op (by simp [hop])) hqends
        (standsAfter_reverse hq.text_ne_nil hq.inScript_text_ne_nil seen out)]
      simp

/-- Outside literals every operator is written as scripts write it. -/
theorem writeOperators_textOf {ps : List Piece} (h : IsOperand ps) (hlegible : ∀ p ∈ ps, p.Legible)
    (hscript : ∀ op, .mark (.scriptOperator op) ∉ ps) :
    writeOperators (textOf ps) = textOf (ps.map Piece.inScript) := by
  cases ps with
  | nil => rfl
  | cons p ps =>
      have hp := hlegible p (by simp)
      have hoperator : p.isOperator = false := by
        have hstarts := h.starts_of_mem (p := p) rfl
        cases p with
        | mark m =>
            cases m with
            | operator op => cases hstarts
            | scriptOperator op => cases hstarts
            | _ => rfl
        | _ => rfl
      obtain ⟨hsame, hconcat⟩ := Piece.inScript_of_not_isOperator hoperator
      have hstands := standsAfter_reverse hp.text_ne_nil hp.inScript_text_ne_nil [] []
      rw [hsame] at hstands
      have hrun := writeOperatorsFrom_textOf h.chain hlegible
        (fun op hop => hscript op (by simp [hop])) h.ends hstands
      rw [hconcat] at hrun
      unfold writeOperators
      rw [textOf_cons, writeOperatorsFrom_copied hp hoperator (by simp), hrun]
      simp [hsame]

end SheetBoard.Formula
