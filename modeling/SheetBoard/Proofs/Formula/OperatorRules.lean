import Mathlib.Data.List.TakeWhile
import SheetBoard.Proofs.Formula.Literals

/-! Operators in any text. A few rules say which are written in another way, from the text on both
sides; the pass writes a text by these rules, and no rule is left for what it has written. -/

namespace SheetBoard.Formula

/-! ### Operators that stay -/

/-- The text before a place, last character first, ends with an operand. -/
def endsOperand (seen : List Char) : Bool :=
  (seen.dropWhile Text.isBlank).head?.any fun c => isOperandChar c || c = ')' || isQuote c

/-- The text from a place on starts with an operand. -/
def startsOperand (rest : List Char) : Bool :=
  (rest.dropWhile Text.isBlank).head?.any fun c => isOperandChar c || c = '(' || isQuote c

/-- A second ampersand is no operand, so it need not be looked for. -/
theorem joinsOperands_eq (seen rest : List Char) :
    joinsOperands seen rest = (endsOperand seen && startsOperand rest) := by
  have hampersand : isOperandChar '&' = false := by decide +kernel
  have hblank : Text.isBlank '&' = false := by decide
  have hleft : seen.head? = some '&' → endsOperand seen = false := by
    intro h
    obtain ⟨tail, rfl⟩ := List.head?_eq_some_iff.1 h
    simp [endsOperand, hblank, hampersand, isQuote]
  have hright : rest.head? = some '&' → startsOperand rest = false := by
    intro h
    obtain ⟨tail, rfl⟩ := List.head?_eq_some_iff.1 h
    simp [startsOperand, hblank, hampersand, isQuote]
  rw [joinsOperands, ← endsOperand, ← startsOperand]
  by_cases hseen : seen.head? = some '&'
  · simp [hseen, hleft hseen]
  · by_cases hrest : rest.head? = some '&'
    · simp [hrest, hright hrest]
    · have hne : (seen.head? != some '&') = true ∧ (rest.head? != some '&') = true := by
        simp [hseen, hrest]
      rw [hne.1, hne.2, Bool.true_and, Bool.true_and]

/-- The character is no operator, or not one that is written in another way. -/
structure Kept (seen : List Char) (c : Char) (rest : List Char) : Prop where
  join : c = '&' → (endsOperand seen && startsOperand rest) = false
  equals : c = '=' → partOfComparison seen rest = true
  less : c = '<' → rest.head? ≠ some '>'
  greater : c = '>' → seen.head? ≠ some '<'

theorem Kept.plain {c : Char} (h : c ∉ ['&', '=', '<', '>']) (seen rest : List Char) :
    Kept seen c rest := by
  simp only [List.mem_cons, List.not_mem_nil, or_false, not_or] at h
  obtain ⟨hamp, heq, hless, hgreater⟩ := h
  exact ⟨fun hc => absurd hc hamp, fun hc => absurd hc heq, fun hc => absurd hc hless,
    fun hc => absurd hc hgreater⟩

theorem Kept.of_partOfComparison {seen rest : List Char} (h : partOfComparison seen rest = true) :
    Kept seen '=' rest :=
  ⟨by simp, fun _ => h, by simp, by simp⟩

theorem writeOperatorsFrom_kept {st : QuoteState} {seen : List Char} {c : Char} {rest : List Char}
    (h : st = .outside → Kept seen c rest) (out : List Char) :
    writeOperatorsFrom st false seen out (c :: rest) =
      writeOperatorsFrom (st.step c) false (c :: seen) (c :: out) rest := by
  rw [writeOperatorsFrom]
  by_cases hst : st = .outside
  case neg => rw [if_pos hst]
  obtain ⟨hjoin, hequals, hless, hgreater⟩ := h hst
  subst hst
  have houtside : ¬QuoteState.outside ≠ .outside := not_not_intro rfl
  have hamp : ¬(c = '&' ∧ joinsOperands seen rest = true) := by
    rintro ⟨hc, hjoins⟩
    rw [joinsOperands_eq, hjoin hc] at hjoins
    cases hjoins
  rw [if_neg houtside, if_neg (by simp), if_neg hamp]
  by_cases hc : c = '='
  · subst hc
    rw [if_pos rfl, hequals rfl]
    rfl
  · rw [if_neg hc, if_neg fun hpair => hless hpair.1 hpair.2,
      if_neg fun hpair => hgreater hpair.1 hpair.2]

/-- No operator of the text is written in another way. -/
def AllKept (st : QuoteState) (seen : List Char) : List Char → Prop
  | [] => True
  | c :: rest => (st = .outside → Kept seen c rest) ∧ AllKept (st.step c) (c :: seen) rest

theorem writeOperatorsFrom_of_allKept {st : QuoteState} {seen cs : List Char}
    (h : AllKept st seen cs) (out : List Char) :
    writeOperatorsFrom st false seen out cs = out.reverse ++ cs := by
  induction cs generalizing st seen out with
  | nil => simp [writeOperatorsFrom]
  | cons c cs ih =>
      rw [writeOperatorsFrom_kept h.1, ih h.2]
      simp

/-! ### Operators that are written in another way -/

/-- The operator `a` is written as `b` between the texts `seen` and `rest`. -/
inductive Replaced (seen rest : List Char) : List Char → List Char → Prop where
  | equals (h : partOfComparison seen rest = false) : Replaced seen rest ['='] ['=', '=']
  | differs : Replaced seen rest ['<', '>'] ['!', '=']
  | joined {l r : List Char} (hl : ∀ c ∈ l, Text.isBlank c = true)
      (hr : ∀ c ∈ r, Text.isBlank c = true) (hleft : endsOperand seen = true)
      (hright : startsOperand rest = true) : Replaced seen rest (l ++ '&' :: r) [' ', '+', ' ']

/-- Behind the text `seen`, the text `x` is written as `y`. -/
inductive Operated : QuoteState → List Char → List Char → List Char → Prop where
  | nil (st : QuoteState) (seen : List Char) : Operated st seen [] []
  | kept {st : QuoteState} {seen x y : List Char} {c : Char}
      (h : st = .outside → Kept seen c x) (hrest : Operated (st.step c) (c :: seen) x y) :
      Operated st seen (c :: x) (c :: y)
  | replaced {seen x y a b : List Char} (h : Replaced seen x a b)
      (hrest : Operated .outside (a.reverse ++ seen) x y) :
      Operated .outside seen (a ++ x) (b ++ y)

/-! ### What is written stays -/

/-- The signs that operators are made of. -/
def signs : List Char := ['&', '=', '<', '>', '!', '+']

theorem notMem_signs_of_isBlank {c : Char} (h : Text.isBlank c = true) : c ∉ signs :=
  notMem_of_isBlank h (by decide)

theorem dropWhile_blanks {l : List Char} (hl : ∀ c ∈ l, Text.isBlank c = true) (rest : List Char) :
    (l ++ rest).dropWhile Text.isBlank = rest.dropWhile Text.isBlank := by
  induction l with
  | nil => rfl
  | cons c l ih =>
      rw [List.cons_append, List.dropWhile_cons_of_pos (hl c (by simp))]
      exact ih fun d hd => hl d (by simp [hd])

section

variable {l : List Char} (hl : ∀ c ∈ l, Text.isBlank c = true)
include hl

theorem endsOperand_blanks (seen : List Char) : endsOperand (l ++ seen) = endsOperand seen := by
  rw [endsOperand, dropWhile_blanks hl, ← endsOperand]

theorem startsOperand_blanks (rest : List Char) :
    startsOperand (l ++ rest) = startsOperand rest := by
  rw [startsOperand, dropWhile_blanks hl, ← startsOperand]

end

theorem no_operand_of_mem_signs {c : Char} (h : c ∈ signs) (cs : List Char) :
    startsOperand (c :: cs) = false ∧ endsOperand (c :: cs) = false := by
  have hcheck : ∀ d ∈ signs, Text.isBlank d = false ∧
      (isOperandChar d || d = '(' || isQuote d) = false ∧
      (isOperandChar d || d = ')' || isQuote d) = false := by decide +kernel
  obtain ⟨hblank, hstarts, hends⟩ := hcheck c h
  rw [startsOperand, endsOperand, List.dropWhile_cons_of_neg (by simp [hblank])]
  exact ⟨hstarts, hends⟩

/-- No operand ends with a join and its blanks. -/
theorem endsOperand_join {r : List Char} (hr : ∀ c ∈ r, Text.isBlank c = true)
    (l seen : List Char) : endsOperand ((l ++ '&' :: r).reverse ++ seen) = false := by
  have hback : ∀ c ∈ r.reverse, Text.isBlank c = true := by simpa using hr
  have hjoin := endsOperand_blanks hback ('&' :: (l.reverse ++ seen))
  rw [(no_operand_of_mem_signs (by decide) _).2] at hjoin
  simpa using hjoin

namespace Replaced

variable {seen rest a b : List Char} (h : Replaced seen rest a b)
include h

/-- No operand starts or ends with an operator, in either spelling. -/
theorem no_operand (x y : List Char) : startsOperand (a ++ x) = false ∧
    startsOperand (b ++ y) = false ∧ endsOperand (a.reverse ++ x) = false ∧
      endsOperand (b.reverse ++ y) = false := by
  have hsign : ∀ c ∈ signs, ∀ cs, startsOperand (c :: cs) = false ∧ endsOperand (c :: cs) = false :=
    fun c hc cs => no_operand_of_mem_signs hc cs
  cases h with
  | equals => exact ⟨(hsign '=' (by decide) _).1, (hsign '=' (by decide) _).1,
      (hsign '=' (by decide) _).2, (hsign '=' (by decide) _).2⟩
  | differs => exact ⟨(hsign '<' (by decide) _).1, (hsign '!' (by decide) _).1,
      (hsign '>' (by decide) _).2, (hsign '=' (by decide) _).2⟩
  | @joined l r hl hr =>
      have hspace : ∀ c ∈ [' '], Text.isBlank c = true := by decide
      have hleft := startsOperand_blanks hl ('&' :: (r ++ x))
      have hfront := startsOperand_blanks hspace ('+' :: ' ' :: y)
      have hend := endsOperand_blanks hspace ('+' :: ' ' :: y)
      rw [(hsign '&' (by decide) _).1] at hleft
      rw [(hsign '+' (by decide) _).1] at hfront
      rw [(hsign '+' (by decide) _).2] at hend
      exact ⟨by simpa using hleft, hfront, endsOperand_join hr l x, hend⟩

theorem head?_append (x y : List Char) : ((a ++ x).head? = some '=' → (b ++ y).head? = some '=') ∧
    (b ++ y).head? ≠ some '>' := by
  cases h with
  | equals => simp
  | differs => simp
  | @joined l r hl =>
      refine ⟨fun hhead => ?_, by simp⟩
      cases l with
      | nil => simp at hhead
      | cons c l =>
          obtain rfl : c = '=' := by simpa using hhead
          exact absurd (hl '=' (by simp)) (by decide)

end Replaced

section

variable {st : QuoteState} {seen x y : List Char} (h : Operated st seen x y)
include h

theorem Operated.startsOperand_eq : startsOperand y = startsOperand x := by
  induction h with
  | nil => rfl
  | @kept _ _ _ _ c _ _ ih =>
      cases hc : Text.isBlank c with
      | true =>
          have hblank : ∀ d ∈ [c], Text.isBlank d = true := by simpa using hc
          rw [← List.singleton_append, startsOperand_blanks hblank, ih, ← List.singleton_append,
            startsOperand_blanks hblank]
      | false => simp [startsOperand, hc]
  | replaced h _ _ =>
      obtain ⟨hleft, -, -, -⟩ := h.no_operand _ []
      obtain ⟨-, hright, -, -⟩ := h.no_operand [] _
      rw [hleft, hright]

theorem Operated.head?_eq : (x.head? = some '=' → y.head? = some '=') ∧
    (y.head? = some '>' → x.head? = some '>') := by
  cases h with
  | nil => simp
  | kept => simp
  | replaced h =>
      obtain ⟨hequals, hgreater⟩ := h.head?_append _ _
      exact ⟨hequals, fun hhead => absurd hhead hgreater⟩

end

/-- Behind a join and its blanks there is no comparison. -/
theorem exists_head?_join {r : List Char} (hr : ∀ c ∈ r, Text.isBlank c = true)
    (l seen : List Char) : ∃ c, ((l ++ '&' :: r).reverse ++ seen).head? = some c ∧
      ((c ≠ '=' ∧ c ≠ '!') ∧ c ≠ '<') ∧ c ≠ '>' := by
  rw [List.reverse_append, List.reverse_cons, List.append_assoc, List.append_assoc]
  cases hback : r.reverse with
  | nil => exact ⟨'&', rfl, by decide⟩
  | cons c back =>
      have hsign := notMem_signs_of_isBlank (hr c (List.mem_reverse.1 (by simp [hback])))
      simp only [signs, List.mem_cons, not_or] at hsign
      obtain ⟨-, hequals, hless, hgreater, hnot, -⟩ := hsign
      exact ⟨c, rfl, ⟨⟨hequals, hnot⟩, hless⟩, hgreater⟩

/-- The text `seen'`, last character first, was written for the text `seen`. -/
structure WrittenFor (seen seen' : List Char) : Prop where
  ends : endsOperand seen' = endsOperand seen
  comparison : ∀ rest rest', (rest.head? = some '=' → rest'.head? = some '=') →
    partOfComparison seen rest = true → partOfComparison seen' rest' = true
  less : seen'.head? = some '<' → seen.head? = some '<'

namespace WrittenFor

theorem nil : WrittenFor [] [] := ⟨rfl, by simp [partOfComparison], id⟩

/-- An operator hides what is in front of it. -/
theorem replaced {seen rest a b : List Char} (h : Replaced seen rest a b) (seen' : List Char) :
    WrittenFor (a.reverse ++ seen) (b.reverse ++ seen') where
  ends := by
    obtain ⟨-, -, hleft, -⟩ := h.no_operand seen []
    obtain ⟨-, -, -, hright⟩ := h.no_operand [] seen'
    rw [hleft, hright]
  comparison := by
    intro rest rest' hrest hpart
    cases h with
    | equals => simp [partOfComparison]
    | differs => simp [partOfComparison]
    | joined _ hr =>
        obtain ⟨c, hlast, hne⟩ := exists_head?_join hr _ seen
        have hequals : rest.head? = some '=' := by
          rw [partOfComparison, hlast] at hpart
          simpa [hne] using hpart
        simp [partOfComparison, hrest hequals]
  less := by cases h <;> simp

variable {seen seen' : List Char} (h : WrittenFor seen seen')
include h

theorem cons (c : Char) : WrittenFor (c :: seen) (c :: seen') where
  ends := by
    cases hc : Text.isBlank c with
    | true =>
        have hblank : ∀ d ∈ [c], Text.isBlank d = true := by simpa using hc
        rw [← List.singleton_append, endsOperand_blanks hblank, h.ends, ← List.singleton_append,
          endsOperand_blanks hblank]
    | false => simp [endsOperand, hc]
  comparison := by
    intro rest rest' hrest hpart
    simp only [partOfComparison, List.head?_cons, Bool.or_eq_true, beq_iff_eq] at hpart ⊢
    exact hpart.imp_right hrest
  less := id

/-- What is kept once is kept again. -/
theorem kept {c : Char} {x y : List Char} (hkept : Kept seen c x)
    (hstarts : startsOperand y = startsOperand x)
    (hhead : (x.head? = some '=' → y.head? = some '=') ∧
      (y.head? = some '>' → x.head? = some '>')) : Kept seen' c y where
  join hc := by rw [h.ends, hstarts, hkept.join hc]
  equals hc := h.comparison x y hhead.1 (hkept.equals hc)
  less hc hgreater := hkept.less hc (hhead.2 hgreater)
  greater hc hless := hkept.greater hc (h.less hless)

end WrittenFor

theorem Operated.allKept {st : QuoteState} {seen seen' x y : List Char}
    (h : Operated st seen x y) (hseen : WrittenFor seen seen') : AllKept st seen' y := by
  induction h generalizing seen' with
  | nil => trivial
  | @kept _ _ _ _ c hkept hrest ih =>
      exact ⟨fun hst => hseen.kept (hkept hst) hrest.startsOperand_eq hrest.head?_eq,
        ih (hseen.cons c)⟩
  | replaced hreplaced _ ih =>
      have hrest := ih (.replaced hreplaced seen')
      cases hreplaced with
      | equals =>
          exact ⟨fun _ => .of_partOfComparison (by simp [partOfComparison]),
            fun _ => .of_partOfComparison (by simp [partOfComparison]), hrest⟩
      | differs =>
          exact ⟨fun _ => .plain (by decide) _ _,
            fun _ => .of_partOfComparison (by simp [partOfComparison]), hrest⟩
      | joined =>
          exact ⟨fun _ => .plain (by decide) _ _, fun _ => .plain (by decide) _ _,
            fun _ => .plain (by decide) _ _, hrest⟩

/-! ### The pass writes operators so -/

/-- Behind some blanks an ampersand joins two operands. -/
def JoinAhead (seen cs : List Char) : Prop :=
  ∃ l r, cs = l ++ '&' :: r ∧ (∀ c ∈ l, Text.isBlank c = true) ∧ endsOperand seen = true ∧
    startsOperand r = true

theorem JoinAhead.cons {seen cs : List Char} {c : Char} (hc : Text.isBlank c = true)
    (h : JoinAhead (c :: seen) cs) : JoinAhead seen (c :: cs) := by
  obtain ⟨l, r, rfl, hl, hends, hstarts⟩ := h
  have hblank : ∀ d ∈ [c], Text.isBlank d = true := by simpa using hc
  rw [← List.singleton_append, endsOperand_blanks hblank] at hends
  exact ⟨c :: l, r, rfl, List.forall_mem_cons.2 ⟨hc, hl⟩, hends, hstarts⟩

/-- No rule is for the character. -/
theorem Kept.of_not {seen rest : List Char} {c : Char} (hjoin : ¬JoinAhead seen (c :: rest))
    (hequals : ¬(c = '=' ∧ partOfComparison seen rest = false))
    (hdiffers : ¬(c = '<' ∧ rest.head? = some '>'))
    (hless : seen.head? = some '<' → (c :: rest).head? ≠ some '>') : Kept seen c rest where
  join := by
    rintro rfl
    by_contra hjoins
    obtain ⟨hends, hstarts⟩ := Bool.and_eq_true_iff.1 (Bool.of_not_eq_false hjoins)
    exact hjoin ⟨[], rest, rfl, by simp, hends, hstarts⟩
  equals hc := Bool.of_not_eq_false fun hpart => hequals ⟨hc, hpart⟩
  less hc hhead := hdiffers ⟨hc, hhead⟩
  greater := by
    rintro rfl hhead
    exact hless hhead rfl

section

variable {l : List Char} (hl : ∀ c ∈ l, Text.isBlank c = true)
include hl

theorem quiet_blanks : Quiet l := by
  intro c hc
  have hsign := notMem_signs_of_isBlank (hl c hc)
  refine ⟨isQuote_eq_false_of_isBlank (hl c hc), fun hmem => hsign ?_⟩
  exact List.mem_append_left ['!', '+'] hmem

theorem writeOperatorsFrom_skip (seen out rest : List Char) :
    writeOperatorsFrom .outside true seen out (l ++ rest) =
      writeOperatorsFrom .outside true (l.reverse ++ seen) out rest := by
  induction l generalizing seen with
  | nil => rfl
  | cons c l ih =>
      have hc := hl c (by simp)
      rw [List.cons_append, writeOperatorsFrom, if_neg (by simp), if_pos ⟨rfl, hc⟩,
        ih fun d hd => hl d (by simp [hd])]
      simp

end

theorem writeOperatorsFrom_stop {cs : List Char} (h : cs.head?.any Text.isBlank = false)
    (seen out : List Char) :
    writeOperatorsFrom .outside true seen out cs =
      writeOperatorsFrom .outside false seen out cs := by
  cases cs with
  | nil => rfl
  | cons c cs =>
      have hc : Text.isBlank c = false := by simpa using h
      rw [writeOperatorsFrom, writeOperatorsFrom]
      simp [hc]

theorem head?_dropWhile_isBlank (cs : List Char) :
    (cs.dropWhile Text.isBlank).head?.any Text.isBlank = false := by
  have hhead := List.head?_dropWhile_not Text.isBlank cs
  cases hfirst : (cs.dropWhile Text.isBlank).head? with
  | none => rfl
  | some c =>
      rw [hfirst] at hhead
      exact hhead

/-- A join drops the blanks around it, also those that were written before it. -/
theorem writeOperatorsFrom_join {seen out l r : List Char}
    (hl : ∀ c ∈ l, Text.isBlank c = true) (hends : endsOperand seen = true)
    (hstarts : startsOperand r = true) (hout : out.head?.any Text.isBlank = false) :
    writeOperatorsFrom .outside false seen out (l ++ '&' :: r) =
      writeOperatorsFrom .outside false ((l ++ '&' :: r.takeWhile Text.isBlank).reverse ++ seen)
        (' ' :: '+' :: ' ' :: out) (r.dropWhile Text.isBlank) := by
  have hback : ∀ c ∈ l.reverse, Text.isBlank c = true := by simpa using hl
  have hskip : ∀ c ∈ r.takeWhile Text.isBlank, Text.isBlank c = true :=
    fun _ => List.mem_takeWhile_imp
  have hjoins : joinsOperands (l.reverse ++ seen) r = true := by
    rw [joinsOperands_eq, endsOperand_blanks hback, hends, hstarts]
    rfl
  have hdropped : (l.reverse ++ out).dropWhile Text.isBlank = out := by
    rw [dropWhile_blanks hback]
    cases out with
    | nil => rfl
    | cons c out => exact List.dropWhile_cons_of_neg (by simpa using hout)
  have hstep : writeOperatorsFrom .outside false (l.reverse ++ seen) (l.reverse ++ out) ('&' :: r) =
      writeOperatorsFrom .outside true ('&' :: (l.reverse ++ seen))
        (' ' :: '+' :: ' ' :: out) r := by
    rw [writeOperatorsFrom, if_neg (by simp), if_neg (by simp), if_pos ⟨rfl, hjoins⟩, hdropped]
  have hrest := writeOperatorsFrom_skip hskip ('&' :: (l.reverse ++ seen))
    (' ' :: '+' :: ' ' :: out) (r.dropWhile Text.isBlank)
  rw [List.takeWhile_append_dropWhile, writeOperatorsFrom_stop (head?_dropWhile_isBlank r)] at hrest
  rw [writeOperatorsFrom_quiet (quiet_blanks hl), hstep, hrest]
  simp

/-- The pass writes the text by the rules, behind what is written already. -/
def Follows (st : QuoteState) (seen out cs : List Char) : Prop :=
  ∃ y, Operated st seen cs y ∧ writeOperatorsFrom st false seen out cs = out.reverse ++ y

namespace Follows

variable {seen out rest : List Char}

theorem nil (st : QuoteState) (seen out : List Char) : Follows st seen out [] :=
  ⟨[], .nil st seen, by simp [writeOperatorsFrom]⟩

theorem kept {st : QuoteState} {c : Char} (h : st = .outside → Kept seen c rest)
    (hrest : Follows (st.step c) (c :: seen) (c :: out) rest) :
    Follows st seen out (c :: rest) := by
  obtain ⟨y, hy, hwrite⟩ := hrest
  refine ⟨c :: y, .kept h hy, ?_⟩
  rw [writeOperatorsFrom_kept h, hwrite]
  simp

theorem equals (h : partOfComparison seen rest = false)
    (hrest : Follows .outside ('=' :: seen) ('=' :: '=' :: out) rest) :
    Follows .outside seen out ('=' :: rest) := by
  obtain ⟨y, hy, hwrite⟩ := hrest
  refine ⟨['=', '='] ++ y, .replaced (a := ['=']) (.equals h) hy, ?_⟩
  rw [writeOperatorsFrom, if_neg (by simp), if_neg (by simp), if_neg (by simp), if_pos rfl, h]
  simpa using hwrite

theorem differs (hrest : Follows .outside ('>' :: '<' :: seen) ('=' :: '!' :: out) rest) :
    Follows .outside seen out ('<' :: '>' :: rest) := by
  obtain ⟨y, hy, hwrite⟩ := hrest
  refine ⟨['!', '='] ++ y, .replaced (a := ['<', '>']) .differs hy, ?_⟩
  have hgreater : writeOperatorsFrom .outside false ('<' :: seen) ('!' :: out) ('>' :: rest) =
      writeOperatorsFrom .outside false ('>' :: '<' :: seen) ('=' :: '!' :: out) rest := by
    rw [writeOperatorsFrom]
    simp
  rw [writeOperatorsFrom]
  simpa [hgreater] using hwrite

theorem joined {l r : List Char} (hl : ∀ c ∈ l, Text.isBlank c = true)
    (hends : endsOperand seen = true) (hstarts : startsOperand r = true)
    (hout : out.head?.any Text.isBlank = false)
    (hrest : Follows .outside ((l ++ '&' :: r.takeWhile Text.isBlank).reverse ++ seen)
      (' ' :: '+' :: ' ' :: out) (r.dropWhile Text.isBlank)) :
    Follows .outside seen out (l ++ '&' :: r) := by
  obtain ⟨y, hy, hwrite⟩ := hrest
  have hskip : ∀ c ∈ r.takeWhile Text.isBlank, Text.isBlank c = true :=
    fun _ => List.mem_takeWhile_imp
  have hright : startsOperand (r.dropWhile Text.isBlank) = true := by
    rwa [← startsOperand_blanks hskip, List.takeWhile_append_dropWhile]
  have htext : l ++ '&' :: r =
      (l ++ '&' :: r.takeWhile Text.isBlank) ++ r.dropWhile Text.isBlank := by
    simp
  refine ⟨[' ', '+', ' '] ++ y, ?_, ?_⟩
  · rw [htext]
    exact .replaced (.joined hl hskip hends hright) hy
  · rw [writeOperatorsFrom_join hl hends hstarts hout, hwrite]
    simp

end Follows

/-- What the pass relies on at a place: a literal ends with its mark, both signs of `<>` are still
ahead, and a join ahead finds no blank that was written before. -/
structure Ready (st : QuoteState) (seen out cs : List Char) : Prop where
  marked : st.Marked
  whole : st = .outside → seen.head? = some '<' → cs.head? ≠ some '>'
  filled : st = .outside → JoinAhead seen cs → out.head?.any Text.isBlank = false

namespace Ready

variable {seen out : List Char}

theorem of_head? (hseen : seen.head? ≠ some '<') (hout : out.head?.any Text.isBlank = false)
    (cs : List Char) : Ready .outside seen out cs :=
  ⟨trivial, fun _ hless => absurd hless hseen, fun _ _ => hout⟩

theorem joined {r : List Char} (hr : ∀ c ∈ r, Text.isBlank c = true) (l cs : List Char) :
    Ready .outside ((l ++ '&' :: r).reverse ++ seen) (' ' :: '+' :: ' ' :: out) cs where
  marked := trivial
  whole := by
    intro _ hhead
    obtain ⟨d, hlast, hne⟩ := exists_head?_join hr l seen
    rw [hlast] at hhead
    exact absurd (Option.some.inj hhead) hne.1.2
  filled := by
    rintro - ⟨-, -, -, -, hagain, -⟩
    rw [endsOperand_join hr] at hagain
    cases hagain

variable {c : Char} {rest : List Char}

/-- Only a mark leads out of a literal. -/
theorem literal {st : QuoteState} (h : Ready st seen out (c :: rest)) (hst : st ≠ .outside) :
    Ready (st.step c) (c :: seen) (c :: out) rest where
  marked := h.marked.run [c]
  whole := by
    intro hstep hhead
    obtain rfl : c = '<' := by simpa using hhead
    cases h.marked.isQuote_of_step hst hstep
  filled := by
    intro hstep _
    cases hblank : Text.isBlank c with
    | false => simpa using hblank
    | true =>
        have hmark := h.marked.isQuote_of_step hst hstep
        rw [isQuote_eq_false_of_isBlank hblank] at hmark
        cases hmark

theorem kept (h : Ready .outside seen out (c :: rest)) (hjoin : ¬JoinAhead seen (c :: rest))
    (hdiffers : ¬(c = '<' ∧ rest.head? = some '>')) :
    Ready (QuoteState.outside.step c) (c :: seen) (c :: out) rest where
  marked := h.marked.run [c]
  whole := by
    intro _ hhead hgreater
    exact hdiffers ⟨by simpa using hhead, hgreater⟩
  filled := by
    intro _ hagain
    cases hblank : Text.isBlank c with
    | false => simpa using hblank
    | true => exact absurd (hagain.cons hblank) hjoin

end Ready

/-- The pass follows the rules everywhere. A join passes over many characters at once, so the
induction is on the length of the text. -/
theorem Ready.follows {st : QuoteState} {seen out cs : List Char} (h : Ready st seen out cs) :
    Follows st seen out cs := by
  induction hlength : cs.length using Nat.strong_induction_on generalizing st seen out cs with
  | _ n ih =>
  cases cs with
  | nil => exact .nil st seen out
  | cons c rest =>
      subst hlength
      by_cases houtside : st = .outside
      case neg =>
        exact .kept (fun hst => absurd hst houtside) (ih _ (by simp) (h.literal houtside) rfl)
      subst houtside
      by_cases hjoin : JoinAhead seen (c :: rest)
      · obtain ⟨l, r, hcs, hl, hends, hstarts⟩ := id hjoin
        have hskip : ∀ c ∈ r.takeWhile Text.isBlank, Text.isBlank c = true :=
          fun _ => List.mem_takeWhile_imp
        have hshorter : (r.dropWhile Text.isBlank).length < (c :: rest).length := by
          have hdrop := (List.dropWhile_suffix (l := r) Text.isBlank).length_le
          rw [hcs, List.length_append, List.length_cons]
          omega
        rw [hcs]
        exact .joined hl hends hstarts (h.filled rfl hjoin) (ih _ hshorter (.joined hskip l _) rfl)
      by_cases hequals : c = '=' ∧ partOfComparison seen rest = false
      · obtain ⟨rfl, hpart⟩ := hequals
        exact .equals hpart (ih _ (by simp) (.of_head? (by simp) rfl rest) rfl)
      by_cases hdiffers : c = '<' ∧ rest.head? = some '>'
      · obtain ⟨rfl, hgreater⟩ := hdiffers
        obtain ⟨tail, rfl⟩ := List.head?_eq_some_iff.1 hgreater
        have hshorter : tail.length < ('<' :: '>' :: tail).length := by
          rw [List.length_cons, List.length_cons]
          omega
        exact .differs (ih _ hshorter (.of_head? (by simp) rfl tail) rfl)
      have hkept : Kept seen c rest := .of_not hjoin hequals hdiffers (h.whole rfl)
      exact .kept (fun _ => hkept) (ih _ (by simp) (h.kept hjoin hdiffers) rfl)

/-- Operators are written by the rules. -/
theorem operated_writeOperators (cs : List Char) : Operated .outside [] cs (writeOperators cs) := by
  have hready : Ready .outside [] [] cs := .of_head? (by simp) rfl cs
  obtain ⟨y, hy, hwrite⟩ := hready.follows
  rwa [writeOperators, hwrite]

theorem writeOperators_writeOperators (cs : List Char) :
    writeOperators (writeOperators cs) = writeOperators cs :=
  writeOperatorsFrom_of_allKept ((operated_writeOperators cs).allKept .nil) []

end SheetBoard.Formula
