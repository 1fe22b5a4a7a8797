import SheetBoard.Proofs.Formula.Alike
import SheetBoard.Proofs.Script.Derivation
import Mathlib.Data.List.Forall2

/-! Scripts that are alike have the same tokens and the same expression, up to the contents of text
literals. So a row decides the shape of its script only by the cells that are not texts. -/

namespace SheetBoard.Formula.Alike

/-! ### Taking alike texts apart -/

variable {a b : List Char}

theorem eq_nil_iff {st : QuoteState} (h : Alike st a b) : a = [] ↔ b = [] := by
  cases h <;> simp [quote]

theorem head?_eq {st : QuoteState} (h : Alike st a b) : a.head? = b.head? := by
  cases h <;> simp [quote]

theorem exists_cons {st : QuoteState} {c : Char} (h : Alike st (c :: a) b) :
    ∃ tail, b = c :: tail := by
  have hhead := h.head?_eq
  cases b with
  | nil => simp at hhead
  | cons d tail =>
      obtain rfl : c = d := by simpa using hhead
      exact ⟨tail, rfl⟩

theorem of_cons {c : Char} (hc : isQuote c = false) (h : Alike .outside (c :: a) (c :: b)) :
    Alike .outside a b := by
  generalize hx : c :: a = x at h
  generalize hy : c :: b = y at h
  cases h with
  | nil => cases hx
  | cons d htail =>
      obtain ⟨rfl, rfl⟩ := List.cons.inj hx
      obtain rfl := (List.cons.inj hy).2
      rwa [QuoteState.step_outside hc] at htail
  | quoted s t =>
      have hquote : c = '"' := (List.cons.inj hx).1
      rw [hquote] at hc
      cases hc

/-- Behind a plain character two alike texts start with the same character, or both end. -/
theorem second_cases {c : Char} (h : Alike .outside (c :: a) (c :: b)) :
    isQuote c = true ∨ (a = [] ∧ b = []) ∨ ∃ d a' b', a = d :: a' ∧ b = d :: b' ∧
      isQuote c = false ∧ Alike .outside (d :: a') (d :: b') := by
  cases hc : isQuote c with
  | true => exact .inl rfl
  | false =>
      have htail := h.of_cons hc
      cases a with
      | nil => exact .inr (.inl ⟨rfl, htail.eq_nil_iff.1 rfl⟩)
      | cons d a =>
          obtain ⟨b, rfl⟩ := htail.exists_cons
          exact .inr (.inr ⟨d, a, b, rfl, rfl, rfl, htail⟩)

theorem takeWhile_eq {p : Char → Bool} (hp : ∀ c, p c = true → isQuote c = false)
    (h : Alike .outside a b) : a.takeWhile p = b.takeWhile p := by
  induction a generalizing b with
  | nil => rw [h.eq_nil_iff.1 rfl]
  | cons c a ih =>
      obtain ⟨b, rfl⟩ := h.exists_cons
      by_cases hc : p c = true
      · rw [List.takeWhile_cons_of_pos hc, List.takeWhile_cons_of_pos hc,
          ih (h.of_cons (hp c hc))]
      · rw [List.takeWhile_cons_of_neg hc, List.takeWhile_cons_of_neg hc]

theorem dropWhile {p : Char → Bool} (hp : ∀ c, p c = true → isQuote c = false)
    (h : Alike .outside a b) : Alike .outside (a.dropWhile p) (b.dropWhile p) := by
  induction a generalizing b with
  | nil =>
      rw [h.eq_nil_iff.1 rfl]
      exact .nil _
  | cons c a ih =>
      obtain ⟨b, rfl⟩ := h.exists_cons
      by_cases hc : p c = true
      · rw [List.dropWhile_cons_of_pos hc, List.dropWhile_cons_of_pos hc]
        exact ih (h.of_cons (hp c hc))
      · rwa [List.dropWhile_cons_of_neg hc, List.dropWhile_cons_of_neg hc]

end SheetBoard.Formula.Alike

namespace SheetBoard.Text

theorem dropEndWhile_cons (p : Char → Bool) (c : Char) (cs : List Char) :
    dropEndWhile p (c :: cs) =
      if dropEndWhile p cs = [] ∧ p c = true then [] else c :: dropEndWhile p cs := by
  unfold dropEndWhile
  rw [List.reverse_cons, List.dropWhile_append]
  cases hend : cs.reverse.dropWhile p with
  | nil => by_cases hc : p c = true <;> simp [hc]
  | cons d rest => simp

theorem dropEndWhile_append_cons {p : Char → Bool} {c : Char} (hc : p c = false)
    (a cs : List Char) : dropEndWhile p (a ++ c :: cs) = a ++ c :: dropEndWhile p cs := by
  induction a with
  | nil => simp [dropEndWhile_cons, hc]
  | cons d a ih =>
      rw [List.cons_append, dropEndWhile_cons, ih]
      simp

end SheetBoard.Text

namespace SheetBoard.Script

open Formula (Alike QuoteState isQuote escape quote Escaped escaped_escape
  isQuote_eq_false_of_isBlank isQuote_eq_false_of_isDigit)

theorem trimEnd_alike {st : QuoteState} {a b : List Char} (h : Alike st a b) :
    Alike st (Text.trimEnd a) (Text.trimEnd b) := by
  unfold Text.trimEnd
  induction h with
  | nil st => exact .nil st
  | cons c _ ih =>
      rw [Text.dropEndWhile_cons, Text.dropEndWhile_cons]
      simp only [ih.eq_nil_iff]
      split
      · exact .nil _
      · exact .cons c ih
  | quoted s t _ ih =>
      -- The closing mark is no blank, so trimming stops behind it.
      have hmark : Text.isBlank '"' = false := by decide
      have hquote : ∀ u cs : List Char,
          Text.dropEndWhile Text.isBlank (quote u ++ cs) =
            quote u ++ Text.dropEndWhile Text.isBlank cs := by
        intro u cs
        rw [Formula.quote_append, Formula.quote_append]
        exact Text.dropEndWhile_append_cons hmark ('"' :: escape u) cs
      rw [hquote, hquote]
      exact .quoted s t ih

theorem trimStart_alike {a b : List Char} (h : Alike .outside a b) :
    Alike .outside (Text.trimStart a) (Text.trimStart b) :=
  h.dropWhile fun _ => isQuote_eq_false_of_isBlank

/-! ### Reading a literal -/

/-- The characters of a literal that a scan has passed without settling what they mean: a backslash
covers what follows, and a mark may be the first of two. -/
def unsettled (mark : Char) : QuoteState → List Char
  | .outside => [mark]
  | .inside _ => []
  | .escaped _ => ['\\']

theorem lexText_cons_snd {mark c : Char} (hmark : c ≠ mark) (hslash : c ≠ '\\') (cs : List Char) :
    (lexText mark (c :: cs)).2 = (lexText mark cs).2 := by
  cases cs with
  | nil => simp [lexText, hmark]
  | cons d cs => simp [lexText, hmark, hslash]

theorem lexText_slash_snd {mark : Char} (hmark : mark ≠ '\\') (c : Char) (cs : List Char) :
    (lexText mark ('\\' :: c :: cs)).2 = (lexText mark cs).2 := by
  simp [lexText, hmark.symm]

theorem lexText_mark_snd (mark c : Char) (cs : List Char) :
    (lexText mark (mark :: c :: cs)).2 = if c = mark then (lexText mark cs).2 else c :: cs := by
  by_cases hc : c = mark <;> simp [lexText, hc]

theorem lexText_escaped_snd {x : List Char} (h : Escaped x) (cs : List Char) :
    (lexText '"' (x ++ cs)).2 = (lexText '"' cs).2 := by
  induction h with
  | nil => rfl
  | plain hmark hslash _ ih => exact (lexText_cons_snd hmark hslash _).trans ih
  | slash c _ ih => exact (lexText_slash_snd (by decide) c _).trans ih

theorem lexText_quote_snd (s cs : List Char) :
    (lexText '"' ('"' :: (quote s ++ cs))).2 = (lexText '"' ('"' :: cs)).2 := by
  rw [Formula.quote_append, lexText_mark_snd, if_pos rfl, lexText_escaped_snd (escaped_escape s)]

/-- What follows a literal is alike. The induction is along the scan, which stands outside just
after a mark: the literal goes on if another mark follows. -/
theorem lexText_alike {mark : Char} (hmark : isQuote mark = true) {st : QuoteState}
    {a b : List Char} (h : Alike st a b)
    (hst : st = .outside ∨ st = .inside mark ∨ st = .escaped mark) :
    Alike .outside (lexText mark (unsettled mark st ++ a)).2
      (lexText mark (unsettled mark st ++ b)).2 := by
  have hslash : mark ≠ '\\' := by
    rintro rfl
    cases hmark
  induction h with
  | nil st =>
      have hend : (lexText mark (unsettled mark st)).2 = [] := by
        cases st <;> simp [unsettled, lexText, hslash.symm]
      rw [List.append_nil, hend]
      exact .nil _
  | @cons st a b c htail ih =>
      rcases hst with rfl | rfl | rfl
      · simp only [unsettled, List.cons_append, List.nil_append, lexText_mark_snd]
        by_cases hc : c = mark
        · subst hc
          have hstep : QuoteState.outside.step c = .inside c := by simp [QuoteState.step, hmark]
          rw [hstep] at ih
          simpa [unsettled] using ih (.inr (.inl rfl))
        · simpa only [if_neg hc] using Alike.cons c htail
      · by_cases hc : c = mark
        · subst hc
          have hstep : (QuoteState.inside c).step c = .outside := by
            simp [QuoteState.step, hslash]
          rw [hstep] at ih
          exact ih (.inl rfl)
        · by_cases hcover : c = '\\'
          · subst hcover
            exact ih (.inr (.inr rfl))
          · have hstep : (QuoteState.inside mark).step c = .inside mark := by
              simp [QuoteState.step, hc, hcover]
            rw [hstep] at ih
            simp only [unsettled, List.nil_append, lexText_cons_snd hc hcover]
            exact ih (.inr (.inl rfl))
      · simp only [unsettled, List.cons_append, List.nil_append, lexText_slash_snd hslash]
        exact ih (.inr (.inl rfl))
  | quoted s t htail ih =>
      obtain rfl | rfl : mark = '"' ∨ mark = '\'' := by simpa [isQuote] using hmark
      · simp only [unsettled, List.cons_append, List.nil_append, lexText_quote_snd]
        exact ih (.inl rfl)
      · exact .quoted s t htail

theorem lexText_alike_of_cons {mark : Char} (hmark : isQuote mark = true) {a b : List Char}
    (h : Alike .outside (mark :: a) (mark :: b)) :
    Alike .outside (lexText mark a).2 (lexText mark b).2 := by
  generalize hx : mark :: a = x at h
  generalize hy : mark :: b = y at h
  cases h with
  | nil => cases hx
  | cons c htail =>
      obtain ⟨rfl, rfl⟩ := List.cons.inj hx
      obtain rfl := (List.cons.inj hy).2
      have hstep : QuoteState.outside.step mark = .inside mark := by
        simp [QuoteState.step, hmark]
      rw [hstep] at htail
      exact lexText_alike hmark htail (.inr (.inl rfl))
  | @quoted u v s t htail =>
      rw [Formula.quote_append] at hx hy
      obtain ⟨rfl, rfl⟩ := List.cons.inj hx
      obtain rfl := (List.cons.inj hy).2
      rw [lexText_escaped_snd (escaped_escape s), lexText_escaped_snd (escaped_escape t)]
      exact lexText_alike hmark htail (.inl rfl)

/-! ### Tokens -/

/-- The same token, or two texts. -/
def Token.Alike (t u : Token) : Prop := t = u ∨ ∃ x y, t = .text x ∧ u = .text y

theorem Token.Alike.refl (t : Token) : t.Alike t := .inl rfl

/-- The same piece was cut off two texts, and alike texts are left. -/
structure SameCut {α : Type} (x y : α × List Char) : Prop where
  piece : x.1 = y.1
  rest : Alike .outside x.2 y.2

section

variable {a b : List Char} (h : Alike .outside a b)

include h

theorem dropEquals_alike : Alike .outside (dropEquals a) (dropEquals b) := by
  unfold dropEquals
  split
  · obtain ⟨b, rfl⟩ := h.exists_cons
    exact h.of_cons (by decide)
  · rename_i hne
    split
    · obtain ⟨a, rfl⟩ := h.symm.exists_cons
      exact absurd rfl (hne a)
    · exact h

theorem lexFraction_sameCut : SameCut (lexFraction a) (lexFraction b) := by
  unfold lexFraction
  split
  · obtain ⟨b, rfl⟩ := h.exists_cons
    have htail := h.of_cons (by decide)
    refine ⟨?_, htail.dropWhile fun _ => isQuote_eq_false_of_isDigit⟩
    simp only [htail.takeWhile_eq fun _ => isQuote_eq_false_of_isDigit]
  · rename_i hne
    split
    · obtain ⟨a, rfl⟩ := h.symm.exists_cons
      exact absurd rfl (hne a)
    · exact ⟨rfl, h⟩

theorem lexExponent_sameCut : SameCut (lexExponent a) (lexExponent b) := by
  cases a with
  | nil =>
      obtain rfl := h.eq_nil_iff.1 rfl
      exact ⟨rfl, .nil _⟩
  | cons e a =>
      obtain ⟨b, rfl⟩ := h.exists_cons
      rcases h.second_cases with he | ⟨rfl, rfl⟩ | ⟨c, a, b, rfl, rfl, he, htail⟩
      · have hnone : ∀ cs, lexExponent (e :: cs) = ([], e :: cs) := by
          obtain rfl | rfl : e = '"' ∨ e = '\'' := by simpa [isQuote] using he
          all_goals
            intro cs
            cases cs <;> simp [lexExponent]
        rw [hnone, hnone]
        exact ⟨rfl, h⟩
      · exact ⟨rfl, h⟩
      · simp only [lexExponent]
        split
        · rename_i hstart
          have hc : isQuote c = false := by
            simp only [Bool.and_eq_true, Bool.or_eq_true, decide_eq_true_eq] at hstart
            rcases hstart.2 with (hdigit | rfl) | rfl
            · exact isQuote_eq_false_of_isDigit hdigit
            · rfl
            · rfl
          have hrest := htail.of_cons hc
          refine ⟨?_, hrest.dropWhile fun _ => isQuote_eq_false_of_isDigit⟩
          simp only [hrest.takeWhile_eq fun _ => isQuote_eq_false_of_isDigit]
        · exact ⟨rfl, h⟩

theorem startsNumber_eq : startsNumber a = startsNumber b := by
  cases a with
  | nil => rw [h.eq_nil_iff.1 rfl]
  | cons c a =>
      obtain ⟨b, rfl⟩ := h.exists_cons
      rcases h.second_cases with hc | ⟨rfl, rfl⟩ | ⟨d, a, b, rfl, rfl, -, -⟩
      · obtain rfl | rfl : c = '"' ∨ c = '\'' := by simpa [isQuote] using hc
        all_goals rfl
      · rfl
      · by_cases hpoint : c = '.' <;> simp [startsNumber, hpoint]

theorem lexNumber_sameCut : SameCut (lexNumber a) (lexNumber b) := by
  have hwhole := h.takeWhile_eq fun _ => isQuote_eq_false_of_isDigit
  have hfraction := lexFraction_sameCut (h.dropWhile fun _ => isQuote_eq_false_of_isDigit)
  have hexponent := lexExponent_sameCut hfraction.rest
  refine ⟨?_, hexponent.rest⟩
  simp only [lexNumber, hwhole, hfraction.piece, hexponent.piece]

end

/-- Two characters decide whether they are an operator, and which one. -/
theorem lexPair?_cases (c d : Char) :
    (isQuote c = false ∧ isQuote d = false ∧ ∃ t, (∀ cs, lexPair? (c :: d :: cs) = some (t, cs)) ∨
      ∀ cs, lexPair? (c :: d :: cs) = some (t, dropEquals cs)) ∨
    ∀ cs, lexPair? (c :: d :: cs) = none := by
  by_cases h : (c = '=' ∧ d = '=') ∨ (c = '!' ∧ d = '=') ∨ (c = '<' ∧ d = '=') ∨
    (c = '<' ∧ d = '>') ∨ (c = '>' ∧ d = '=') ∨ (c = '&' ∧ d = '&') ∨ (c = '|' ∧ d = '|')
  · rcases h with ⟨rfl, rfl⟩ | ⟨rfl, rfl⟩ | ⟨rfl, rfl⟩ | ⟨rfl, rfl⟩ | ⟨rfl, rfl⟩ | ⟨rfl, rfl⟩ |
      ⟨rfl, rfl⟩
    all_goals simp [lexPair?, isQuote]
  · refine .inr fun cs => ?_
    unfold lexPair?
    split <;> simp_all

theorem lexPair?_sameCut {a b : List Char} (h : Alike .outside a b) :
    Option.Rel SameCut (lexPair? a) (lexPair? b) := by
  cases a with
  | nil =>
      obtain rfl := h.eq_nil_iff.1 rfl
      exact .none
  | cons c a =>
      obtain ⟨b, rfl⟩ := h.exists_cons
      rcases h.second_cases with hc | ⟨rfl, rfl⟩ | ⟨d, a, b, rfl, rfl, -, htail⟩
      · obtain rfl | rfl : c = '"' ∨ c = '\'' := by simpa [isQuote] using hc
        all_goals exact .none
      · have hnone : lexPair? [c] = none := by
          unfold lexPair?
          split <;> simp_all
        rw [hnone]
        exact .none
      · rcases lexPair?_cases c d with ⟨-, hd, t, hpair | hpair⟩ | hnone
        · rw [hpair, hpair]
          exact .some ⟨rfl, htail.of_cons hd⟩
        · rw [hpair, hpair]
          exact .some ⟨rfl, dropEquals_alike (htail.of_cons hd)⟩
        · rw [hnone, hnone]
          exact .none

theorem isQuote_eq_false_of_continuesName {c : Char} (hc : continuesName c = true) :
    isQuote c = false := by
  cases hquote : isQuote c with
  | false => rfl
  | true =>
      obtain rfl | rfl : c = '"' ∨ c = '\'' := by simpa [isQuote] using hquote
      all_goals exact absurd hc (by decide)

/-- The first tokens of two alike texts are alike, and alike texts are left. -/
theorem lex_alike {c : Char} {a b : List Char} (h : Alike .outside (c :: a) (c :: b)) :
    (lex c a).1.Alike (lex c b).1 ∧ Alike .outside (lex c a).2 (lex c b).2 := by
  unfold lex
  have hpair := lexPair?_sameCut h
  generalize lexPair? (c :: a) = x at hpair
  generalize lexPair? (c :: b) = y at hpair
  cases hpair with
  | some hcut => exact ⟨.inl hcut.piece, hcut.rest⟩
  | none =>
      by_cases hquote : isQuote c = true
      · have hrest := lexText_alike_of_cons hquote h
        obtain rfl | rfl : c = '"' ∨ c = '\'' := by simpa [isQuote] using hquote
        all_goals exact ⟨.inr ⟨_, _, rfl, rfl⟩, hrest⟩
      · have htail := h.of_cons (by simpa using hquote)
        have hmark : (decide (c = '"') || decide (c = '\'')) = false := by
          simpa [isQuote] using hquote
        simp only [hmark, startsNumber_eq h]
        split
        · exact ⟨.refl _, htail⟩
        · simp only [Bool.false_eq_true, if_false]
          split
          · have hcut := lexNumber_sameCut h
            exact ⟨.inl hcut.piece, hcut.rest⟩
          · split
            · rw [htail.takeWhile_eq fun _ => isQuote_eq_false_of_continuesName]
              exact ⟨.refl _, htail.dropWhile fun _ => isQuote_eq_false_of_continuesName⟩
            · exact ⟨.refl _, htail⟩

theorem tokens_alike {a b : List Char} (h : Alike .outside a b) :
    List.Forall₂ Token.Alike (tokens a) (tokens b) := by
  fun_induction tokens a generalizing b with
  | case1 a hend =>
      rw [tokens_eq_nil ((trimStart_alike h).eq_nil_iff.1 hend)]
      exact .nil
  | case2 a c rest hstart ih =>
      have htrim := trimStart_alike h
      rw [hstart] at htrim
      obtain ⟨tail, htail⟩ := htrim.exists_cons
      rw [htail] at htrim
      obtain ⟨hfirst, hrest⟩ := lex_alike htrim
      rw [tokens_eq_cons htail]
      exact .cons hfirst (ih hrest)

/-! ### Expressions -/

mutual

/-- An expression with the contents of its text literals left out. -/
def Expr.shape : Expr → Expr
  | .number x => .number x
  | .text _ => .text ""
  | .boolean b => .boolean b
  | .null => .null
  | .array items => .array (Expr.shapes items)
  | .name n => .name n
  | .binary op left right => .binary op left.shape right.shape
  | .unary op operand => .unary op operand.shape
  | .conditional condition yes no => .conditional condition.shape yes.shape no.shape
  | .call function arguments => .call function (Expr.shapes arguments)

def Expr.shapes : List Expr → List Expr
  | [] => []
  | e :: es => e.shape :: Expr.shapes es

end

theorem Expr.shape_binary (op : BinaryOp) {left left' right right' : Expr}
    (hleft : left.shape = left'.shape) (hright : right.shape = right'.shape) :
    (Expr.binary op left right).shape = (Expr.binary op left' right').shape := by
  simp only [Expr.shape, hleft, hright]

/-- The same shape of what was found. -/
inductive Found.Alike : Found → Found → Prop where
  | expr {e e' : Expr} : e.shape = e'.shape → Found.Alike (.expr e) (.expr e')
  | items {es es' : List Expr} : Expr.shapes es = Expr.shapes es' →
      Found.Alike (.items es) (.items es')

/-- Goals for the same reader: what stands to the left of further operators has the same shape, and
a list ends at the same token, which is no text. -/
inductive Goal.Alike : Goal → Goal → Prop where
  | conditional : Goal.Alike .conditional .conditional
  | level (l) : Goal.Alike (.level l) (.level l)
  | operators (l) {e e' : Expr} : e.shape = e'.shape → Goal.Alike (.operators l e) (.operators l e')
  | negation : Goal.Alike .negation .negation
  | signed : Goal.Alike .signed .signed
  | value : Goal.Alike .value .value
  | items {close} : (∀ s, close ≠ .text s) → Goal.Alike (.items close) (.items close)
  | more {close} : (∀ s, close ≠ .text s) → Goal.Alike (.more close) (.more close)

theorem Level.operand_alike (l : Level) : l.operand.Alike l.operand := by
  cases l
  all_goals constructor

section

variable {t : Token} {ts us : List Token} (h : List.Forall₂ Token.Alike ts us)

include h

theorem exists_cons_of_alike {tail : List Token} (hts : ts = t :: tail) (ht : ∀ s, t ≠ .text s) :
    ∃ tail', us = t :: tail' ∧ List.Forall₂ Token.Alike tail tail' := by
  subst hts
  cases h with
  | cons hfirst htail =>
      rcases hfirst with rfl | ⟨x, y, rfl, -⟩
      · exact ⟨_, rfl, htail⟩
      · exact absurd rfl (ht x)

theorem bind_head?_eq_of_alike {α : Type} {f : Token → Option α} (hf : ∀ s, f (.text s) = none) :
    ts.head?.bind f = us.head?.bind f := by
  cases h with
  | nil => rfl
  | cons hfirst htail =>
      rcases hfirst with rfl | ⟨x, y, rfl, rfl⟩
      · rfl
      · simp [hf]

theorem head?_ne_of_alike (ht : ∀ s, t ≠ .text s) (hne : ts.head? ≠ some t) :
    us.head? ≠ some t := by
  cases h with
  | nil => simp
  | cons hfirst htail =>
      rcases hfirst with rfl | ⟨x, y, rfl, rfl⟩
      · exact hne
      · simpa using (ht y).symm

end

theorem Level.operator?_text (l : Level) (s : String) : l.operator? (.text s) = none := by
  cases l <;> rfl

/-- Reading follows the tokens and not the contents of texts: what can be derived from some tokens
can be derived from alike ones, with the same shape. -/
theorem Derivation.alike {goal goal' : Goal} {ts us rest : List Token} {found : Found}
    (h : Derivation goal ts found rest) (hgoal : goal.Alike goal')
    (hts : List.Forall₂ Token.Alike ts us) :
    ∃ found' rest', Derivation goal' us found' rest' ∧ found.Alike found' ∧
      List.Forall₂ Token.Alike rest rest' := by
  induction h generalizing goal' us with
  | plain _ hif hmark ih =>
      cases hgoal
      obtain ⟨_, rest', hbody, ⟨he⟩, hrest⟩ := ih (.level _) hts
      have hif' := head?_ne_of_alike hrest (by simp) hif
      have hmark' := head?_ne_of_alike hrest (by simp) hmark
      exact ⟨_, rest', .plain hbody hif' hmark', .expr he, hrest⟩
  | chosen _ _ _ ihyes ihcondition ihno =>
      cases hgoal
      obtain ⟨_, _, hyes, ⟨eyes⟩, hrest⟩ := ihyes (.level _) hts
      obtain ⟨middle, rfl, hmiddle⟩ := exists_cons_of_alike hrest rfl (by simp)
      obtain ⟨_, _, hcondition, ⟨econdition⟩, hrest⟩ := ihcondition (.level _) hmiddle
      obtain ⟨tail, rfl, htail⟩ := exists_cons_of_alike hrest rfl (by simp)
      obtain ⟨_, rest', hno, ⟨eno⟩, hrest⟩ := ihno .conditional htail
      refine ⟨_, rest', .chosen hyes hcondition hno, .expr ?_, hrest⟩
      simp only [Expr.shape, eyes, econdition, eno]
  | ternary _ _ _ ihcondition ihyes ihno =>
      cases hgoal
      obtain ⟨_, _, hcondition, ⟨econdition⟩, hrest⟩ := ihcondition (.level _) hts
      obtain ⟨middle, rfl, hmiddle⟩ := exists_cons_of_alike hrest rfl (by simp)
      obtain ⟨_, _, hyes, ⟨eyes⟩, hrest⟩ := ihyes .conditional hmiddle
      obtain ⟨tail, rfl, htail⟩ := exists_cons_of_alike hrest rfl (by simp)
      obtain ⟨_, rest', hno, ⟨eno⟩, hrest⟩ := ihno .conditional htail
      refine ⟨_, rest', .ternary hcondition hyes hno, .expr ?_, hrest⟩
      simp only [Expr.shape, eyes, econdition, eno]
  | level _ _ ihleft ihmore =>
      cases hgoal
      obtain ⟨_, _, hleft, ⟨eleft⟩, hmiddle⟩ := ihleft (Level.operand_alike _) hts
      obtain ⟨_, rest', hmore, ⟨he⟩, hrest⟩ := ihmore (.operators _ eleft) hmiddle
      exact ⟨_, rest', .level hleft hmore, .expr he, hrest⟩
  | stop hstop =>
      cases hgoal with
      | operators _ he =>
          rw [bind_head?_eq_of_alike hts (Level.operator?_text _)] at hstop
          exact ⟨_, us, .stop hstop, .expr he, hts⟩
  | @operator l t op left right ts middle rest e hop _ _ ihright ihmore =>
      cases hgoal with
      | operators _ eleft =>
          have ht : ∀ s, t ≠ .text s := by
            rintro s rfl
            simp [Level.operator?_text] at hop
          obtain ⟨tail, rfl, htail⟩ := exists_cons_of_alike hts rfl ht
          obtain ⟨_, middle, hright, ⟨eright⟩, hmiddle⟩ := ihright (Level.operand_alike _) htail
          have hshape := Expr.shape_binary op eleft eright
          obtain ⟨_, rest', hmore, ⟨he⟩, hrest⟩ := ihmore (.operators _ hshape) hmiddle
          exact ⟨_, rest', .operator hop hright hmore, .expr he, hrest⟩
  | not _ ih =>
      cases hgoal
      obtain ⟨tail, rfl, htail⟩ := exists_cons_of_alike hts rfl (by simp)
      obtain ⟨_, rest', hoperand, ⟨he⟩, hrest⟩ := ih .negation htail
      exact ⟨_, rest', .not hoperand, .expr (by simp only [Expr.shape, he]), hrest⟩
  | comparison hnot _ ih =>
      cases hgoal
      obtain ⟨_, rest', hbody, ⟨he⟩, hrest⟩ := ih (.level _) hts
      exact ⟨_, rest', .comparison (head?_ne_of_alike hts (by simp) hnot) hbody, .expr he, hrest⟩
  | @sign t op ts rest e hsign _ ih =>
      cases hgoal
      have ht : ∀ s, t ≠ .text s := by
        rintro s rfl
        cases hsign
      obtain ⟨tail, rfl, htail⟩ := exists_cons_of_alike hts rfl ht
      obtain ⟨_, rest', hoperand, ⟨he⟩, hrest⟩ := ih .signed htail
      exact ⟨_, rest', .sign hsign hoperand, .expr (by simp only [Expr.shape, he]), hrest⟩
  | unsigned hsign _ ih =>
      cases hgoal
      rw [bind_head?_eq_of_alike hts fun s => rfl] at hsign
      obtain ⟨_, rest', hvalue, ⟨he⟩, hrest⟩ := ih .value hts
      exact ⟨_, rest', .unsigned hsign hvalue, .expr he, hrest⟩
  | number =>
      cases hgoal
      obtain ⟨tail, rfl, htail⟩ := exists_cons_of_alike hts rfl (by simp)
      exact ⟨_, tail, .number, .expr rfl, htail⟩
  | text =>
      cases hgoal
      -- The one place where the two readings may differ.
      cases hts with
      | cons hfirst htail =>
          rcases hfirst with rfl | ⟨x, y, -, rfl⟩
          · exact ⟨_, _, .text, .expr rfl, htail⟩
          · exact ⟨_, _, .text, .expr (by simp only [Expr.shape]), htail⟩
  | paren _ ih =>
      cases hgoal
      obtain ⟨inner, rfl, hinner⟩ := exists_cons_of_alike hts rfl (by simp)
      obtain ⟨_, _, hbody, ⟨he⟩, hrest⟩ := ih .conditional hinner
      obtain ⟨tail, rfl, htail⟩ := exists_cons_of_alike hrest rfl (by simp)
      exact ⟨_, tail, .paren hbody, .expr he, htail⟩
  | array _ ih =>
      cases hgoal
      obtain ⟨inner, rfl, hinner⟩ := exists_cons_of_alike hts rfl (by simp)
      obtain ⟨_, rest', hitems, _ | he, hrest⟩ := ih (.items (by simp)) hinner
      exact ⟨_, rest', .array hitems, .expr (by simp only [Expr.shape, he]), hrest⟩
  | call _ ih =>
      cases hgoal
      obtain ⟨_, rfl, hparen⟩ := exists_cons_of_alike hts rfl (by simp)
      obtain ⟨inner, rfl, hinner⟩ := exists_cons_of_alike hparen rfl (by simp)
      obtain ⟨_, rest', hitems, _ | he, hrest⟩ := ih (.items (by simp)) hinner
      exact ⟨_, rest', .call hitems, .expr (by simp only [Expr.shape, he]), hrest⟩
  | word hparen =>
      cases hgoal
      obtain ⟨tail, rfl, htail⟩ := exists_cons_of_alike hts rfl (by simp)
      exact ⟨_, tail, .word (head?_ne_of_alike htail (by simp) hparen), .expr rfl, htail⟩
  | noItems =>
      cases hgoal with
      | items hclose =>
          obtain ⟨tail, rfl, htail⟩ := exists_cons_of_alike hts rfl hclose
          exact ⟨_, tail, .noItems, .items rfl, htail⟩
  | items hhead _ _ ihfirst ihmore =>
      cases hgoal with
      | items hclose =>
          obtain ⟨_, _, hfirst, ⟨efirst⟩, hmiddle⟩ := ihfirst .conditional hts
          obtain ⟨_, rest', hmore, _ | emore, hrest⟩ := ihmore (.more hclose) hmiddle
          refine ⟨_, rest', .items (head?_ne_of_alike hts hclose hhead) hfirst hmore,
            .items ?_, hrest⟩
          simp only [Expr.shapes, efirst, emore]
  | close hcomma =>
      cases hgoal with
      | more hclose =>
          obtain ⟨tail, rfl, htail⟩ := exists_cons_of_alike hts rfl hclose
          exact ⟨_, tail, .close hcomma, .items rfl, htail⟩
  | next _ _ ihitem ihmore =>
      cases hgoal with
      | more hclose =>
          obtain ⟨tail, rfl, htail⟩ := exists_cons_of_alike hts rfl (by simp)
          obtain ⟨_, _, hitem, ⟨eitem⟩, hmiddle⟩ := ihitem .conditional htail
          obtain ⟨_, rest', hmore, _ | emore, hrest⟩ := ihmore (.more hclose) hmiddle
          exact ⟨_, rest', .next hitem hmore,
            .items (by simp only [Expr.shapes, eitem, emore]), hrest⟩

theorem readTokens_alike {ts us : List Token} {e : Expr} (h : readTokens ts = .ok e)
    (hts : List.Forall₂ Token.Alike ts us) : ∃ f, readTokens us = .ok f ∧ e.shape = f.shape := by
  rw [readTokens_eq_ok_iff] at h
  obtain ⟨_, rest, hread, ⟨hshape⟩, hrest⟩ := h.alike .conditional hts
  cases hrest
  exact ⟨_, (readTokens_eq_ok_iff _ _).2 hread, hshape⟩

theorem read_alike {a b : List Char} {e : Expr} (h : read a = .ok e) (hab : Alike .outside a b) :
    ∃ f, read b = .ok f ∧ e.shape = f.shape :=
  readTokens_alike h (tokens_alike (trimEnd_alike (trimStart_alike hab)))

/-- Two rows that differ at most in what their text cells hold give a formula scripts of the same
shape: both can be read or neither can, and the expressions differ at most in the contents of text
literals. -/
theorem read_rowScript_shape (functions : Formula.FunctionTable) (formula : String) {r s : Row}
    (h : r.Alike s) :
    (∃ e f, read (Formula.rowScript functions r formula).toList = .ok e ∧
      read (Formula.rowScript functions s formula).toList = .ok f ∧ e.shape = f.shape) ∨
    ∃ x y, read (Formula.rowScript functions r formula).toList = .error x ∧
      read (Formula.rowScript functions s formula).toList = .error y := by
  simp only [Formula.rowScript, String.toList_ofList]
  have halike := Formula.script_alike h functions formula.toList
  generalize Formula.script functions (.row r) formula.toList = a at halike
  generalize Formula.script functions (.row s) formula.toList = b at halike
  cases hread : read a with
  | ok e =>
      obtain ⟨f, hf, hshape⟩ := read_alike hread halike
      exact .inl ⟨e, f, rfl, hf, hshape⟩
  | error x =>
      cases hother : read b with
      | ok f =>
          obtain ⟨e, he, -⟩ := read_alike hother halike.symm
          rw [hread] at he
          cases he
      | error y => exact .inr ⟨x, y, rfl, rfl⟩

/-- Two people's rows: the first name holds a quotation mark, and the scores are the same. -/
theorem read_rowScript_shape_people :
    let ann : Row := ⟨⟨["person", "score"]⟩, 0, [.text "An\"n", .number 2]⟩
    let bob : Row := ⟨⟨["person", "score"]⟩, 1, [.text "Bob", .number 2]⟩
    let formula := "=IF(score>1,person,A2&\"-\")"
    ann.Alike bob ∧
    ((∃ e f, read (Formula.rowScript .standard ann formula).toList = .ok e ∧
      read (Formula.rowScript .standard bob formula).toList = .ok f ∧ e.shape = f.shape) ∨
    ∃ x y, read (Formula.rowScript .standard ann formula).toList = .error x ∧
      read (Formula.rowScript .standard bob formula).toList = .error y) := by
  intro ann bob formula
  have halike : ann.Alike bob := by
    refine ⟨rfl, fun i => ?_⟩
    match i with
    | 0 => exact .some (.inr ⟨_, _, rfl, rfl⟩)
    | 1 => exact .some (.inl rfl)
    | _ + 2 => exact .none
  exact ⟨halike, read_rowScript_shape .standard formula halike⟩

end SheetBoard.Script
