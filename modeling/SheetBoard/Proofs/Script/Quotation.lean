import SheetBoard.Proofs.Formula.Passing
import SheetBoard.Proofs.Script.Scanning

/-! The scanner of scripts and the passes over formulas agree on what is quoted: the characters of
the text tokens are those that the automaton of literals counts as part of one. The scanner takes a
doubled mark as one, where the automaton leaves the literal and enters the next. -/

namespace SheetBoard.Formula

namespace QuoteState

/-- From the state `st` on, the automaton counts the character at place `i` as part of a literal: it
is inside one there, or the character opens one. -/
def Covers (st : QuoteState) (cs : List Char) (i : Nat) : Prop :=
  ∃ c ∈ cs[i]?, st.run (cs.take i) ≠ .outside ∨ isQuote c = true

/-- The whole text is quoted. -/
def CoversAll (st : QuoteState) (cs : List Char) : Prop := ∀ i < cs.length, st.Covers cs i

variable {st : QuoteState} {a b : List Char} {i : Nat}

theorem Covers.lt_length (h : st.Covers a i) : i < a.length := by
  obtain ⟨c, hc, -⟩ := h
  exact (List.getElem?_eq_some_iff.1 hc).1

theorem covers_append_left (h : i < a.length) : st.Covers (a ++ b) i ↔ st.Covers a i := by
  unfold Covers
  rw [List.getElem?_append_left h, List.take_append_of_le_length h.le]

theorem covers_append_right : st.Covers (a ++ b) (a.length + i) ↔ (st.run a).Covers b i := by
  unfold Covers
  rw [List.getElem?_append_right (Nat.le_add_right _ _), Nat.add_sub_cancel_left,
    List.take_length_add_append, run_append]

theorem coversAll_nil : st.CoversAll [] := fun _ h => absurd h (Nat.not_lt_zero _)

theorem CoversAll.cons {c : Char} (hc : st ≠ .outside ∨ isQuote c = true)
    (h : (st.step c).CoversAll a) : st.CoversAll (c :: a) := by
  intro i hi
  cases i with
  | zero => exact ⟨c, rfl, hc⟩
  | succ i =>
      have hi : i < a.length := Nat.lt_of_succ_lt_succ hi
      have happend : st.Covers ([c] ++ a) ([c].length + i) ↔ (st.run [c]).Covers a i :=
        covers_append_right
      rw [List.length_singleton, Nat.add_comm] at happend
      exact happend.2 (h i hi)

end QuoteState

theorem Unquoted.not_covers {cs : List Char} (h : Unquoted cs) (i : Nat) :
    ¬ QuoteState.outside.Covers cs i := by
  rintro ⟨c, hc, hquoted⟩
  have htake : Unquoted (cs.take i) := fun d hd => h d (List.mem_of_mem_take hd)
  rcases hquoted with hrun | hquote
  · exact hrun htake.run
  · rw [h c (List.mem_of_getElem? hc)] at hquote
    cases hquote

/-- Text without marks moves the quoted places on. -/
theorem Unquoted.covers_append {a : List Char} (ha : Unquoted a) (b : List Char) (i : Nat) :
    QuoteState.outside.Covers (a ++ b) i ↔
      a.length ≤ i ∧ QuoteState.outside.Covers b (i - a.length) := by
  rcases Nat.lt_or_ge i a.length with hi | hi
  · rw [QuoteState.covers_append_left hi]
    exact ⟨fun h => absurd h (ha.not_covers i), fun h => absurd h.1 (Nat.not_le.2 hi)⟩
  · obtain ⟨k, rfl⟩ := Nat.exists_eq_add_of_le hi
    rw [QuoteState.covers_append_right, ha.run, Nat.add_sub_cancel_left]
    exact ⟨fun h => ⟨hi, h⟩, And.right⟩

end SheetBoard.Formula

namespace SheetBoard.Script

open Formula (QuoteState isQuote Unquoted PassesIn passesIn_run)

/-! ### What a token takes from the text -/

def Token.isText : Token → Bool
  | .text _ => true
  | _ => false

/-- The scanner has cut `x` off the text, and no character of it satisfies `q`. -/
structure Free (q : Char → Bool) (cs x after : List Char) : Prop where
  eq_append : cs = x ++ after
  free : ∀ c ∈ x, q c = false

/-- The characters of the operators that may have several, and the signs of exponents. -/
def operatorChars : List Char := ['=', '!', '<', '>', '&', '|', '+', '-']

/-- No number, no name and no operator of several characters has a character that satisfies `q`. -/
structure Apart (q : Char → Bool) : Prop where
  operator : ∀ c ∈ operatorChars, q c = false
  name : ∀ c, continuesName c = true → q c = false

theorem Free.unquoted {cs x after : List Char} (h : Free isQuote cs x after) : Unquoted x := h.free

section

variable {q : Char → Bool}

theorem free_nil (cs : List Char) : Free q cs [] cs := ⟨rfl, by simp⟩

theorem Free.append {cs x middle y after : List Char} (hx : Free q cs x middle)
    (hy : Free q middle y after) : Free q cs (x ++ y) after where
  eq_append := by rw [hx.eq_append, hy.eq_append, List.append_assoc]
  free := List.forall_mem_append.2 ⟨hx.free, hy.free⟩

theorem Free.cons {c : Char} {cs x after : List Char} (hc : q c = false)
    (h : Free q cs x after) : Free q (c :: cs) (c :: x) after where
  eq_append := by rw [h.eq_append, List.cons_append]
  free := List.forall_mem_cons.2 ⟨hc, h.free⟩

theorem free_takeWhile {p : Char → Bool} (hp : ∀ c, p c = true → q c = false)
    (cs : List Char) : Free q cs (cs.takeWhile p) (cs.dropWhile p) where
  eq_append := List.takeWhile_append_dropWhile.symm
  free c hc := hp c (List.all_eq_true.1 List.all_takeWhile c hc)

variable (hq : Apart q)
include hq

theorem Apart.digit (c : Char) (h : Number.isDigit c = true) : q c = false :=
  hq.name c (Formula.continuesName_of_isNameChar (Formula.isNameChar_of_isDigit h))

theorem free_dropEquals (cs : List Char) : ∃ x, Free q cs x (dropEquals cs) := by
  unfold dropEquals
  split
  · exact ⟨['='], (free_nil _).cons (hq.operator _ (by decide))⟩
  · exact ⟨[], free_nil _⟩

theorem free_lexPair? {cs after : List Char} {t : Token} (h : lexPair? cs = some (t, after)) :
    ∃ x, Free q cs x after ∧ t.isText = false := by
  have hcons : ∀ {a b : Char} {rest x : List Char}, a ∈ operatorChars → b ∈ operatorChars →
      Free q rest x after → Free q (a :: b :: rest) (a :: b :: x) after :=
    fun ha hb hx => (hx.cons (hq.operator _ hb)).cons (hq.operator _ ha)
  unfold lexPair? at h
  split at h
  case h_8 => cases h
  all_goals
    obtain ⟨rfl, rfl⟩ := Prod.mk.inj (Option.some.inj h)
    rename_i rest
    obtain ⟨x, hx⟩ := free_dropEquals hq rest
    first
    | exact ⟨_, hcons (by decide) (by decide) hx, rfl⟩
    | exact ⟨_, hcons (by decide) (by decide) (free_nil _), rfl⟩

theorem free_lexFraction (cs : List Char) : Free q cs (lexFraction cs).1 (lexFraction cs).2 := by
  unfold lexFraction
  split
  · exact (free_takeWhile hq.digit _).cons (hq.name '.' rfl)
  · exact free_nil _

theorem free_lexExponent (cs : List Char) : Free q cs (lexExponent cs).1 (lexExponent cs).2 := by
  unfold lexExponent
  split
  · split
    · rename_i e c rest hexponent
      simp only [Bool.and_eq_true, Bool.or_eq_true, decide_eq_true_eq] at hexponent
      obtain ⟨hletter, hnext⟩ := hexponent
      have he : q e = false := by
        rcases hletter with rfl | rfl <;> exact hq.name _ (by decide +kernel)
      have hc : q c = false := by
        rcases hnext with (hdigit | rfl) | rfl
        · exact hq.digit c hdigit
        · exact hq.operator _ (by decide)
        · exact hq.operator _ (by decide)
      exact ((free_takeWhile hq.digit rest).cons hc).cons he
    · exact free_nil _
  · exact free_nil _

theorem free_lexNumber (cs : List Char) :
    ∃ x, Free q cs x (lexNumber cs).2 ∧ (lexNumber cs).1.isText = false :=
  ⟨_, ((free_takeWhile hq.digit cs).append (free_lexFraction hq _)).append
    (free_lexExponent hq _), rfl⟩

/-- A token that no mark opens is no text, and behind its first character there is none that
satisfies `q`. -/
theorem free_lex {c : Char} (hquote : isQuote c = false) (hc : q c = false) (rest : List Char) :
    ∃ x, Free q (c :: rest) x (lex c rest).2 ∧ (lex c rest).1.isText = false := by
  unfold lex
  split
  · rename_i found hpair
    exact free_lexPair? hq hpair
  split
  · rename_i token hsingle
    refine ⟨[c], (free_nil rest).cons hc, ?_⟩
    unfold single? at hsingle
    split at hsingle <;> cases hsingle
    all_goals rfl
  split
  · rename_i hmark
    rw [show (c = '"' || c = '\'') = isQuote c from rfl, hquote] at hmark
    cases hmark
  split
  · exact free_lexNumber hq _
  split
  · exact ⟨_, (free_takeWhile hq.name rest).cons hc, rfl⟩
  · exact ⟨[c], (free_nil rest).cons hc, rfl⟩

end

theorem apart_isQuote : Apart isQuote where
  operator := by decide
  name c h := by
    have hmarks : ∀ d ∈ ['"', '\''], continuesName d = false := by decide +kernel
    cases hquote : isQuote c with
    | false => rfl
    | true =>
        have hmem : c ∈ ['"', '\''] := by simpa [isQuote] using hquote
        rw [hmarks c hmem] at h
        cases h

/-- The scanner has cut `x` off the text, all of it is quoted from the state `st` on, and the
literal is closed unless the text ends with it. -/
structure Quoted (st : QuoteState) (cs x after : List Char) : Prop where
  eq_append : cs = x ++ after
  covers : st.CoversAll x
  closed : after = [] ∨ st.run x = .outside

theorem Quoted.cons {st : QuoteState} {c : Char} {cs x after : List Char}
    (hc : st ≠ .outside ∨ isQuote c = true) (h : Quoted (st.step c) cs x after) :
    Quoted st (c :: cs) (c :: x) after where
  eq_append := by rw [h.eq_append, List.cons_append]
  covers := h.covers.cons hc
  closed := h.closed

/-- Behind the first of two marks the automaton is outside, and the second one opens a literal
again. -/
theorem quoted_lexText {mark : Char} (hmark : isQuote mark = true) (cs : List Char) :
    ∃ x, Quoted (.inside mark) cs x (lexText mark cs).2 := by
  have hslash : mark ≠ '\\' := by
    rintro rfl
    cases hmark
  have hclose : (QuoteState.inside mark).step mark = .outside :=
    (if_neg hslash).trans (if_pos rfl)
  have hinside : ∀ c, QuoteState.inside mark ≠ .outside ∨ isQuote c = true := by simp
  have hnil : ∀ st, Quoted st [] [] [] := fun st => ⟨rfl, QuoteState.coversAll_nil, .inl rfl⟩
  fun_induction lexText mark cs with
  | case1 => exact ⟨[], hnil _⟩
  | case2 => exact ⟨[mark], (hnil _).cons (hinside mark)⟩
  | case3 c _ => exact ⟨[c], (hnil _).cons (hinside c)⟩
  | case4 rest ih =>
      obtain ⟨x, hx⟩ := ih
      rw [← QuoteState.step_mark hmark] at hx
      refine ⟨mark :: mark :: x, .cons (hinside mark) ?_⟩
      rw [hclose]
      exact hx.cons (.inr hmark)
  | case5 d rest _ =>
      exact ⟨[mark], rfl, QuoteState.coversAll_nil.cons (hinside mark), .inr hclose⟩
  | case6 d rest _ ih =>
      obtain ⟨x, hx⟩ := ih
      exact ⟨'\\' :: d :: x, .cons (hinside _) (hx.cons (.inl (by simp)))⟩
  | case7 c d rest hc hne ih =>
      obtain ⟨x, hx⟩ := ih
      rw [← QuoteState.step_inside hc hne] at hx
      exact ⟨c :: x, hx.cons (hinside c)⟩

theorem lex_of_isQuote {c : Char} (hc : isQuote c = true) (rest : List Char) :
    lex c rest = (.text (.ofList (lexText c rest).1), (lexText c rest).2) := by
  have hmem : c ∈ ['"', '\''] := by simpa [isQuote] using hc
  have hpair : ∀ d ∈ ['"', '\''], d ∉ ['=', '!', '<', '>', '&', '|'] ∧ single? d = none := by
    decide
  unfold lex
  rw [lexPair?_eq_none (hpair c hmem).1, (hpair c hmem).2]
  exact if_pos hc

theorem quoted_lex {c : Char} (hc : isQuote c = true) (rest : List Char) :
    ∃ x, Quoted .outside (c :: rest) x (lex c rest).2 := by
  obtain ⟨x, hx⟩ := quoted_lexText hc rest
  rw [← QuoteState.step_mark hc] at hx
  rw [lex_of_isQuote hc]
  exact ⟨c :: x, hx.cons (.inr hc)⟩

/-! ### The places of tokens -/

/-- A token with the place of its first character and the place behind its last one. -/
structure Span where
  token : Token
  start : Nat
  stop : Nat
  deriving Repr, DecidableEq

theorem length_lex_lt_of_trimStart {cs rest : List Char} {c : Char}
    (h : Text.trimStart cs = c :: rest) : (lex c rest).2.length < cs.length := by
  have hlex := length_lex_lt c rest
  have htrim : (Text.trimStart cs).length ≤ cs.length :=
    (List.dropWhile_sublist Text.isBlank).length_le
  rw [h, List.length_cons] at htrim
  omega

/-- The tokens that are left when `cs` is left of a text with `size` characters. -/
def spansOf (size : Nat) (cs : List Char) : List Span :=
  match _h : Text.trimStart cs with
  | [] => []
  | c :: rest =>
    ⟨(lex c rest).1, size - (rest.length + 1), size - (lex c rest).2.length⟩ ::
      spansOf size (lex c rest).2
termination_by cs.length
decreasing_by exact length_lex_lt_of_trimStart _h

/-- The tokens of a text with their places. -/
def spans (cs : List Char) : List Span := spansOf cs.length cs

theorem map_token_spansOf (size : Nat) (cs : List Char) :
    (spansOf size cs).map Span.token = tokens cs := by
  fun_induction spansOf size cs with
  | case1 cs htrim => rw [tokens_eq_nil htrim, List.map_nil]
  | case2 cs c rest htrim ih => rw [tokens_eq_cons htrim, List.map_cons, ih]

/-- The place lies in a text token. -/
def InText (spans : List Span) (i : Nat) : Prop :=
  ∃ s ∈ spans, s.token.isText = true ∧ s.start ≤ i ∧ i < s.stop

theorem inText_cons {s : Span} {spans : List Span} {i : Nat} :
    InText (s :: spans) i ↔
      (s.token.isText = true ∧ s.start ≤ i ∧ i < s.stop) ∨ InText spans i := by
  simp [InText]

theorem spansOf_eq_nil {cs : List Char} (h : Text.trimStart cs = []) (size : Nat) :
    spansOf size cs = [] := by
  have htokens := map_token_spansOf size cs
  rw [tokens_eq_nil h] at htokens
  exact List.map_eq_nil_iff.1 htokens

theorem spansOf_eq_cons {cs rest : List Char} {c : Char} (h : Text.trimStart cs = c :: rest)
    (size : Nat) :
    spansOf size cs =
      ⟨(lex c rest).1, size - (rest.length + 1), size - (lex c rest).2.length⟩ ::
        spansOf size (lex c rest).2 := by
  rw [spansOf]
  split
  · simp_all
  · rename_i d tail htrim
    obtain ⟨rfl, rfl⟩ := List.cons.inj (h.symm.trans htrim)
    rfl

theorem free_trimStart (cs : List Char) :
    Free isQuote cs (cs.takeWhile Text.isBlank) (Text.trimStart cs) :=
  free_takeWhile (fun _ => Formula.isQuote_eq_false_of_isBlank) cs

theorem Quoted.covers_append {x after cs : List Char} (h : Quoted .outside cs x after) (i : Nat) :
    QuoteState.outside.Covers cs i ↔
      i < x.length ∨ x.length ≤ i ∧ QuoteState.outside.Covers after (i - x.length) := by
  rw [h.eq_append]
  rcases Nat.lt_or_ge i x.length with hi | hi
  · rw [QuoteState.covers_append_left hi]
    exact ⟨fun _ => .inl hi, fun _ => h.covers i hi⟩
  · obtain ⟨k, rfl⟩ := Nat.exists_eq_add_of_le hi
    rw [QuoteState.covers_append_right, Nat.add_sub_cancel_left]
    rcases h.closed with rfl | hrun
    · have hnone : ∀ st : QuoteState, ¬ st.Covers [] k := fun st hk =>
        Nat.not_lt_zero _ hk.lt_length
      simp [hnone]
    · rw [hrun]
      exact ⟨fun hk => .inr ⟨hi, hk⟩, fun hk => (hk.resolve_left (Nat.not_lt.2 hi)).2⟩

/-- What the scanner takes for one token is quoted as a whole, or not at all. -/
theorem exists_lexeme (c : Char) (rest : List Char) :
    ∃ x, c :: rest = x ++ (lex c rest).2 ∧ ∀ i, QuoteState.outside.Covers (c :: rest) i ↔
      ((lex c rest).1.isText = true ∧ i < x.length) ∨
        x.length ≤ i ∧ QuoteState.outside.Covers (lex c rest).2 (i - x.length) := by
  cases hc : isQuote c with
  | true =>
      obtain ⟨x, hx⟩ := quoted_lex hc rest
      have htext : (lex c rest).1.isText = true := by rw [lex_of_isQuote hc]; rfl
      refine ⟨x, hx.eq_append, fun i => ?_⟩
      rw [hx.covers_append, htext]
      simp
  | false =>
      obtain ⟨x, hx, htext⟩ := free_lex apart_isQuote hc hc rest
      refine ⟨x, hx.eq_append, fun i => ?_⟩
      rw [htext, hx.eq_append, hx.unquoted.covers_append]
      simp

/-- The text tokens of what is left cover what the automaton counts as quoted from there on. The
induction is on what is left: `before` characters have been read. -/
theorem inText_spansOf (before : Nat) (cs : List Char) (i : Nat) :
    InText (spansOf (before + cs.length) cs) i ↔
      before ≤ i ∧ QuoteState.outside.Covers cs (i - before) := by
  induction hn : cs.length using Nat.strong_induction_on generalizing before cs with
  | _ n ih =>
    subst hn
    obtain ⟨blanks, hblanks⟩ : ∃ blanks, Free isQuote cs blanks (Text.trimStart cs) :=
      ⟨_, free_trimStart cs⟩
    cases htrim : Text.trimStart cs with
    | nil =>
        rw [htrim] at hblanks
        have hcs : Unquoted cs := by
          rw [hblanks.eq_append, List.append_nil]
          exact hblanks.unquoted
        simp [spansOf_eq_nil htrim, InText, hcs.not_covers]
    | cons c rest =>
        rw [htrim] at hblanks
        obtain ⟨x, hx, hcovers⟩ := exists_lexeme c rest
        have hlength := congrArg List.length hblanks.eq_append
        have hrest := congrArg List.length hx
        simp only [List.length_append, List.length_cons] at hlength hrest
        have hcut := hblanks.unquoted.covers_append (c :: rest) (i - before)
        rw [← hblanks.eq_append, hcovers] at hcut
        have hafter := ih _ (length_lex_lt_of_trimStart htrim)
          (before + blanks.length + x.length) (lex c rest).2 rfl
        have hsize : before + blanks.length + x.length + (lex c rest).2.length =
            before + cs.length := by omega
        have hstart : before + cs.length - (rest.length + 1) = before + blanks.length := by omega
        have hstop : before + cs.length - (lex c rest).2.length =
            before + blanks.length + x.length := by omega
        rw [hsize] at hafter
        rw [spansOf_eq_cons htrim, inText_cons, hafter, hcut, hstart, hstop, Nat.sub_sub,
          Nat.sub_sub]
        by_cases htext : (lex c rest).1.isText = true <;>
          by_cases hquoted : QuoteState.outside.Covers (lex c rest).2
            (i - (before + blanks.length + x.length)) <;>
          simp only [htext, hquoted, Bool.false_eq_true, true_and, and_true, false_and, and_false,
            or_false, false_or] <;> omega

/-- A place of a script lies in a text token if and only if the automaton of literals counts it as
quoted, and every pass has the automaton's state there. The spans are those of the scanner's
tokens. -/
theorem inText_iff_covers (cs : List Char) :
    (spans cs).map Span.token = tokens cs ∧
      ∀ i, (InText (spans cs) i ↔ QuoteState.outside.Covers cs i) ∧
        PassesIn (QuoteState.outside.run (cs.take i)) (cs.take i) := by
  refine ⟨map_token_spansOf _ _, fun i => ⟨?_, passesIn_run _⟩⟩
  simpa [spans] using inText_spansOf 0 cs i

end SheetBoard.Script
