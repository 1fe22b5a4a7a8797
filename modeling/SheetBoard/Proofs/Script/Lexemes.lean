import SheetBoard.Proofs.Script.Quotation

/-! The way of the scanner through a text. It goes from token to token, each of which takes at least
one character, and it stops behind the last character only. The brackets that it meets outside of
texts are tokens of their own. -/

namespace SheetBoard.Script

open Formula (isQuote)

/-! ### Brackets -/

def isBracket (c : Char) : Bool := c = '(' || c = ')' || c = '[' || c = ']'

/-- The character of a bracket. -/
def Token.bracket? : Token → Option Char
  | .leftParen => some '('
  | .rightParen => some ')'
  | .leftBracket => some '['
  | .rightBracket => some ']'
  | _ => none

def bracketsOf (ts : List Token) : List Char := ts.filterMap Token.bracket?

@[simp] theorem bracketsOf_nil : bracketsOf [] = [] := rfl

@[simp] theorem bracketsOf_cons (t : Token) (ts : List Token) :
    bracketsOf (t :: ts) = t.bracket?.toList ++ bracketsOf ts := by
  cases ht : t.bracket? <;> simp [bracketsOf, ht]

@[simp] theorem bracketsOf_append (ts us : List Token) :
    bracketsOf (ts ++ us) = bracketsOf ts ++ bracketsOf us := List.filterMap_append

theorem apart_isBracket : Apart isBracket where
  operator := by decide
  name c h := by
    have hmarks : ∀ d ∈ ['(', ')', '[', ']'], continuesName d = false := by decide +kernel
    cases hc : isBracket c with
    | false => rfl
    | true =>
        have hmem : c ∈ ['(', ')', '[', ']'] := by simpa [isBracket, or_assoc] using hc
        rw [hmarks c hmem] at h
        cases h

theorem lex_of_isBracket {c : Char} (h : isBracket c = true) (rest : List Char) :
    ∃ t, lex c rest = (t, rest) ∧ t.bracket? = some c ∧ t.isText = false := by
  obtain ((rfl | rfl) | rfl) | rfl : ((c = '(' ∨ c = ')') ∨ c = '[') ∨ c = ']' := by
    simpa [isBracket] using h
  · exact ⟨.leftParen, rfl, rfl, rfl⟩
  · exact ⟨.rightParen, rfl, rfl, rfl⟩
  · exact ⟨.leftBracket, rfl, rfl, rfl⟩
  · exact ⟨.rightBracket, rfl, rfl, rfl⟩

theorem bracket?_lexPair? {cs after : List Char} {t : Token} (h : lexPair? cs = some (t, after)) :
    t.bracket? = none := by
  unfold lexPair? at h
  split at h
  case h_8 => cases h
  all_goals
    obtain ⟨rfl, rfl⟩ := Prod.mk.inj (Option.some.inj h)
    rfl

theorem bracket?_single? {c : Char} (hc : isBracket c = false) {t : Token}
    (h : single? c = some t) : t.bracket? = none := by
  unfold single? at h
  split at h
  case h_18 => cases h
  case h_14 | h_15 | h_16 | h_17 => cases hc
  all_goals
    obtain rfl := Option.some.inj h
    rfl

/-- Only a bracket starts the token of one. -/
theorem bracket?_lex {c : Char} (hc : isBracket c = false) (rest : List Char) :
    (lex c rest).1.bracket? = none := by
  unfold lex
  split
  · rename_i found hpair
    exact bracket?_lexPair? hpair
  split
  · rename_i token hsingle
    exact bracket?_single? hc hsingle
  split
  · rfl
  split
  · rfl
  split <;> rfl

/-! ### Lexemes -/

/-- A token with the text that it was read from. -/
structure Lexeme where
  text : List Char
  token : Token

/-- The brackets of a lexeme. Those within a text do not count. -/
def Lexeme.brackets (l : Lexeme) : List Char :=
  if l.token.isText then [] else l.text.filter isBracket

/-- The token that is read at a character takes this character at least, and has the brackets that
it was read from. -/
theorem exists_lexeme_brackets (c : Char) (rest : List Char) :
    ∃ x, c :: rest = x ++ (lex c rest).2 ∧ x ≠ [] ∧
      (Lexeme.mk x (lex c rest).1).brackets = (lex c rest).1.bracket?.toList := by
  have hne : ∀ {x}, c :: rest = x ++ (lex c rest).2 → x ≠ [] := by
    rintro x hx rfl
    have hlex := length_lex_lt c rest
    rw [List.nil_append] at hx
    rw [← hx] at hlex
    exact Nat.lt_irrefl _ hlex
  cases hbracket : isBracket c with
  | true =>
      obtain ⟨t, hlex, hchar, htext⟩ := lex_of_isBracket hbracket rest
      refine ⟨[c], by rw [hlex]; rfl, by simp, ?_⟩
      simp [Lexeme.brackets, hlex, htext, hchar, hbracket]
  | false =>
      rw [bracket?_lex hbracket rest]
      cases hquote : isQuote c with
      | true =>
          obtain ⟨x, hx⟩ := quoted_lex hquote rest
          have htext : (lex c rest).1.isText = true := by
            rw [lex_of_isQuote hquote]
            rfl
          exact ⟨x, hx.eq_append, hne hx.eq_append, if_pos htext⟩
      | false =>
          obtain ⟨x, hx, htext⟩ := free_lex apart_isBracket hquote hbracket rest
          refine ⟨x, hx.eq_append, hne hx.eq_append, ?_⟩
          have hfilter : x.filter isBracket = [] :=
            List.filter_eq_nil_iff.2 fun d hd => by simp [hx.free d hd]
          simp [Lexeme.brackets, htext, hfilter]

/-! ### The whole text -/

/-- The scanner goes through the text and reads the lexemes. Up to the end it drops blanks and takes
a token, which has at least one character. -/
inductive Scan : List Char → List Lexeme → Prop where
  | done {blanks : List Char} : (∀ d ∈ blanks, Text.isBlank d = true) → Scan blanks []
  | token {blanks x rest after : List Char} {c : Char} {t : Token} {ls : List Lexeme} :
      (∀ d ∈ blanks, Text.isBlank d = true) → Text.isBlank c = false → lex c rest = (t, after) →
      c :: rest = x ++ after → x ≠ [] → Scan after ls →
      Scan (blanks ++ c :: rest) (⟨x, t⟩ :: ls)

theorem exists_scan (cs : List Char) : ∃ ls, Scan cs ls ∧ ls.map Lexeme.token = tokens cs ∧
    ls.flatMap Lexeme.brackets = bracketsOf (tokens cs) := by
  induction hn : cs.length using Nat.strong_induction_on generalizing cs with
  | _ n ih =>
    subst hn
    have hblanks : ∀ d ∈ cs.takeWhile Text.isBlank, Text.isBlank d = true :=
      List.all_eq_true.1 List.all_takeWhile
    have hcs : cs.takeWhile Text.isBlank ++ Text.trimStart cs = cs :=
      List.takeWhile_append_dropWhile
    cases htrim : Text.trimStart cs with
    | nil =>
        rw [htrim, List.append_nil] at hcs
        rw [tokens_eq_nil htrim]
        exact ⟨[], .done (hcs ▸ hblanks), rfl, rfl⟩
    | cons c rest =>
        obtain ⟨x, hx, hne, hbrackets⟩ := exists_lexeme_brackets c rest
        obtain ⟨ls, hscan, htokens, hrest⟩ := ih _ (length_lex_lt_of_trimStart htrim) _ rfl
        have hc : Text.isBlank c = false := by
          have hhead := List.head?_dropWhile_not Text.isBlank cs
          rw [show cs.dropWhile Text.isBlank = c :: rest from htrim] at hhead
          simpa using hhead
        refine ⟨⟨x, (lex c rest).1⟩ :: ls, ?_, ?_, ?_⟩
        · rw [htrim] at hcs
          rw [← hcs]
          exact .token hblanks hc rfl hx hne hscan
        · rw [tokens_eq_cons htrim, List.map_cons, htokens]
        · rw [tokens_eq_cons htrim, List.flatMap_cons, bracketsOf_cons, hbrackets, hrest]

end SheetBoard.Script
