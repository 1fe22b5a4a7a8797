import SheetBoard.Proofs.Formula.Operators
import SheetBoard.Proofs.Script.Derivation

/-! The tokens of a text in pieces: each piece is scanned on its own, since no token runs from one
piece into the next. -/

namespace SheetBoard.Formula

open Script (Token)

/-- The token of an operator in scripts. -/
def Operator.token : Operator → Token
  | .add => .plus
  | .subtract => .minus
  | .multiply => .star
  | .divide => .slash
  | .concat => .plus
  | .equal => .equal
  | .notEqual => .notEqual
  | .less => .less
  | .lessEqual => .lessEqual
  | .greater => .greater
  | .greaterEqual => .greaterEqual

def Mark.token : Mark → Token
  | .left => .leftParen
  | .right => .rightParen
  | .comma => .comma
  | .listComma => .comma
  | .negation => .minus
  | .operator op => op.token
  | .scriptOperator op => op.token
  | .particle p => .name (.ofList p.word)

/-- The tokens of a piece. References are not part of scripts. -/
def Piece.tokens : Piece → List Token
  | .mark m => [m.token]
  | .callee name => [.name (.ofList name), .leftParen]
  | .numeral digits => [.number ((Number.read? digits).getD (0.0 / 0.0))]
  | .literal value => [.text (.ofList value)]
  | .truth capitals value => [.name (.ofList (truthText capitals value))]
  | .reference _ => []

/-- The piece may stand in a script: its operators are those of scripts, and it is no reference. -/
def Piece.isScript : Piece → Bool
  | .mark (.operator _) => false
  | .reference _ => false
  | _ => true

end SheetBoard.Formula

namespace SheetBoard.Script

open Formula (Piece Mark Operator Particle IsMember Ends isNameStart isNameChar textOf quote escape)

/-! ### Single tokens -/

/-- The text `x` is scanned into `ts`, and the scan goes on behind it. -/
def Scans (x : List Char) (ts : List Token) (rest : List Char) : Prop :=
  tokens (x ++ rest) = ts ++ tokens rest

theorem Scans.append {x y rest : List Char} {ts us : List Token} (hx : Scans x ts (y ++ rest))
    (hy : Scans y us rest) : Scans (x ++ y) (ts ++ us) rest := by
  unfold Scans at *
  rw [List.append_assoc, hx, hy, List.append_assoc]

theorem scans_blank (rest : List Char) : Scans [' '] [] rest := by
  have htrim : Text.trimStart ([' '] ++ rest) = Text.trimStart rest :=
    List.dropWhile_cons_of_pos (by decide)
  unfold Scans
  rw [List.nil_append]
  cases hrest : Text.trimStart rest with
  | nil => rw [tokens_eq_nil hrest, tokens_eq_nil (htrim.trans hrest)]
  | cons c tail => rw [tokens_eq_cons hrest, tokens_eq_cons (htrim.trans hrest)]

theorem scans_of_lex {c : Char} {x rest : List Char} {t : Token} (hblank : Text.isBlank c = false)
    (h : lex c (x ++ rest) = (t, rest)) : Scans (c :: x) [t] rest := by
  have htrim : Text.trimStart (c :: x ++ rest) = c :: (x ++ rest) :=
    List.dropWhile_cons_of_neg (by simp [hblank])
  unfold Scans
  rw [tokens_eq_cons htrim, h]
  rfl

/-- Characters that may start an operator of two characters. -/
theorem lexPair?_eq_none {c : Char} (h : c ∉ ['=', '!', '<', '>', '&', '|']) (rest : List Char) :
    lexPair? (c :: rest) = none := by
  unfold lexPair?
  split <;> simp_all

theorem scans_single {c : Char} {t : Token} (hblank : Text.isBlank c = false)
    (hpair : c ∉ ['=', '!', '<', '>', '&', '|']) (hsingle : single? c = some t) (rest : List Char) :
    Scans [c] [t] rest := by
  refine scans_of_lex hblank ?_
  unfold lex
  rw [lexPair?_eq_none hpair, hsingle]
  rfl

theorem startsNumber_cons {c : Char} (h : c ≠ '.') (rest : List Char) :
    startsNumber (c :: rest) = Number.isDigit c := by
  unfold startsNumber
  split <;> simp_all

/-- The characters that start tokens of their own or literals of texts, and the point. -/
def tokenMarks : List Char :=
  ['=', '!', '<', '>', '&', '|', '+', '-', '*', '/', '%', '?', ':', ',', '(', ')', '[', ']', '"',
    '\'', '.']

/-- A name starts with a letter or an underscore. -/
def startsName (c : Char) : Bool := Text.isAlphabetic c || c = '_'

/-- A name of scripts: a letter or an underscore, and what names go on with. -/
structure IsWord (w : List Char) : Prop where
  start : w.head?.any startsName = true
  all : ∀ c ∈ w, continuesName c = true

instance (w : List Char) : Decidable (IsWord w) :=
  decidable_of_iff (w.head?.any startsName = true ∧ ∀ c ∈ w, continuesName c = true)
    ⟨fun h => ⟨h.1, h.2⟩, fun h => ⟨h.start, h.all⟩⟩

theorem IsWord.ne_nil {w : List Char} (h : IsWord w) : w ≠ [] := by
  rintro rfl
  cases h.start

/-- There are only a few blanks, and no name has one. -/
theorem isBlank_of_continuesName {c : Char} (h : continuesName c = true) :
    Text.isBlank c = false := by
  have hcheck : ∀ n ∈ Text.blankRanges.flatMap fun r => List.range' r.1 (r.2 + 1 - r.1),
      continuesName (Char.ofNat n) = false := by decide +kernel
  cases hblank : Text.isBlank c with
  | false => rfl
  | true =>
      obtain ⟨r, hr, hrange⟩ := List.any_eq_true.1 hblank
      simp only [Bool.and_eq_true, decide_eq_true_eq] at hrange
      have hmem : c.toNat ∈ Text.blankRanges.flatMap fun r => List.range' r.1 (r.2 + 1 - r.1) :=
        List.mem_flatMap.2 ⟨r, hr, List.mem_range'_1.2 ⟨hrange.1, by omega⟩⟩
      have hno := hcheck _ hmem
      rw [Char.ofNat_toNat, h] at hno
      cases hno

/-- All other characters start a number or a name. -/
theorem lex_of_notMem {c : Char} (h : c ∉ tokenMarks) (rest : List Char) :
    lex c rest =
      if Number.isDigit c then lexNumber (c :: rest)
      else if startsName c then
        (.name (.ofList (c :: rest.takeWhile continuesName)), rest.dropWhile continuesName)
      else (.unknown c, rest) := by
  have hne : ∀ d ∈ tokenMarks, c ≠ d := by
    rintro d hd rfl
    exact h hd
  have hpair : c ∉ ['=', '!', '<', '>', '&', '|'] := fun hmem => h (List.mem_append_left _ hmem)
  have hsingle : single? c = none := by
    unfold single?
    split
    case h_18 => rfl
    all_goals exact absurd rfl (hne _ (by decide))
  have hquote : (c = '"' || c = '\'') = false := by
    simp [hne '"' (by decide), hne '\'' (by decide)]
  unfold lex
  rw [lexPair?_eq_none hpair, hsingle]
  simp only [hquote, startsNumber_cons (hne '.' (by decide)), Bool.false_eq_true, if_false]
  rfl

theorem lex_of_isDigit {c : Char} (hc : Number.isDigit c = true) (rest : List Char) :
    lex c rest = lexNumber (c :: rest) := by
  have hmarks : ∀ d ∈ tokenMarks, Number.isDigit d = false := by decide
  rw [lex_of_notMem fun hmem => by simp [hmarks c hmem] at hc, if_pos hc]

theorem lex_of_startsName {c : Char} (hc : startsName c = true) (rest : List Char) :
    lex c rest = (.name (.ofList (c :: rest.takeWhile continuesName)),
      rest.dropWhile continuesName) := by
  have hmarks : ∀ d ∈ tokenMarks, startsName d = false := by decide +kernel
  have hdigit : ¬ Number.isDigit c = true := by
    intro hd
    have hcheck : (!Number.isDigit c || !startsName c) = true :=
      Formula.of_isNameChar (q := fun c => !Number.isDigit c || !startsName c)
        (by decide +kernel) (Formula.isNameChar_of_isDigit hd)
    simp [hd, hc] at hcheck
  rw [lex_of_notMem fun hmem => by simp [hmarks c hmem] at hc, if_neg hdigit, if_pos hc]

section

variable {w rest : List Char}

theorem scans_word (hw : IsWord w) (hrest : rest.head?.any continuesName = false) :
    Scans w [.name (.ofList w)] rest := by
  cases w with
  | nil => cases hw.start
  | cons c w =>
      have hmore : ∀ d ∈ w, continuesName d = true := fun d hd => hw.all d (by simp [hd])
      refine scans_of_lex (isBlank_of_continuesName (hw.all c (by simp))) ?_
      rw [lex_of_startsName (by simpa using hw.start), Number.takeWhile_append_of_all hmore hrest,
        Number.dropWhile_append_of_all hmore hrest]

theorem isWord_of_isMember (hw : IsMember w) : IsWord w where
  start := by
    have hstart := hw.start
    cases w with
    | nil => cases hstart
    | cons c w =>
        have hcheck : (!isNameStart c || startsName c) = true :=
          Formula.of_isNameChar (q := fun c => !isNameStart c || startsName c) (by decide +kernel)
            (Formula.isNameChar_of_isNameStart hstart)
        have hc : isNameStart c = true := hstart
        simpa [hc] using hcheck
  all c hc := by
    rcases hw.all c hc with hname | rfl
    · exact Formula.continuesName_of_isNameChar hname
    · decide

theorem scans_member (hw : IsMember w) (hrest : rest.head?.any continuesName = false) :
    Scans w [.name (.ofList w)] rest := scans_word (isWord_of_isMember hw) hrest

/-- A numeral may go on with this character. -/
def continuesNumeral (c : Char) : Bool := Number.isDigit c || c = '.' || c = 'e' || c = 'E'

theorem lexFraction_eq (h : rest.head?.any continuesNumeral = false) :
    lexFraction rest = ([], rest) := by
  unfold lexFraction
  split
  · cases h
  · rfl

theorem lexExponent_eq (h : rest.head?.any continuesNumeral = false) :
    lexExponent rest = ([], rest) := by
  unfold lexExponent
  split
  · rename_i e c tail
    have he : (e = 'e' || e = 'E') = false := by simp_all [continuesNumeral]
    simp only [he, Bool.false_and, Bool.false_eq_true, if_false]
  · rfl

theorem lexNumber_numeral (n : Number.Numeral) (hrest : rest.head?.any continuesNumeral = false) :
    lexNumber (n.text ++ rest) =
      (.number ((Number.read? n.text).getD (0.0 / 0.0)), rest) := by
  have hdigit : rest.head?.any Number.isDigit = false := by
    cases rest with
    | nil => rfl
    | cons c rest => simp_all [continuesNumeral]
  unfold lexNumber Number.Numeral.text
  by_cases hfraction : n.fraction = []
  · simp only [hfraction, if_true, List.append_nil,
      Number.takeWhile_append_of_all n.whole_digits hdigit,
      Number.dropWhile_append_of_all n.whole_digits hdigit, lexFraction_eq hrest,
      lexExponent_eq hrest]
  · have hpoint : ('.' :: (n.fraction ++ rest)).head?.any Number.isDigit = false := rfl
    simp only [hfraction, if_false, List.append_assoc, List.cons_append,
      Number.takeWhile_append_of_all n.whole_digits hpoint,
      Number.dropWhile_append_of_all n.whole_digits hpoint, lexFraction,
      Number.takeWhile_append_of_all n.fraction_digits hdigit,
      Number.dropWhile_append_of_all n.fraction_digits hdigit, lexExponent_eq hrest,
      List.append_nil]

theorem scans_numeral (n : Number.Numeral) (hrest : rest.head?.any continuesNumeral = false) :
    Scans n.text [.number ((Number.read? n.text).getD (0.0 / 0.0))] rest := by
  obtain ⟨c, tail, htext, hc⟩ := n.text_eq_cons
  have hname := Formula.isNameChar_of_isDigit hc
  have hnumber := lexNumber_numeral n hrest
  rw [htext] at hnumber ⊢
  refine scans_of_lex (Formula.isBlank_of_isNameChar hname) ?_
  rw [lex_of_isDigit hc]
  exact hnumber

theorem lexText_escape (s : List Char) (hrest : rest.head? ≠ some '"') :
    lexText '"' (escape s ++ '"' :: rest) = (s, rest) := by
  induction s with
  | nil =>
      cases rest with
      | nil => rfl
      | cons d rest =>
          have hd : d ≠ '"' := by simpa using hrest
          simp [lexText, hd]
  | cons c s ih =>
      rw [Formula.escape_cons]
      by_cases hc : c = '"' ∨ c = '\\'
      · have hunescape : unescape c = c := by rcases hc with rfl | rfl <;> rfl
        simp [hc, lexText, ih, hunescape]
      · obtain ⟨hmark, hslash⟩ := not_or.mp hc
        obtain ⟨d, tail, htail⟩ : ∃ d tail, escape s ++ '"' :: rest = d :: tail :=
          List.exists_cons_of_ne_nil (by simp)
        rw [htail] at ih
        simp [hmark, hslash, htail, lexText, ih]

theorem scans_quote (s : List Char) (hrest : rest.head? ≠ some '"') :
    Scans (quote s) [.text (.ofList s)] rest := by
  refine scans_of_lex (x := escape s ++ ['"']) (by decide) ?_
  have htext := lexText_escape s hrest
  rw [List.append_assoc, List.singleton_append]
  unfold lex
  rw [lexPair?_eq_none (by decide)]
  simp [single?, htext]

end

/-! ### Pieces -/

theorem scans_operator (op : Operator) {rest : List Char} (hequal : rest.head? ≠ some '=')
    (hgreater : rest.head? ≠ some '>') : Scans op.scriptText [op.token] rest := by
  have hdrop : dropEquals rest = rest := by
    unfold dropEquals
    split
    · simp at hequal
    · rfl
  have hless : lexPair? ('<' :: rest) = none := by
    unfold lexPair?
    split <;> simp_all
  have hmore : lexPair? ('>' :: rest) = none := by
    unfold lexPair?
    split <;> simp_all
  cases op with
  | concat =>
      have hplus : Scans ['+'] [.plus] (' ' :: rest) :=
        scans_single (by decide) (by decide) rfl _
      exact (scans_blank _).append (hplus.append (scans_blank rest))
  | equal => exact scans_of_lex (by decide) (by simp [lex, Operator.token, lexPair?, hdrop])
  | notEqual => exact scans_of_lex (by decide) (by simp [lex, Operator.token, lexPair?, hdrop])
  | lessEqual => exact scans_of_lex (by decide) (by simp [lex, Operator.token, lexPair?])
  | greaterEqual => exact scans_of_lex (by decide) (by simp [lex, Operator.token, lexPair?])
  | less => exact scans_of_lex (by decide) (by simp [lex, Operator.token, hless, single?])
  | greater => exact scans_of_lex (by decide) (by simp [lex, Operator.token, hmore, single?])
  | _ => exact scans_single (by decide) (by decide) rfl rest

theorem scans_mark {m : Mark} (hm : (Piece.mark m).isScript = true) {rest : List Char}
    (hrest : m ≠ .right → rest.head? ≠ some '=' ∧ rest.head? ≠ some '>') :
    Scans m.text [m.token] rest := by
  cases m with
  | operator op => cases hm
  | scriptOperator op => exact scans_operator op (hrest (by simp)).1 (hrest (by simp)).2
  | listComma => exact (scans_single (by decide) (by decide) rfl _).append (scans_blank rest)
  | particle p =>
      have hword : IsMember p.word := by cases p <;> decide
      have hname : Scans p.word [.name (.ofList p.word)] (' ' :: rest) := scans_member hword rfl
      exact ((scans_blank (p.word ++ ' ' :: rest)).append hname).append (scans_blank rest)
  | _ => exact scans_single (by decide) (by decide) rfl rest

/-- What follows a piece that ends no operand does not go on with an operator. -/
theorem head?_textOf_ne {p : Piece} {ps : List Piece} (hchain : (p :: ps).IsChain Piece.Adjacent)
    (hp : p.ends = false) (hlegible : ∀ q ∈ ps, q.Legible) :
    (textOf ps).head? ≠ some '=' ∧ (textOf ps).head? ≠ some '>' := by
  cases ps with
  | nil => simp
  | cons q ps =>
      have hq := hlegible q (by simp)
      have hadjacent := (List.isChain_cons_cons.1 hchain).1
      simp only [Piece.Adjacent, hp, Bool.false_eq_true, if_false] at hadjacent
      rw [Formula.textOf_cons, List.head?_append_of_ne_nil _ hq.text_ne_nil]
      rcases hadjacent.1 with hstarts | ⟨-, rfl⟩
      · by_cases hsign : q = .mark .negation
        · subst hsign
          decide
        · have hopens := hq.opens hstarts hsign
          constructor <;>
            · intro hhead
              rw [hhead] at hopens
              revert hopens
              decide
      · decide

theorem scans_piece {p : Piece} (hp : p.Legible) (hscript : p.isScript = true) {rest : List Char}
    (hends : p.ends = true → Ends rest)
    (hrest : p.ends = false → rest.head? ≠ some '=' ∧ rest.head? ≠ some '>') :
    Scans p.text p.tokens rest := by
  cases p with
  | mark m => exact scans_mark hscript fun hm => hrest (by simpa [Piece.ends] using hm)
  | callee name =>
      have hname : Scans name [.name (.ofList name)] ('(' :: rest) := scans_member hp rfl
      exact hname.append (scans_single (by decide) (by decide) rfl rest)
  | numeral digits =>
      obtain ⟨n, rfl⟩ := hp
      exact scans_numeral n ((hends rfl).any (by decide))
  | literal value => exact scans_quote value ((hends rfl).head?_ne (by decide))
  | truth capitals value =>
      have hword : IsMember (Piece.truthText capitals value) := by
        cases capitals <;> cases value <;> decide
      exact scans_member hword ((hends rfl).any (by decide))
  | reference r => cases hscript

/-- The tokens of a text are those of its pieces. -/
theorem tokens_textOf {ps : List Piece} (hchain : ps.IsChain Piece.Adjacent)
    (hlegible : ∀ p ∈ ps, p.Legible) (hscript : ∀ p ∈ ps, p.isScript = true) :
    tokens (textOf ps) = ps.flatMap Piece.tokens := by
  induction ps with
  | nil => exact tokens_eq_nil rfl
  | cons p ps ih =>
      have hmore : ∀ q ∈ ps, q.Legible := fun q hq => hlegible q (by simp [hq])
      have hp : Scans p.text p.tokens (textOf ps) :=
        scans_piece (hlegible p (by simp)) (hscript p (by simp))
          (Formula.ends_textOf hchain) fun hends => head?_textOf_ne hchain hends hmore
      unfold Scans at hp
      rw [Formula.textOf_cons, hp, List.flatMap_cons,
        ih hchain.tail hmore fun q hq => hscript q (by simp [hq])]

end SheetBoard.Script
