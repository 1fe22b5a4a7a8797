import SheetBoard.Proofs.Formula.Name
import Mathlib.Data.List.Chain

/-! Formula text in pieces: names, numerals, literals, references, and the marks between them. A
pass over the text of a tree works piece by piece, since two pieces that could run into each other
never stand side by side. -/

namespace SheetBoard.Formula

/-- The words that statements put between expressions. -/
inductive Particle where
  | ifWord | elseWord | andWord | orWord
  deriving Repr, DecidableEq

def Particle.word : Particle → List Char
  | .ifWord => ['i', 'f']
  | .elseWord => ['e', 'l', 's', 'e']
  | .andWord => ['a', 'n', 'd']
  | .orWord => ['o', 'r']

/-- An operator as scripts write it. -/
def Operator.scriptText : Operator → List Char
  | .concat => [' ', '+', ' ']
  | .equal => ['=', '=']
  | .notEqual => ['!', '=']
  | op => op.text

inductive Mark where
  | left | right | comma
  /-- A comma with a blank behind it. -/
  | listComma
  /-- A minus in front of an operand. -/
  | negation
  | operator (op : Operator)
  | scriptOperator (op : Operator)
  | particle (p : Particle)
  deriving Repr, DecidableEq

namespace Mark

def text : Mark → List Char
  | left => ['(']
  | right => [')']
  | comma => [',']
  | listComma => [',', ' ']
  | negation => ['-']
  | operator op => op.text
  | scriptOperator op => op.scriptText
  | particle p => ' ' :: p.word ++ [' ']

def all : List Mark :=
  let operators := [Operator.add, .subtract, .multiply, .divide, .concat, .equal, .notEqual, .less,
    .lessEqual, .greater, .greaterEqual]
  let particles := [Particle.ifWord, .elseWord, .andWord, .orWord]
  [left, right, comma, listComma, negation] ++ operators.map operator ++
    operators.map scriptOperator ++ particles.map particle

/-- There are few marks, so a property of all of them is checked one by one. -/
theorem of_all {P : Mark → Prop} (h : ∀ m ∈ all, P m) : ∀ m, P m := by
  intro m
  refine h m ?_
  cases m with
  | operator op => cases op <;> decide
  | scriptOperator op => cases op <;> decide
  | particle p => cases p <;> decide
  | _ => decide

/-- The mark may stand right after an operand. -/
def follows : Mark → Bool
  | left => false
  | negation => false
  | _ => true

end Mark

inductive Piece where
  | mark (m : Mark)
  /-- The name of a call, with its parenthesis. -/
  | callee (name : List Char)
  | numeral (digits : List Char)
  | literal (value : List Char)
  /-- A truth value as formulas write it, in capitals, or as scripts do. -/
  | truth (capitals value : Bool)
  | reference (ref : Ref)

namespace Piece

def truthText : Bool → Bool → List Char
  | true, true => ['T', 'R', 'U', 'E']
  | true, false => ['F', 'A', 'L', 'S', 'E']
  | false, true => ['T', 'r', 'u', 'e']
  | false, false => ['F', 'a', 'l', 's', 'e']

def text : Piece → List Char
  | mark m => m.text
  | callee name => name ++ ['(']
  | numeral digits => digits
  | literal value => quote value
  | truth capitals value => truthText capitals value
  | reference r => r.text

/-- An operand ends with this piece. -/
def ends : Piece → Bool
  | mark m => m = .right
  | callee _ => false
  | _ => true

/-- An operand starts with this piece. -/
def starts : Piece → Bool
  | mark m => m = .left || m = .negation
  | _ => true

def follows : Piece → Bool
  | mark m => m.follows
  | _ => false

/-- The piece opens a parenthesis. -/
def opens : Piece → Bool
  | mark m => m = .left
  | callee _ => true
  | _ => false

/-- The two pieces may stand side by side. A sign never comes right after the operator that joins
texts. -/
def Adjacent (p q : Piece) : Prop :=
  if p.ends then q.follows = true
  else (q.starts = true ∨ p.opens = true ∧ q = .mark .right) ∧
    (p = .mark (.operator .concat) → q ≠ .mark .negation)

end Piece

/-- The text of some pieces. -/
def textOf (ps : List Piece) : List Char := ps.flatMap Piece.text

@[simp] theorem textOf_nil : textOf [] = [] := rfl

@[simp] theorem textOf_cons (p : Piece) (ps : List Piece) :
    textOf (p :: ps) = p.text ++ textOf ps := rfl

@[simp] theorem textOf_append (ps qs : List Piece) : textOf (ps ++ qs) = textOf ps ++ textOf qs :=
  List.flatMap_append

theorem textOf_intercalate (sep : List Piece) (pss : List (List Piece)) :
    textOf (sep.intercalate pss) = (textOf sep).intercalate (pss.map textOf) := by
  induction pss with
  | nil => rfl
  | cons ps pss ih =>
      cases pss with
      | nil => simp
      | cons qs pss => simpa using ih

/-! ### The pieces of a tree -/

def enclosed (ps : List Piece) : List Piece := .mark .left :: ps ++ [.mark .right]

/-- The pieces of an operand, which is put in parentheses if it is compound. -/
def operandPieces (compound : Bool) (ps : List Piece) : List Piece :=
  if compound then enclosed ps else ps

/-- The pieces of a statement, without its parentheses. -/
def Keyword.join : Keyword → List (List Piece) → List Piece
  | .choice, [condition, yes, no] =>
    yes ++ .mark (.particle .ifWord) :: condition ++ .mark (.particle .elseWord) :: no
  | .choice, arguments => [.mark .comma].intercalate arguments
  | .conjunction, arguments => [.mark (.particle .andWord)].intercalate arguments
  | .disjunction, arguments => [.mark (.particle .orWord)].intercalate arguments

/-- The pieces of a call. It is a statement if its keyword is among those already written so. -/
def callPieces (done : Keyword → Bool) (name : List Char) (arguments : List (List Piece)) :
    List Piece :=
  match (keyword? name).filter done with
  | some keyword => enclosed (keyword.join arguments)
  | none => .callee name :: [.mark .comma].intercalate arguments ++ [.mark .right]

/-- The pieces of a tree of which the calls of some keywords are written as statements. -/
def Tree.pieces (done : Keyword → Bool) : Tree → List Piece
  | number n => [.numeral n.text]
  | text s => [.literal s.toList]
  | boolean b => [.truth true b]
  | reference r => [.reference r]
  | negate e => .mark .negation :: operandPieces e.isOperator (e.pieces done)
  | binary op l r =>
    operandPieces l.isOperator (l.pieces done) ++
      .mark (.operator op) :: operandPieces r.isOperator (r.pieces done)
  | call name arguments => callPieces done name.chars (arguments.map fun a => a.pieces done)
  | paren e => enclosed (e.pieces done)

theorem textOf_enclosed (ps : List Piece) :
    textOf (enclosed ps) = Tree.parenthesised (textOf ps) := by
  simp [enclosed, Tree.parenthesised, Piece.text, Mark.text]

theorem textOf_operandPieces (compound : Bool) (ps : List Piece) :
    textOf (operandPieces compound ps) = Tree.operandText compound (textOf ps) := by
  cases compound
  · rfl
  · exact textOf_enclosed ps

theorem Tree.textOf_pieces (e : Tree) : textOf (e.pieces fun _ => false) = e.render := by
  induction e with
  | number n => simp [pieces, render, Piece.text]
  | text s => simp [pieces, render, Piece.text]
  | boolean b => cases b <;> simp [pieces, render, Piece.text, Piece.truthText]
  | reference r => simp [pieces, render, Piece.text]
  | negate e ih => simp [pieces, render, Piece.text, Mark.text, textOf_operandPieces, ih]
  | binary op l r ihl ihr =>
      simp [pieces, render, Piece.text, Mark.text, textOf_operandPieces, ihl, ihr]
  | call name arguments ih =>
      have harguments : arguments.map (fun a => textOf (a.pieces fun _ => false)) =
          arguments.map render := List.map_congr_left ih
      simp [pieces, render, callPieces, parenthesised, textOf_intercalate, Piece.text, Mark.text,
        Function.comp_def, harguments]
  | paren e ih => rw [pieces, render, textOf_enclosed, ih]

/-! ### Pieces side by side -/

/-- The pieces of an operand: they start and end as one, and neighbours may stand side by side. -/
structure IsOperand (ps : List Piece) : Prop where
  starts : ps.head?.any Piece.starts = true
  ends : ps.getLast?.any Piece.ends = true
  chain : ps.IsChain Piece.Adjacent

namespace IsOperand

variable {ps qs : List Piece}

theorem ne_nil (h : IsOperand ps) : ps ≠ [] := by
  rintro rfl
  cases h.starts

theorem starts_of_mem (h : IsOperand ps) {p : Piece} (hp : p ∈ ps.head?) : p.starts = true := by
  have := h.starts
  rwa [Option.mem_def.1 hp, Option.any_some] at this

theorem ends_of_mem (h : IsOperand ps) {p : Piece} (hp : p ∈ ps.getLast?) : p.ends = true := by
  have := h.ends
  rwa [Option.mem_def.1 hp, Option.any_some] at this

theorem single {p : Piece} (hstarts : p.starts = true) (hends : p.ends = true) :
    IsOperand [p] :=
  ⟨hstarts, hends, .singleton p⟩

/-- What is in parentheses, or the arguments of a call, may be empty as far as neighbours go. -/
theorem group {p : Piece} (hstarts : p.starts = true) (hopens : p.opens = true)
    (h : ps = [] ∨ IsOperand ps) : IsOperand (p :: ps ++ [.mark .right]) := by
  have hends : p.ends = false := by
    cases p with
    | mark m => simp_all [Piece.opens, Piece.ends]
    | _ => simp_all [Piece.opens, Piece.ends]
  have hconcat : p ≠ .mark (.operator .concat) := by
    rintro rfl
    cases hopens
  refine ⟨hstarts, by rw [List.getLast?_concat]; rfl, ?_⟩
  rcases h with rfl | h
  · refine .cons_cons ?_ (.singleton _)
    simp [Piece.Adjacent, hends, hopens, hconcat]
  · rw [List.cons_append, List.isChain_cons]
    refine ⟨?_, h.chain.append (.singleton _) ?_⟩
    · intro q hq
      rw [List.head?_append_of_ne_nil _ h.ne_nil] at hq
      simp [Piece.Adjacent, hends, h.starts_of_mem hq, hconcat]
    · intro q hq r hr
      obtain rfl : Piece.mark .right = r := by simpa using hr
      simp [Piece.Adjacent, h.ends_of_mem hq, Piece.follows, Mark.follows]

theorem enclosed (h : IsOperand ps) : IsOperand (enclosed ps) := group rfl rfl (.inr h)

/-- Two operands with a mark between them. -/
theorem infixed (hps : IsOperand ps) (hqs : IsOperand qs) {m : Mark} (hfollows : m.follows = true)
    (hright : m ≠ .right) (hsign : m = .operator .concat → qs.head? ≠ some (.mark .negation)) :
    IsOperand (ps ++ .mark m :: qs) := by
  refine ⟨?_, ?_, hps.chain.append ?_ ?_⟩
  · rw [List.head?_append_of_ne_nil _ hps.ne_nil]
    exact hps.starts
  · rw [List.getLast?_append_of_ne_nil _ (by simp), List.getLast?_cons_of_ne_nil hqs.ne_nil]
    exact hqs.ends
  · rw [List.isChain_cons]
    refine ⟨fun q hq => ?_, hqs.chain⟩
    have hends : Piece.ends (.mark m) = false := by simpa [Piece.ends] using hright
    simp only [Piece.Adjacent, hends, Bool.false_eq_true, if_false]
    refine ⟨.inl (hqs.starts_of_mem hq), ?_⟩
    rintro hm rfl
    exact hsign (by simpa using hm) (Option.mem_def.1 hq)
  · intro p hp q hq
    obtain rfl : Piece.mark m = q := by simpa using hq
    simpa [Piece.Adjacent, hps.ends_of_mem hp, Piece.follows] using hfollows

theorem negated (h : IsOperand ps) : IsOperand (.mark .negation :: ps) := by
  refine ⟨rfl, ?_, ?_⟩
  · rw [List.getLast?_cons_of_ne_nil h.ne_nil]
    exact h.ends
  · rw [List.isChain_cons]
    refine ⟨fun q hq => ?_, h.chain⟩
    simp [Piece.Adjacent, Piece.ends, h.starts_of_mem hq]

theorem intercalate {m : Mark} (hfollows : m.follows = true) (hright : m ≠ .right)
    (hconcat : m ≠ .operator .concat) {pss : List (List Piece)} (hne : pss ≠ [])
    (h : ∀ ps ∈ pss, IsOperand ps) : IsOperand ([.mark m].intercalate pss) := by
  induction pss with
  | nil => exact absurd rfl hne
  | cons ps pss ih =>
      have hps := h ps (by simp)
      cases pss with
      | nil => simpa using hps
      | cons qs pss =>
          have hrest := ih (by simp) fun rs hrs => h rs (by simp [hrs])
          simpa using hps.infixed hrest hfollows hright fun hm => absurd hm hconcat

end IsOperand

theorem isOperand_operandPieces (compound : Bool) {ps : List Piece} (h : IsOperand ps) :
    IsOperand (operandPieces compound ps) := by
  cases compound
  · exact h
  · exact h.enclosed

/-- The arguments of a statement form an operand, or there are none. -/
theorem Keyword.join_isOperand (keyword : Keyword) {pss : List (List Piece)}
    (h : ∀ ps ∈ pss, IsOperand ps) : keyword.join pss = [] ∨ IsOperand (keyword.join pss) := by
  cases hpss : pss with
  | nil => cases keyword <;> exact .inl rfl
  | cons ps rest =>
      rw [← hpss]
      have hne : pss ≠ [] := by simp [hpss]
      right
      unfold Keyword.join
      split
      · have hcondition := h _ (List.mem_cons_self ..)
        have hyes := h _ (List.mem_cons_of_mem _ (List.mem_cons_self ..))
        have hno := h _ (List.mem_cons_of_mem _ (List.mem_cons_of_mem _ (List.mem_cons_self ..)))
        have hwhen := hyes.infixed hcondition (m := .particle .ifWord) rfl (by simp) (by simp)
        exact hwhen.infixed hno rfl (by simp) (by simp)
      all_goals exact .intercalate rfl (by simp) (by simp) hne h

theorem callPieces_isOperand (done : Keyword → Bool) (name : List Char) {pss : List (List Piece)}
    (h : ∀ ps ∈ pss, IsOperand ps) : IsOperand (callPieces done name pss) := by
  unfold callPieces
  split
  · exact .group rfl rfl (Keyword.join_isOperand _ h)
  · refine .group rfl rfl ?_
    by_cases hne : pss = []
    · subst hne
      exact .inl rfl
    · exact .inr (.intercalate rfl (by simp) (by simp) hne h)

/-- A tree that is no operator does not start with a sign, nor does an operand. -/
theorem Tree.head?_operandPieces_ne (done : Keyword → Bool) (e : Tree) :
    (operandPieces e.isOperator (e.pieces done)).head? ≠ some (.mark .negation) := by
  cases e with
  | call name arguments =>
      simp only [operandPieces, isOperator, pieces, callPieces, Bool.false_eq_true, if_false]
      split <;> simp [enclosed]
  | _ => simp [operandPieces, isOperator, pieces, enclosed]

theorem Tree.isOperand_pieces (done : Keyword → Bool) (e : Tree) : IsOperand (e.pieces done) := by
  induction e with
  | number n => rw [pieces]; exact .single rfl rfl
  | text s => rw [pieces]; exact .single rfl rfl
  | boolean b => rw [pieces]; exact .single rfl rfl
  | reference r => rw [pieces]; exact .single rfl rfl
  | negate e ih =>
      rw [pieces]
      exact (isOperand_operandPieces _ ih).negated
  | binary op l r ihl ihr =>
      rw [pieces]
      have hright := isOperand_operandPieces r.isOperator ihr
      refine (isOperand_operandPieces _ ihl).infixed hright rfl (by simp) ?_
      exact fun _ => r.head?_operandPieces_ne done
  | call name arguments ih =>
      rw [pieces]
      apply callPieces_isOperand
      simpa using ih
  | paren e ih =>
      rw [pieces]
      exact ih.enclosed

/-! ### Around a piece -/

/-- The characters that a mark may put in front of an operand. -/
def openers : List Char := ['(', ',', ' ', '+', '-', '*', '/', '&', '=', '<', '>']

/-- The characters with which a mark behind an operand may start. -/
def followers : List Char := [')', ',', ' ', '+', '-', '*', '/', '&', '=', '<', '>', '!']

/-- An operand may start after this character. -/
def Clear (before : Option Char) : Prop := ∀ c ∈ before, c ∈ openers

instance (before : Option Char) : Decidable (Clear before) :=
  inferInstanceAs (Decidable (∀ c ∈ before, c ∈ openers))

/-- An operand may end before this text. -/
def Ends (rest : List Char) : Prop :=
  rest = [] ∨ ∃ (m : Mark) (tail : List Char), m.follows = true ∧ rest = m.text ++ tail

theorem Clear.any {before : Option Char} (h : Clear before) {q : Char → Bool}
    (hq : ∀ c ∈ openers, q c = false) : before.any q = false := by
  cases before with
  | none => rfl
  | some c => exact hq c (h c rfl)

theorem Clear.beq_some {before : Option Char} (h : Clear before) {c : Char} (hc : c ∉ openers) :
    (before == some c) = false := by
  rw [beq_eq_false_iff_ne]
  rintro rfl
  exact hc (h c rfl)

theorem Mark.text_ne_nil : ∀ m : Mark, m.text ≠ [] := of_all (by decide)

theorem Mark.head?_text_mem :
    ∀ m : Mark, m.follows = true → ∀ c ∈ m.text.head?, c ∈ followers :=
  of_all (by decide)

theorem Mark.clear_getLast? : ∀ m : Mark, m ≠ .right → Clear m.text.getLast? := of_all (by decide)

namespace Ends

variable {rest : List Char}

theorem any (h : Ends rest) {q : Char → Bool} (hq : ∀ c ∈ followers, q c = false) :
    rest.head?.any q = false := by
  rcases h with rfl | ⟨m, tail, hm, rfl⟩
  · rfl
  · rw [List.head?_append_of_ne_nil _ m.text_ne_nil]
    cases hhead : m.text.head? with
    | none => rfl
    | some c => exact hq c (m.head?_text_mem hm c hhead)

theorem head?_ne (h : Ends rest) {c : Char} (hc : c ∉ followers) : rest.head? ≠ some c := by
  have hany := h.any (q := (· == c)) fun d hd => by
    rw [beq_eq_false_iff_ne]
    rintro rfl
    exact hc hd
  intro hhead
  simp [hhead] at hany

theorem opensCall (h : Ends rest) : opensCall rest = false := by
  rcases h with rfl | ⟨m, tail, hm, rfl⟩
  · rfl
  · cases m with
    | operator op => cases op <;> rfl
    | scriptOperator op => cases op <;> rfl
    | particle p => cases p <;> rfl
    | left => cases hm
    | negation => cases hm
    | _ => rfl

end Ends

theorem Piece.clear_getLast? {p : Piece} (h : p.ends = false) : Clear p.text.getLast? := by
  cases p with
  | mark m => exact m.clear_getLast? (by simpa [Piece.ends] using h)
  | callee name =>
      rw [Piece.text, List.getLast?_concat]
      decide
  | _ => cases h

theorem ends_textOf {p : Piece} {ps : List Piece} (h : (p :: ps).IsChain Piece.Adjacent)
    (hp : p.ends = true) : Ends (textOf ps) := by
  cases ps with
  | nil => exact .inl rfl
  | cons q ps =>
      have hadjacent := (List.isChain_cons_cons.1 h).1
      simp only [Piece.Adjacent, hp, if_true] at hadjacent
      cases q with
      | mark m => exact .inr ⟨m, textOf ps, hadjacent, rfl⟩
      | _ => cases hadjacent

end SheetBoard.Formula
