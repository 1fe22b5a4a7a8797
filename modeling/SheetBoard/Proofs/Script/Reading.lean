import SheetBoard.Proofs.Formula.Statements
import SheetBoard.Proofs.Script.Scanning

/-! Reading the tokens of a tree. The tokens of an operand are read as a signed value, and those of
any tree as a comparison; from there on the argument follows the tree. -/

namespace SheetBoard.Script

open Formula (Piece Mark Operator Keyword Tree Ref Identifier keyword? operandPieces)

/-! ### Closing tokens -/

/-- The tokens that may follow an argument, an operand of a logical chain, or a branch. -/
def closers : List Token := [.rightParen, .comma, .name "if", .name "else", .name "and", .name "or"]

def Closes (rest : List Token) : Prop := ∀ t ∈ rest.head?, t ∈ closers

theorem Closes.stop {rest : List Token} (h : Closes rest) {level : Level}
    (hlevel : ∀ t ∈ closers, level.operator? t = none) :
    rest.head?.bind level.operator? = none := by
  cases hhead : rest.head? with
  | none => rfl
  | some t => exact hlevel t (h t hhead)

theorem Closes.head?_ne {rest : List Token} (h : Closes rest) {t : Token} (ht : t ∉ closers) :
    rest.head? ≠ some t := fun hhead => ht (h t hhead)

/-- The first token is neither a negation nor a closing parenthesis. -/
def Starts (ts : List Token) : Prop :=
  ∃ t tail, ts = t :: tail ∧ t ≠ .name "not" ∧ t ≠ .rightParen

theorem Starts.append {ts : List Token} (h : Starts ts) (us : List Token) : Starts (ts ++ us) := by
  obtain ⟨t, tail, rfl, hnot, hparen⟩ := h
  exact ⟨t, tail ++ us, rfl, hnot, hparen⟩

theorem Starts.head?_ne_not {ts : List Token} (h : Starts ts) : ts.head? ≠ some (.name "not") := by
  obtain ⟨t, tail, rfl, hnot, -⟩ := h
  simpa using hnot

theorem Starts.head?_ne_paren {ts : List Token} (h : Starts ts) : ts.head? ≠ some .rightParen := by
  obtain ⟨t, tail, rfl, -, hparen⟩ := h
  simpa using hparen

/-! ### Operands -/

/-- The tokens are read as a value with any number of signs. -/
structure Reads (ts : List Token) (e : Expr) : Prop where
  starts : Starts ts
  derivation : ∀ rest, rest.head? ≠ some .leftParen → Derivation .signed (ts ++ rest) (.expr e) rest

/-- The tokens are read as a comparison, or as something tighter. -/
structure Derives (ts : List Token) (e : Expr) : Prop where
  starts : Starts ts
  derivation : ∀ rest, Closes rest → Derivation .negation (ts ++ rest) (.expr e) rest

theorem Derivation.level_stop {level : Level} {ts rest : List Token} {e : Expr}
    (h : Derivation level.operand ts (.expr e) rest)
    (hstop : rest.head?.bind level.operator? = none) :
    Derivation (.level level) ts (.expr e) rest :=
  .level h (.stop hstop)

/-- The levels of operators on values, from the tightest on. -/
def valueLevels : List Level := [.product, .sum, .comparison]

theorem Closes.stop_valueLevels {rest : List Token} (h : Closes rest) {level : Level}
    (hlevel : level ∈ valueLevels) : rest.head?.bind level.operator? = none := by
  refine h.stop ?_
  revert level
  decide

/-- Before a closing token the looser levels add nothing. -/
theorem Derivation.comparison_of_level {level : Level} (hlevel : level ∈ valueLevels)
    {ts rest : List Token} {e : Expr} (h : Derivation (.level level) ts (.expr e) rest)
    (hrest : Closes rest) : Derivation (.level .comparison) ts (.expr e) rest := by
  have hsum : Derivation (.level .product) ts (.expr e) rest →
      Derivation (.level .sum) ts (.expr e) rest :=
    fun h => .level_stop h (hrest.stop_valueLevels (by decide))
  have hcomparison : Derivation (.level .sum) ts (.expr e) rest →
      Derivation (.level .comparison) ts (.expr e) rest :=
    fun h => .level_stop h (hrest.stop_valueLevels (by decide))
  rcases (by simpa [valueLevels] using hlevel : level = .product ∨ level = .sum ∨
    level = .comparison) with rfl | rfl | rfl
  · exact hcomparison (hsum h)
  · exact hcomparison h
  · exact h

/-- The level of a formula's operator in scripts. -/
def Operator.level : Operator → Level
  | .multiply => .product
  | .divide => .product
  | .add => .sum
  | .subtract => .sum
  | .concat => .sum
  | _ => .comparison

/-- The levels of binary operators that are tighter than the operator's own. -/
def Operator.tighter : Operator → List Level
  | .multiply => []
  | .divide => []
  | .add => [.product]
  | .subtract => [.product]
  | .concat => [.product]
  | _ => [.product, .sum]

theorem Operator.mem_of_mem_tighter (op : Operator) :
    ∀ level ∈ Operator.tighter op, level ∈ valueLevels := by
  cases op <;> decide

theorem Operator.level_operator? (op : Operator) :
    (Operator.level op).operator? op.token = some op.meaning := by
  cases op <;> rfl

namespace Reads

variable {ts us : List Token} {e f : Expr}

theorem number (x : Float) : Reads [.number x] (.number x) where
  starts := ⟨_, _, rfl, by simp, by simp⟩
  derivation _ _ := .unsigned rfl .number

theorem text (s : String) : Reads [.text s] (.text s) where
  starts := ⟨_, _, rfl, by simp, by simp⟩
  derivation _ _ := .unsigned rfl .text

theorem word {n : String} (hn : n ≠ "not") : Reads [.name n] (wordValue n) where
  starts := ⟨_, _, rfl, by simpa using hn, by simp⟩
  derivation _ hrest := .unsigned rfl (.word hrest)

theorem sign (h : Reads ts e) : Reads (.minus :: ts) (.unary .negate e) where
  starts := ⟨_, _, rfl, by simp, by simp⟩
  derivation rest hrest := .sign rfl (h.derivation rest hrest)

theorem group (h : ∀ rest, Derivation .conditional (ts ++ .rightParen :: rest) (.expr e)
    (.rightParen :: rest)) : Reads (.leftParen :: ts ++ [.rightParen]) e where
  starts := ⟨_, _, rfl, by simp, by simp⟩
  derivation rest _ := by simpa using Derivation.unsigned rfl (.paren (h rest))

theorem call {n : String} (hn : n ≠ "not") {es : List Expr}
    (h : ∀ rest, Derivation (.items .rightParen) (ts ++ .rightParen :: rest) (.items es) rest) :
    Reads (.name n :: .leftParen :: ts ++ [.rightParen]) (.call n es) where
  starts := ⟨_, _, rfl, by simpa using hn, by simp⟩
  derivation rest _ := by simpa using Derivation.unsigned rfl (.call (h rest))

theorem derives (h : Reads ts e) : Derives ts e where
  starts := h.starts
  derivation rest hrest := by
    have hproduct : Derivation (.level .product) (ts ++ rest) (.expr e) rest :=
      .level_stop (h.derivation rest (hrest.head?_ne (by decide)))
        (hrest.stop_valueLevels (by decide))
    exact .comparison (h.starts.append rest).head?_ne_not
      (hproduct.comparison_of_level (by decide) hrest)

theorem operand (h : Reads ts e) (op : Operator) {rest : List Token}
    (hparen : rest.head? ≠ some .leftParen)
    (htighter : ∀ level ∈ Operator.tighter op, rest.head?.bind level.operator? = none) :
    Derivation (Operator.level op).operand (ts ++ rest) (.expr e) rest := by
  have hsigned := h.derivation rest hparen
  have hproduct : Level.product ∈ Operator.tighter op →
      Derivation (.level .product) (ts ++ rest) (.expr e) rest :=
    fun hlevel => .level_stop hsigned (htighter _ hlevel)
  have hsum : Level.product ∈ Operator.tighter op → Level.sum ∈ Operator.tighter op →
      Derivation (.level .sum) (ts ++ rest) (.expr e) rest :=
    fun hlevel hlevel' => .level_stop (hproduct hlevel) (htighter _ hlevel')
  cases op with
  | multiply => exact hsigned
  | divide => exact hsigned
  | add => exact hproduct (by decide)
  | subtract => exact hproduct (by decide)
  | concat => exact hproduct (by decide)
  | _ => exact hsum (by decide) (by decide)

/-- Two operands with an operator between them. The left one ends at the operator, since no tighter
level has it. -/
theorem binary (hl : Reads ts e) (hr : Reads us f) (op : Operator) :
    Derives (ts ++ op.token :: us) (.binary op.meaning e f) where
  starts := hl.starts.append _
  derivation rest hrest := by
    have hleft : Derivation (Operator.level op).operand (ts ++ (op.token :: us ++ rest)) (.expr e)
        (op.token :: us ++ rest) := by
      refine hl.operand op (by cases op <;> simp [Operator.token]) ?_
      cases op <;> simp [Operator.tighter, Operator.token, Level.operator?]
    have hright : Derivation (Operator.level op).operand (us ++ rest) (.expr f) rest :=
      hr.operand op (hrest.head?_ne (by decide)) fun level hlevel =>
        hrest.stop_valueLevels (Operator.mem_of_mem_tighter op level hlevel)
    have hlevel : Operator.level op ∈ valueLevels := by cases op <;> decide
    have hown : Derivation (.level (Operator.level op)) (ts ++ (op.token :: us ++ rest))
        (.expr (.binary op.meaning e f)) rest :=
      .level hleft (.operator (Operator.level_operator? op) hright
        (.stop (hrest.stop_valueLevels hlevel)))
    have hstarts : Starts (ts ++ (op.token :: us ++ rest)) := hl.starts.append _
    rw [List.append_assoc]
    exact .comparison hstarts.head?_ne_not (hown.comparison_of_level hlevel hrest)

end Reads

/-! ### Statements and calls -/

namespace Derives

variable {ts : List Token} {e : Expr}

theorem level_or (h : Derives ts e) {rest : List Token} (hrest : Closes rest)
    (hand : rest.head? ≠ some (.name "and")) (hor : rest.head? ≠ some (.name "or")) :
    Derivation (.level .or) (ts ++ rest) (.expr e) rest := by
  have hnone : ∀ t ∈ closers, t ≠ .name "and" → t ≠ .name "or" →
      ∀ level ∈ [Level.and, .or], level.operator? t = none := by decide
  have hstop : ∀ level ∈ [Level.and, .or], rest.head?.bind level.operator? = none := by
    intro level hlevel
    cases hhead : rest.head? with
    | none => rfl
    | some t =>
        rw [hhead] at hand hor
        exact hnone t (hrest t hhead) (by simpa using hand) (by simpa using hor) level hlevel
  have hconjunction : Derivation (.level .and) (ts ++ rest) (.expr e) rest :=
    .level_stop (h.derivation rest hrest) (hstop _ (by simp))
  exact .level_stop hconjunction (hstop _ (by simp))

/-- An expression that ends at a parenthesis, at a comma, or with the script. -/
theorem conditional (h : Derives ts e) {rest : List Token}
    (hrest : ∀ t ∈ rest.head?, t = .rightParen ∨ t = .comma) :
    Derivation .conditional (ts ++ rest) (.expr e) rest := by
  have hcloses : Closes rest := by
    intro t ht
    rcases hrest t ht with rfl | rfl <;> simp [closers]
  have hne : ∀ n : String, rest.head? ≠ some (.name n) := by
    intro n hhead
    rcases hrest _ hhead with hn | hn <;> cases hn
  exact .plain (h.level_or hcloses (hne _) (hne _)) (hne _) (hcloses.head?_ne (by decide))

theorem enclosed (h : Derives ts e) : Reads (.leftParen :: ts ++ [.rightParen]) e :=
  .group fun _ => h.conditional (by simp)

theorem choice {cs ys ns : List Token} {condition yes no : Expr} (hc : Derives cs condition)
    (hy : Derives ys yes) (hn : Derives ns no) :
    Reads (.leftParen :: (ys ++ .name "if" :: (cs ++ .name "else" :: ns)) ++ [.rightParen])
      (.conditional condition yes no) := by
  refine .group fun rest => ?_
  have hif : Derivation (.level .or) (ys ++ .name "if" :: (cs ++ .name "else" ::
      (ns ++ .rightParen :: rest))) (.expr yes)
      (.name "if" :: (cs ++ .name "else" :: (ns ++ .rightParen :: rest))) :=
    hy.level_or (by simp [Closes, closers]) (by simp) (by simp)
  have helse : Derivation (.level .or) (cs ++ .name "else" :: (ns ++ .rightParen :: rest))
      (.expr condition) (.name "else" :: (ns ++ .rightParen :: rest)) :=
    hc.level_or (by simp [Closes, closers]) (by simp) (by simp)
  have hno : Derivation .conditional (ns ++ .rightParen :: rest) (.expr no)
      (.rightParen :: rest) := hn.conditional (by simp)
  simpa using Derivation.chosen hif helse hno

end Derives

section

variable {α : Type} {tokensOf : α → List Token} {exprOf : α → Expr} {x : α} {xs : List α}

/-- Operands of a logical level with its word between them, up to a parenthesis. -/
theorem chain {level : Level} {op : BinaryOp} {word : String}
    (hword : level.operator? (.name word) = some op) (hstop : level.operator? .rightParen = none)
    (h : ∀ y ∈ x :: xs, ∀ rest, rest.head? = some (.name word) ∨ rest.head? = some .rightParen →
      Derivation level.operand (tokensOf y ++ rest) (.expr (exprOf y)) rest) (rest : List Token) :
    Derivation (.level level)
      (tokensOf x ++ (xs.flatMap (fun y => .name word :: tokensOf y) ++ .rightParen :: rest))
      (.expr (xs.foldl (fun e y => .binary op e (exprOf y)) (exprOf x))) (.rightParen :: rest) := by
  have hmore : ∀ ys : List α, (∀ y ∈ ys, ∀ rest, rest.head? = some (.name word) ∨
      rest.head? = some .rightParen →
        Derivation level.operand (tokensOf y ++ rest) (.expr (exprOf y)) rest) → ∀ left,
      Derivation (.operators level left)
        (ys.flatMap (fun y => .name word :: tokensOf y) ++ .rightParen :: rest)
        (.expr (ys.foldl (fun e y => .binary op e (exprOf y)) left)) (.rightParen :: rest) := by
    intro ys hys left
    induction ys generalizing left with
    | nil => exact .stop hstop
    | cons y ys ih =>
        have hy := hys y (by simp) (ys.flatMap (fun y => .name word :: tokensOf y) ++
          .rightParen :: rest) (by cases ys <;> simp)
        have hys := ih (fun z hz => hys z (by simp [hz])) (.binary op left (exprOf y))
        simpa using Derivation.operator hword hy hys
  have hx := h x (by simp) (xs.flatMap (fun y => .name word :: tokensOf y) ++ .rightParen :: rest)
    (by cases xs <;> simp)
  exact .level hx (hmore xs (fun y hy => h y (by simp [hy])) (exprOf x))

theorem conjunction (h : ∀ y ∈ x :: xs, Derives (tokensOf y) (exprOf y)) :
    Reads (.leftParen :: (tokensOf x ++ xs.flatMap fun y => .name "and" :: tokensOf y) ++
        [.rightParen])
      (xs.foldl (fun e y => .binary .and e (exprOf y)) (exprOf x)) := by
  refine .group fun rest => ?_
  have hword : Level.and.operator? (.name "and") = some .and := rfl
  have hchain := chain hword rfl (fun y hy rest hrest =>
    (h y hy).derivation rest (by rcases hrest with hrest | hrest <;> simp [Closes, hrest, closers]))
    rest
  rw [List.append_assoc]
  exact .plain (.level_stop hchain rfl) (by simp) (by simp)

theorem disjunction (h : ∀ y ∈ x :: xs, Derives (tokensOf y) (exprOf y)) :
    Reads (.leftParen :: (tokensOf x ++ xs.flatMap fun y => .name "or" :: tokensOf y) ++
        [.rightParen])
      (xs.foldl (fun e y => .binary .or e (exprOf y)) (exprOf x)) := by
  refine .group fun rest => ?_
  have hword : Level.or.operator? (.name "or") = some .or := rfl
  have hchain := chain hword rfl (fun y hy rest hrest => by
    have hcloses : Closes rest := by
      rcases hrest with hrest | hrest <;> simp [Closes, hrest, closers]
    have hstop : rest.head?.bind Level.and.operator? = none := by
      rcases hrest with hrest | hrest <;> simp [hrest, Level.operator?]
    exact .level_stop ((h y hy).derivation rest hcloses) hstop) rest
  rw [List.append_assoc]
  exact .plain hchain (by simp) (by simp)

theorem moreArguments (h : ∀ y ∈ xs, Derives (tokensOf y) (exprOf y)) (rest : List Token) :
    Derivation (.more .rightParen)
      (xs.flatMap (fun y => .comma :: tokensOf y) ++ .rightParen :: rest)
      (.items (xs.map exprOf)) rest := by
  induction xs with
  | nil => exact .close (by simp)
  | cons y ys ih =>
      have hy : Derivation .conditional
          (tokensOf y ++ (ys.flatMap (fun y => .comma :: tokensOf y) ++ .rightParen :: rest))
          (.expr (exprOf y))
          (ys.flatMap (fun y => .comma :: tokensOf y) ++ .rightParen :: rest) :=
        (h y (by simp)).conditional (by cases ys <;> simp)
      simpa using Derivation.next hy (ih fun z hz => h z (by simp [hz]))

/-- The arguments of a call, up to and with its parenthesis. -/
theorem arguments (h : ∀ y ∈ x :: xs, Derives (tokensOf y) (exprOf y)) (rest : List Token) :
    Derivation (.items .rightParen)
      (tokensOf x ++ (xs.flatMap (fun y => .comma :: tokensOf y) ++ .rightParen :: rest))
      (.items (exprOf x :: xs.map exprOf)) rest := by
  have hx := h x (by simp)
  refine .items (hx.starts.append _).head?_ne_paren (hx.conditional (by cases xs <;> simp)) ?_
  exact moreArguments (fun y hy => h y (by simp [hy])) rest

end

/-! ### Trees -/

theorem reads_truth (capitals b : Bool) :
    Reads [.name (.ofList (Piece.truthText capitals b))] (.boolean b) := by
  have hword : wordValue (.ofList (Piece.truthText capitals b)) = .boolean b := by
    cases capitals <;> cases b <;> simp [Piece.truthText, wordValue]
  rw [← hword]
  exact .word (by cases capitals <;> cases b <;> decide)

/-- How the pieces of trees are turned into tokens, and what they stand for. -/
structure Interprets (done : Keyword → Bool) (tokensOf : Piece → List Token)
    (isReference : Ref → Prop) (isCall : Identifier → List Tree → Prop) (reference : Ref → Expr)
    (call : Identifier → List Expr → Expr) : Prop where
  mark : ∀ m, tokensOf (.mark m) = [m.token]
  numeral : ∀ n : Number.Numeral, tokensOf (.numeral n.text) = [.number n.value]
  literal : ∀ s, tokensOf (.literal s) = [.text (.ofList s)]
  truth : ∀ b, tokensOf (.truth true b) = [.name (.ofList (Piece.truthText true b))]
  reference : ∀ r, isReference r → Reads (tokensOf (.reference r)) (reference r)
  callee : ∀ name arguments, isCall name arguments → (keyword? name.chars).filter done = none →
    ∃ n, n ≠ "not" ∧ tokensOf (.callee name.chars) = [.name n, .leftParen] ∧
      ∀ es, es.length = arguments.length → call name es = .call n es
  statement : ∀ name arguments k, isCall name arguments →
    (keyword? name.chars).filter done = some k →
      k.Admits arguments.length ∧ ∀ es, call name es = Formula.rowCall name es

theorem intercalate_cons {α : Type} (sep x : List α) (xs : List (List α)) :
    sep.intercalate (x :: xs) = x ++ xs.flatMap (sep ++ ·) := by
  induction xs generalizing x with
  | nil => simp
  | cons y ys ih => simp [ih]

section

variable {done : Keyword → Bool} {tokensOf : Piece → List Token} {isReference : Ref → Prop}
  {isCall : Identifier → List Tree → Prop} {reference : Ref → Expr}
  {call : Identifier → List Expr → Expr}
  (hinterprets : Interprets done tokensOf isReference isCall reference call)

include hinterprets

theorem Interprets.enclosed {ps : List Piece} {e : Expr} (h : Derives (ps.flatMap tokensOf) e) :
    Reads ((Formula.enclosed ps).flatMap tokensOf) e := by
  simpa [Formula.enclosed, hinterprets.mark, Mark.token] using h.enclosed

theorem Interprets.operand {e : Tree} {ps : List Piece} {f : Expr}
    (h : Derives (ps.flatMap tokensOf) f)
    (hvalue : e.isOperator = false → Reads (ps.flatMap tokensOf) f) :
    Reads ((operandPieces e.isOperator ps).flatMap tokensOf) f := by
  cases hop : e.isOperator with
  | false => exact hvalue hop
  | true => exact hinterprets.enclosed h

theorem Interprets.intercalate (m : Mark) (x : List Piece) (xs : List (List Piece)) :
    ([Piece.mark m].intercalate (x :: xs)).flatMap tokensOf =
      x.flatMap tokensOf ++ xs.flatMap (fun y => m.token :: y.flatMap tokensOf) := by
  simp [intercalate_cons, List.flatMap_assoc, hinterprets.mark]

/-- A statement is read from the tokens of its arguments. -/
theorem Interprets.join {α : Type} {f : α → List Piece} {g : α → Expr} {xs : List α}
    (h : ∀ x ∈ xs, Derives ((f x).flatMap tokensOf) (g x)) {name : Identifier} {k : Keyword}
    (hkeyword : keyword? name.chars = some k) (hadmits : k.Admits xs.length) :
    Reads ((Formula.enclosed (k.join (xs.map f))).flatMap tokensOf)
      (Formula.rowCall name (xs.map g)) := by
  cases k with
  | choice =>
      obtain ⟨a, b, c, rfl⟩ := List.length_eq_three.1 hadmits
      have hchoice := (h a (by simp)).choice (h b (by simp)) (h c (by simp))
      simpa [Formula.enclosed, Keyword.join, Formula.rowCall, hkeyword, hinterprets.mark,
        Mark.token, Formula.Particle.word] using hchoice
  | conjunction =>
      cases xs with
      | nil => cases hadmits
      | cons x xs =>
          have hchain := conjunction h
          simpa [Formula.enclosed, Keyword.join, Formula.rowCall, hkeyword, hinterprets.mark,
            hinterprets.intercalate, Mark.token, Formula.Particle.word, List.foldl_map,
            List.flatMap_map] using hchain
  | disjunction =>
      cases xs with
      | nil => cases hadmits
      | cons x xs =>
          have hchain := disjunction h
          simpa [Formula.enclosed, Keyword.join, Formula.rowCall, hkeyword, hinterprets.mark,
            hinterprets.intercalate, Mark.token, Formula.Particle.word, List.foldl_map,
            List.flatMap_map] using hchain

theorem Interprets.callPieces {name : Identifier} {arguments : List Tree}
    (hcall : isCall name arguments) (h : ∀ a ∈ arguments,
      Derives ((a.pieces done).flatMap tokensOf) (a.compile reference call)) :
    Reads
      ((Formula.callPieces done name.chars (arguments.map fun a => a.pieces done)).flatMap tokensOf)
      (call name (arguments.map fun a => a.compile reference call)) := by
  unfold Formula.callPieces
  split
  · rename_i k hfilter
    obtain ⟨hadmits, hexpr⟩ := hinterprets.statement name arguments k hcall hfilter
    have hkeyword : keyword? name.chars = some k := (Option.filter_eq_some_iff.1 hfilter).1
    rw [hexpr]
    exact hinterprets.join h hkeyword hadmits
  · rename_i hfilter
    obtain ⟨n, hn, htokens, hexpr⟩ := hinterprets.callee name arguments hcall hfilter
    rw [hexpr _ (by simp)]
    cases arguments with
    | nil =>
        have hempty : Reads (.name n :: .leftParen :: [] ++ [.rightParen]) (.call n []) :=
          .call hn fun _ => .noItems
        simpa [htokens, hinterprets.mark, Mark.token] using hempty
    | cons a as =>
        have hitems : Reads (.name n :: .leftParen :: ((a.pieces done).flatMap tokensOf ++
            as.flatMap fun b => .comma :: (b.pieces done).flatMap tokensOf) ++ [.rightParen])
            (.call n ((a :: as).map fun b => b.compile reference call)) :=
          .call hn fun rest => by simpa using Script.arguments h rest
        simpa [htokens, hinterprets.mark, hinterprets.intercalate, Mark.token, List.flatMap_map]
          using hitems

/-- The tokens of a tree are read as the tree's expression. -/
theorem Interprets.derives {e : Tree} (h : e.All isReference isCall) :
    Derives ((e.pieces done).flatMap tokensOf) (e.compile reference call) ∧
      (e.isOperator = false →
        Reads ((e.pieces done).flatMap tokensOf) (e.compile reference call)) := by
  have hvalue : ∀ {e : Tree},
      Reads ((e.pieces done).flatMap tokensOf) (e.compile reference call) →
      Derives ((e.pieces done).flatMap tokensOf) (e.compile reference call) ∧
        (e.isOperator = false →
          Reads ((e.pieces done).flatMap tokensOf) (e.compile reference call)) :=
    fun h => ⟨h.derives, fun _ => h⟩
  induction e with
  | number n =>
      refine hvalue ?_
      simpa [Tree.pieces, Tree.compile, hinterprets.numeral] using Reads.number n.value
  | text s =>
      refine hvalue ?_
      simpa [Tree.pieces, Tree.compile, hinterprets.literal] using Reads.text s
  | boolean b =>
      refine hvalue ?_
      simpa [Tree.pieces, Tree.compile, hinterprets.truth] using reads_truth true b
  | reference r =>
      rw [Tree.All] at h
      refine hvalue ?_
      simpa [Tree.pieces, Tree.compile] using hinterprets.reference r h
  | negate e ih =>
      rw [Tree.All] at h
      obtain ⟨hderives, hreads⟩ := ih h
      have hsign := (hinterprets.operand hderives hreads).sign
      refine ⟨?_, by simp [Tree.isOperator]⟩
      simpa [Tree.pieces, Tree.compile, hinterprets.mark, Mark.token] using hsign.derives
  | binary op l r ihl ihr =>
      rw [Tree.All] at h
      obtain ⟨hl, hlreads⟩ := ihl h.1
      obtain ⟨hr, hrreads⟩ := ihr h.2
      have hbinary := (hinterprets.operand hl hlreads).binary (hinterprets.operand hr hrreads) op
      refine ⟨?_, by simp [Tree.isOperator]⟩
      simpa [Tree.pieces, Tree.compile, hinterprets.mark, Mark.token] using hbinary
  | call name arguments ih =>
      rw [Tree.All] at h
      refine hvalue ?_
      simpa [Tree.pieces, Tree.compile] using
        hinterprets.callPieces h.1 fun a ha => (ih a ha (h.2 a ha)).1
  | paren e ih =>
      rw [Tree.All] at h
      refine hvalue ?_
      simpa [Tree.pieces, Tree.compile] using hinterprets.enclosed (ih h).1

end

end SheetBoard.Script
