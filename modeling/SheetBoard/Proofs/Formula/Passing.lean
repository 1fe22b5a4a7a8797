import SheetBoard.Formula.Statement
import SheetBoard.Proofs.Formula.Nesting

/-! Every pass over a formula carries the automaton of literals along. Once it has come past a part
of the text, it goes on in the state that the automaton has there. -/

namespace SheetBoard.Formula

/-- The cut into stretches. `held` is what the open stretch holds past `a`. -/
theorem stretchesFrom_append (st : QuoteState) (held a : List Char) :
    ∃ ps held', ∀ b, stretchesFrom st held (a ++ b) = ps ++ stretchesFrom (st.run a) held' b := by
  induction a generalizing st held with
  | nil => exact ⟨[], held, fun _ => rfl⟩
  | cons c a ih =>
      -- The state and what is held behind `c` depend on `c` alone.
      obtain ⟨qs, held₁, hstep⟩ : ∃ qs held₁, ∀ rest,
          stretchesFrom st held (c :: rest) = qs ++ stretchesFrom (st.step c) held₁ rest := by
        by_cases hst : st = .outside <;> by_cases hnext : st.step c = .outside
        · subst hst
          refine ⟨[], c :: held, fun rest => ?_⟩
          rw [stretchesFrom_cons, if_pos rfl, if_pos hnext, hnext, List.nil_append]
        · subst hst
          exact ⟨closeStretch .outside held, [c], stretchesFrom_open hnext held⟩
        · refine ⟨[.literal (c :: held).reverse], [], fun rest => ?_⟩
          rw [stretchesFrom_close hst hnext, hnext, List.singleton_append]
        · exact ⟨[], c :: held, stretchesFrom_inside hst hnext held⟩
      obtain ⟨ps, held', hrest⟩ := ih (st.step c) held₁
      refine ⟨qs ++ ps, held', fun b => ?_⟩
      rw [List.cons_append, hstep, hrest, QuoteState.run_cons, List.append_assoc]

/-- The cut at commas. Of the piece that is open past `a`, `x` has been read. -/
theorem pieces_append (depth : Int) (st : QuoteState) (a : List Char) :
    ∃ ps x depth', ∀ b, pieces depth st (a ++ b) = ps ++ glue x (pieces depth' (st.run a) b) := by
  induction a generalizing depth st with
  | nil => exact ⟨[], [], depth, fun _ => rfl⟩
  | cons c a ih =>
      by_cases hcut : st = .outside ∧ c = ',' ∧ depth = 0
      · obtain ⟨rfl, rfl, rfl⟩ := hcut
        obtain ⟨ps, x, depth', hrest⟩ := ih 0 .outside
        refine ⟨[] :: ps, x, depth', fun b => ?_⟩
        rw [List.cons_append, pieces_comma, hrest, QuoteState.run_cons, QuoteState.step_outside rfl,
          List.cons_append]
      · obtain ⟨ps, x, depth', hrest⟩ := ih (if st = .outside ∧ c = '(' then depth + 1
          else if st = .outside ∧ c = ')' then depth - 1 else depth) (st.step c)
        cases ps with
        | nil =>
            refine ⟨[], c :: x, depth', fun b => ?_⟩
            rw [List.cons_append, pieces_cons, if_neg hcut, hrest]
            rfl
        | cons p ps =>
            refine ⟨(c :: p) :: ps, x, depth', fun b => ?_⟩
            rw [List.cons_append, pieces_cons, if_neg hcut, hrest]
            rfl

/-- The search for a closing parenthesis: it has ended within `a`, or it goes on past it. -/
theorem splitClose_append (depth : Nat) (st : QuoteState) (a : List Char) :
    (∃ found : Option (List Char × List Char),
      ∀ b, splitClose depth st (a ++ b) = found.map fun (before, after) => (before, after ++ b)) ∨
    ∃ depth', ∀ b, splitClose depth st (a ++ b) = keep a (splitClose depth' (st.run a) b) := by
  induction a generalizing depth st with
  | nil => exact .inr ⟨depth, fun b => (keep_nil _).symm⟩
  | cons c a ih =>
      -- One character either ends the search or is kept in front of what comes.
      have hkeep : ∀ next, (∀ rest, splitClose depth st (c :: rest) =
            keep [c] (splitClose next (st.step c) rest)) →
          (∃ found : Option (List Char × List Char), ∀ b, splitClose depth st (c :: a ++ b) =
            found.map fun (before, after) => (before, after ++ b)) ∨
          ∃ depth', ∀ b, splitClose depth st (c :: a ++ b) =
            keep (c :: a) (splitClose depth' (st.run (c :: a)) b) := by
        intro next hstep
        rcases ih next (st.step c) with ⟨found, hfound⟩ | ⟨depth', hrest⟩
        · refine .inl ⟨keep [c] found, fun b => ?_⟩
          rw [List.cons_append, hstep, hfound]
          cases found <;> rfl
        · refine .inr ⟨depth', fun b => ?_⟩
          rw [List.cons_append, hstep, hrest, ← keep_append]
          rfl
      by_cases hleft : st = .outside ∧ c = '('
      · obtain ⟨rfl, rfl⟩ := hleft
        exact hkeep (depth + 1) (splitClose_left depth)
      by_cases hright : st = .outside ∧ c = ')'
      · obtain ⟨rfl, rfl⟩ := hright
        match depth with
        | 0 => exact .inl ⟨none, fun b => by
            rw [List.cons_append, splitClose_cons, if_neg (by decide), if_pos ⟨rfl, rfl⟩]; rfl⟩
        | 1 => exact .inl ⟨some ([], a), fun b => splitClose_last (a ++ b)⟩
        | depth + 2 => exact hkeep (depth + 1) (splitClose_right depth)
      · exact hkeep depth fun rest => by rw [splitClose_cons, if_neg hleft, if_neg hright]

/-- The search for a call: it has found one that starts within `a`, or it goes on past it. -/
theorem splitAtCall_append (keyword : List Char) (st : QuoteState) (before : Option Char)
    (a b : List Char) :
    (∃ head tail, splitAtCall keyword st before (a ++ b) = some (head, tail) ∧
      head.length < a.length) ∨
    splitAtCall keyword st before (a ++ b) =
      keep a (splitAtCall keyword (st.run a) (a.getLast?.or before) b) := by
  induction a generalizing st before with
  | nil => exact .inr (keep_nil _).symm
  | cons c a ih =>
      rw [List.cons_append, splitAtCall]
      split
      · exact .inl ⟨[], _, rfl, by simp⟩
      · rcases ih (st.step c) (some c) with ⟨head, tail, hfound, hlength⟩ | hrest
        · exact .inl ⟨c :: head, tail, by rw [hfound]; rfl, by simpa using hlength⟩
        · have hlast : (c :: a).getLast?.or before = a.getLast?.or (some c) := by
            cases ha : a.getLast? <;> simp [List.getLast?_cons, ha]
          refine .inr ?_
          rw [hrest, hlast, QuoteState.run_cons, ← List.singleton_append, keep_append]
          rfl

/-- What an operator looks at behind itself: the next character, and the next one that is no blank.
-/
def ahead (cs : List Char) : Option Char × Option Char :=
  (cs.head?, (cs.dropWhile Text.isBlank).head?)

section

variable {b b' : List Char} (h : ahead b' = ahead b)
include h

theorem ahead_append (a : List Char) : ahead (a ++ b') = ahead (a ++ b) := by
  induction a with
  | nil => exact h
  | cons c a ih =>
      refine Prod.ext rfl ?_
      cases hc : Text.isBlank c with
      | true => simpa [ahead, hc] using congrArg Prod.snd ih
      | false => simp [ahead, hc]

theorem joinsOperands_of_ahead (seen : List Char) : joinsOperands seen b' = joinsOperands seen b := by
  obtain ⟨hnext, hvisible⟩ := Prod.mk.inj h
  simp only [joinsOperands, hnext, hvisible]

theorem partOfComparison_of_ahead (seen : List Char) :
    partOfComparison seen b' = partOfComparison seen b := by
  obtain ⟨hnext, -⟩ := Prod.mk.inj h
  simp only [partOfComparison, hnext]

end

/-- One character of the text that operators are written in. -/
theorem writeOperatorsFrom_step (st : QuoteState) (skipping : Bool) (seen out : List Char)
    (c : Char) (rest : List Char) :
    ∃ skipping' out', ∀ rest', ahead rest' = ahead rest →
      writeOperatorsFrom st skipping seen out (c :: rest') =
        writeOperatorsFrom (st.step c) skipping' (c :: seen) out' rest' := by
  by_cases hst : st = .outside
  case neg =>
    refine ⟨false, c :: out, fun rest' _ => ?_⟩
    rw [writeOperatorsFrom, if_pos hst]
  subst hst
  have houtside : ¬QuoteState.outside ≠ .outside := not_not_intro rfl
  by_cases hblank : skipping ∧ Text.isBlank c
  · refine ⟨true, out, fun rest' _ => ?_⟩
    rw [writeOperatorsFrom, if_neg houtside, if_pos hblank,
      QuoteState.step_outside (isQuote_eq_false_of_isBlank hblank.2)]
  by_cases hjoins : c = '&' ∧ joinsOperands seen rest
  · refine ⟨true, ' ' :: '+' :: ' ' :: out.dropWhile Text.isBlank, fun rest' hahead => ?_⟩
    rw [← joinsOperands_of_ahead hahead] at hjoins
    rw [writeOperatorsFrom, if_neg houtside, if_neg hblank, if_pos hjoins, hjoins.1]
    rfl
  by_cases hequal : c = '='
  · subst hequal
    refine ⟨false, if partOfComparison seen rest then '=' :: out else '=' :: '=' :: out,
      fun rest' hahead => ?_⟩
    rw [← partOfComparison_of_ahead hahead, writeOperatorsFrom, if_neg houtside, if_neg hblank,
      if_neg (by simp), if_pos rfl]
    rfl
  by_cases hless : c = '<' ∧ rest.head? = some '>'
  · refine ⟨false, '!' :: out, fun rest' hahead => ?_⟩
    rw [← (Prod.mk.inj hahead).1] at hless
    rw [← joinsOperands_of_ahead hahead] at hjoins
    rw [writeOperatorsFrom, if_neg houtside, if_neg hblank, if_neg hjoins, if_neg hequal,
      if_pos hless, hless.1]
    rfl
  by_cases hgreater : c = '>' ∧ seen.head? = some '<'
  · refine ⟨false, '=' :: out, fun rest' hahead => ?_⟩
    rw [← (Prod.mk.inj hahead).1] at hless
    rw [← joinsOperands_of_ahead hahead] at hjoins
    rw [writeOperatorsFrom, if_neg houtside, if_neg hblank, if_neg hjoins, if_neg hequal,
      if_neg hless, if_pos hgreater, hgreater.1]
    rfl
  · refine ⟨false, c :: out, fun rest' hahead => ?_⟩
    rw [← (Prod.mk.inj hahead).1] at hless
    rw [← joinsOperands_of_ahead hahead] at hjoins
    rw [writeOperatorsFrom, if_neg houtside, if_neg hblank, if_neg hjoins, if_neg hequal,
      if_neg hless, if_neg hgreater]

theorem writeOperatorsFrom_append (st : QuoteState) (skipping : Bool) (seen out a b : List Char) :
    ∃ skipping' out', ∀ b', ahead b' = ahead b →
      writeOperatorsFrom st skipping seen out (a ++ b') =
        writeOperatorsFrom (st.run a) skipping' (a.reverse ++ seen) out' b' := by
  induction a generalizing st skipping seen out with
  | nil => exact ⟨skipping, out, fun _ _ => rfl⟩
  | cons c a ih =>
      obtain ⟨skipping₁, out₁, hstep⟩ := writeOperatorsFrom_step st skipping seen out c (a ++ b)
      obtain ⟨skipping', out', hrest⟩ := ih (st.step c) skipping₁ (c :: seen) out₁
      refine ⟨skipping', out', fun b' hahead => ?_⟩
      rw [List.cons_append, hstep _ (ahead_append hahead a), hrest b' hahead]
      simp

/-- Past the text `a` every pass stands in the state `st` and goes on from there. The two searches
may also have ended before, and operators are written with a look ahead. -/
structure PassesIn (st : QuoteState) (a : List Char) : Prop where
  stretches : ∃ ps held, ∀ b, stretches (a ++ b) = ps ++ stretchesFrom st held b
  pieces : ∃ ps x depth, ∀ b, pieces 0 .outside (a ++ b) = ps ++ glue x (pieces depth st b)
  closing : (∃ found : Option (List Char × List Char), ∀ b, splitClose 0 .outside (a ++ b) =
      found.map fun (before, after) => (before, after ++ b)) ∨
    ∃ depth, ∀ b, splitClose 0 .outside (a ++ b) = keep a (splitClose depth st b)
  calls : ∀ keyword b, (∃ head tail, splitAtCall keyword .outside none (a ++ b) =
      some (head, tail) ∧ head.length < a.length) ∨
    splitAtCall keyword .outside none (a ++ b) = keep a (splitAtCall keyword st a.getLast? b)
  operators : ∀ b, ∃ skipping out, ∀ b', ahead b' = ahead b →
    writeOperators (a ++ b') = writeOperatorsFrom st skipping a.reverse out b'

theorem passesIn_run (a : List Char) : PassesIn (QuoteState.outside.run a) a where
  stretches := stretchesFrom_append .outside [] a
  pieces := pieces_append 0 .outside a
  closing := splitClose_append 0 .outside a
  calls keyword b := by simpa using splitAtCall_append keyword .outside none a b
  operators b := by
    have hrest := writeOperatorsFrom_append .outside false [] [] a b
    rwa [List.append_nil] at hrest

end SheetBoard.Formula
