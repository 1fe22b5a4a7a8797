import SheetBoard.Proofs.Formula.OperatorRules
import SheetBoard.Proofs.Formula.Rounds

/-! Writing statements a second time changes nothing, in any text. Each pass leaves a text in which
it finds nothing more to write, and no later pass changes the calls that an earlier one has left
alone. -/

namespace SheetBoard.Formula

/-! ### Operators and calls -/

/-- A text of signs and blanks. -/
structure OperatorText (x : List Char) : Prop where
  ne_nil : x ≠ []
  chars : ∀ c ∈ x, Text.isBlank c = true ∨ c ∈ signs

namespace OperatorText

variable {x : List Char} (h : OperatorText x)
include h

theorem neutral {c : Char} (hc : c ∈ x) :
    isQuote c = false ∧ c ∉ ['(', ')', ','] ∧ joinsName c = false := by
  have hcheck : ∀ d ∈ signs, isQuote d = false ∧ d ∉ ['(', ')', ','] ∧ joinsName d = false := by
    decide
  rcases h.chars c hc with hblank | hsign
  · exact ⟨isQuote_eq_false_of_isBlank hblank, notMem_of_isBlank hblank (by decide),
      joinsName_of_isBlank hblank⟩
  · exact hcheck c hsign

theorem run_outside : QuoteState.outside.run x = .outside := by
  have hunquoted : Unquoted x := fun c hc => (h.neutral hc).1
  exact hunquoted.run

theorem tally (t : Tally) (st : QuoteState) : t.run st x = t.fill :=
  t.run_plain h.ne_nil (fun _ hc => (h.neutral hc).2.1) st

theorem callsFrom_append (keyword word rest : List Char) :
    callsFrom keyword .outside word (x ++ rest) = callsFrom keyword .outside [] rest := by
  refine callsFrom_gap h.ne_nil (fun c hc => ⟨(h.neutral hc).1, ?_⟩) ?_ rest
  · rintro rfl
    exact (h.neutral hc).2.1 (by simp)
  · rw [List.getLast?_eq_some_getLast h.ne_nil]
    exact (h.neutral (List.getLast_mem h.ne_nil)).2.2

end OperatorText

theorem Replaced.operatorText {seen rest a b : List Char} (h : Replaced seen rest a b) :
    OperatorText a ∧ OperatorText b := by
  cases h with
  | equals => exact ⟨⟨by simp, by decide⟩, by simp, by decide⟩
  | differs => exact ⟨⟨by simp, by decide⟩, by simp, by decide⟩
  | joined hl hr =>
      refine ⟨⟨by simp, fun c hc => ?_⟩, by simp, by decide⟩
      rcases List.mem_append.1 hc with hc | hc
      · exact .inl (hl c hc)
      · rcases List.mem_cons.1 hc with rfl | hc
        · exact .inr (by decide)
        · exact .inl (hr c hc)

namespace Operated

variable {st : QuoteState} {seen x y : List Char} (h : Operated st seen x y)
include h

/-- A call around has the same arguments. -/
theorem tally (t : Tally) : t.run st y = t.run st x := by
  induction h generalizing t with
  | nil => rfl
  | kept _ _ ih => exact ih _
  | replaced hreplaced _ ih =>
      obtain ⟨ha, hb⟩ := hreplaced.operatorText
      rw [Tally.run_append, Tally.run_append, ha.tally, hb.tally, ha.run_outside, hb.run_outside,
        ih]

theorem callsFrom_eq (keyword word : List Char) :
    callsFrom keyword st word y = callsFrom keyword st word x := by
  induction h generalizing word with
  | nil => rfl
  | kept _ hrest ih => rw [callsFrom_cons, callsFrom_cons, hrest.tally, ih]
  | replaced hreplaced _ ih =>
      obtain ⟨ha, hb⟩ := hreplaced.operatorText
      rw [ha.callsFrom_append, hb.callsFrom_append, ih]

end Operated

theorem calls_writeOperators (k : Keyword) (cs : List Char) :
    calls k (writeOperators cs) = calls k cs :=
  (operated_writeOperators cs).callsFrom_eq _ _

/-! ### Statements -/

theorem Keyword.write_write (k : Keyword) (cs : List Char) : k.write (k.write cs) = k.write cs :=
  write_of_settled (k.settled_write cs)

/-- A text is settled as long as its calls stay. -/
theorem Settled.of_calls_eq {k : Keyword} {x y : List Char} (h : Settled k x)
    (hcalls : calls k y = calls k x) : Settled k y := by
  rwa [Settled, hcalls]

theorem writeStatements_eq (cs : List Char) :
    writeStatements cs = writeOperators
      (Keyword.disjunction.write (Keyword.conjunction.write (Keyword.choice.write cs))) :=
  rfl

/-- No call is left that a pass could write. -/
theorem settled_writeStatements (k : Keyword) (cs : List Char) :
    Settled k (writeStatements cs) := by
  rw [writeStatements_eq]
  refine Settled.of_calls_eq ?_ (calls_writeOperators k _)
  cases k with
  | choice =>
      have hconjunctions : Settled .choice (Keyword.conjunction.write (Keyword.choice.write cs)) :=
        (Keyword.settled_write _ cs).of_calls_eq (Keyword.calls_write (by decide) (by decide) _)
      exact hconjunctions.of_calls_eq (Keyword.calls_write (by decide) (by decide) _)
  | conjunction =>
      exact (Keyword.settled_write _ _).of_calls_eq (Keyword.calls_write (by decide) (by decide) _)
  | disjunction => exact Keyword.settled_write _ _

/-- Every pass leaves its own result as it is, and so do all of them together. A pass leaves the
calls that earlier ones are for, each with the number of its arguments, and makes no call at all;
the first of the calls is the one that a pass takes or stops at. -/
theorem writeStatements_idempotent (cs : List Char) :
    (writeChoices (writeChoices cs) = writeChoices cs ∧
      writeConjunctions (writeConjunctions cs) = writeConjunctions cs ∧
      writeDisjunctions (writeDisjunctions cs) = writeDisjunctions cs ∧
      writeOperators (writeOperators cs) = writeOperators cs) ∧
    writeStatements (writeStatements cs) = writeStatements cs ∧
    (calls .choice (writeConjunctions cs) = calls .choice cs ∧
      calls .choice (writeDisjunctions cs) = calls .choice cs ∧
      calls .conjunction (writeDisjunctions cs) = calls .conjunction cs ∧
      ∀ k, calls k (writeOperators cs) = calls k cs) ∧
    ∀ k, ((calls k (writeChoices cs)).Subperm (calls k cs) ∧
      (calls k (writeConjunctions cs)).Subperm (calls k cs) ∧
      (calls k (writeDisjunctions cs)).Subperm (calls k cs)) ∧
      (leftmostCall? k.spelling cs).map (fun found => found.2.1.length) =
        (calls k cs).head?.bind Tally.size? := by
  have hstatements : writeStatements (writeStatements cs) = writeStatements cs := by
    rw [writeStatements_eq (writeStatements cs),
      Keyword.write_of_settled (settled_writeStatements .choice cs),
      Keyword.write_of_settled (settled_writeStatements .conjunction cs),
      Keyword.write_of_settled (settled_writeStatements .disjunction cs)]
    exact writeOperators_writeOperators _
  refine ⟨⟨?_, ?_, ?_, writeOperators_writeOperators cs⟩, hstatements,
    ⟨?_, ?_, ?_, fun k => calls_writeOperators k cs⟩,
    fun k => ⟨⟨?_, ?_, ?_⟩, length_leftmostCall? k cs⟩⟩
  · exact Keyword.choice.write_write cs
  · exact Keyword.conjunction.write_write cs
  · exact Keyword.disjunction.write_write cs
  · exact Keyword.calls_write (k := .conjunction) (by decide) (by decide) cs
  · exact Keyword.calls_write (k := .disjunction) (by decide) (by decide) cs
  · exact Keyword.calls_write (k := .disjunction) (by decide) (by decide) cs
  · exact Keyword.calls_write_subperm k .choice cs
  · exact Keyword.calls_write_subperm k .conjunction cs
  · exact Keyword.calls_write_subperm k .disjunction cs

end SheetBoard.Formula
