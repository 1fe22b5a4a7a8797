import SheetBoard.Proofs.Condition.Printing
import SheetBoard.Proofs.Formula.Passing
import SheetBoard.Proofs.Script.Reading

/-! A quoted text is read back by everything that reads one: scripts, the values of conditions, and
the passes over formulas, for which it is one literal wherever it stands. So a text that is no
formula is its own value. -/

namespace SheetBoard.Formula

/-! ### One literal -/

/-- Escaped text is inside its literal up to any place. -/
theorem Escaped.run_take {cs : List Char} (h : Escaped cs) (i : Nat) :
    (QuoteState.inside '"').run (cs.take i) ≠ .outside := by
  induction h generalizing i with
  | nil => simp
  | plain hmark hslash _ ih =>
      cases i with
      | zero => simp
      | succ i =>
          rw [List.take_succ_cons, QuoteState.run_cons, QuoteState.step_inside hmark hslash]
          exact ih i
  | slash c _ ih =>
      rcases i with _ | _ | i
      · simp
      · simp
      · simpa using ih i

theorem run_take_quote (cs : List Char) {i : Nat} (hpos : 0 < i) (hlt : i < (quote cs).length) :
    QuoteState.outside.run ((quote cs).take i) ≠ .outside := by
  obtain ⟨i, rfl⟩ := Nat.exists_eq_succ_of_ne_zero (Nat.ne_of_gt hpos)
  have hle : i ≤ (escape cs).length := by
    simp only [quote, List.cons_append, List.length_cons, List.length_append,
      List.length_nil] at hlt
    omega
  rw [quote, List.cons_append, List.take_succ_cons, List.take_append_of_le_length hle,
    QuoteState.run_cons, QuoteState.step_open]
  exact (escaped_escape cs).run_take i

/-- A quoted text behind a text that ends outside literals is cut as a stretch of its own. -/
theorem stretches_append_quote {p : List Char} (hp : QuoteState.outside.run p = .outside)
    (cs q : List Char) :
    stretches (p ++ quote cs ++ q) = stretches p ++ .literal (quote cs) :: stretches q := by
  obtain ⟨ps, held, hcut⟩ := stretchesFrom_append .outside [] p
  have hfront : stretches p = ps ++ closeStretch .outside held := by
    simpa [stretches, hp, stretchesFrom_nil] using hcut []
  rw [hfront, stretches, List.append_assoc, hcut, hp, stretchesFrom_quote, List.append_assoc]
  rfl

theorem editUnquoted_around_quote (edit : List Char → List Char) {p : List Char}
    (hp : QuoteState.outside.run p = .outside) (cs q : List Char) :
    editUnquoted edit (p ++ quote cs ++ q) =
      editUnquoted edit p ++ quote cs ++ editUnquoted edit q := by
  rw [editUnquoted, stretches_append_quote hp, List.flatMap_append, List.flatMap_cons,
    ← List.append_assoc]
  rfl

end SheetBoard.Formula

namespace SheetBoard.Script

open Formula (FunctionTable PassesIn QuoteState editUnquoted passesIn_run quote stretches)

theorem read_quote (s : String) : read (quote s.toList) = .ok (.text s) := by
  have hlast : (quote s.toList).getLast? = some '"' := by rw [quote, List.getLast?_concat]
  have htrim : Text.trim (quote s.toList) = quote s.toList :=
    Text.trim_eq_self rfl (by rw [hlast]; rfl)
  have htokens : tokens (quote s.toList) = [.text s] := by
    have hscan : Scans (quote s.toList) [.text (.ofList s.toList)] [] :=
      scans_quote s.toList (by simp)
    have hend : tokens [] = [] := tokens_eq_nil rfl
    rwa [Scans, List.append_nil, hend, String.ofList_toList] at hscan
  have hwhole : Derivation .conditional ([.text s] ++ []) (.expr (.text s)) [] :=
    (Reads.text s).derives.conditional (by simp)
  rwa [read, htrim, htokens, readTokens_eq_ok_iff]

/-- A text that is no formula has itself as its value. -/
theorem run_script_of_ne {formula : String} (h : formula.toList.head? ≠ some '=')
    (functions : FunctionTable) (scope : Formula.Scope) (ctx : Context) :
    run ctx (Formula.script functions scope formula.toList) = .ok (.text formula) := by
  have hscript : Formula.script functions scope formula.toList = quote formula.toList := by
    unfold Formula.script
    split
    · rename_i body heq
      simp [heq] at h
    · rfl
  rw [hscript, run, read_quote]
  rfl

/-- A quoted text is read as that text, in scripts and in conditions. The automaton of literals takes
it for one literal that closes with its last character; behind a text that ends outside literals it
is a stretch of its own, which no pass enters and no edit changes. So every text that is no formula
is its own value, for a row as over columns. -/
theorem quote_readBack (s : String) :
    read (quote s.toList) = .ok (.text s) ∧
    Condition.readValue (quote s.toList) = .text s ∧
    (∀ i, 0 < i → i < (quote s.toList).length →
      QuoteState.outside.run ((quote s.toList).take i) ≠ .outside) ∧
    (∀ p q, QuoteState.outside.run p = .outside →
      PassesIn .outside (p ++ quote s.toList) ∧
      stretches (p ++ quote s.toList ++ q) =
        stretches p ++ .literal (quote s.toList) :: stretches q ∧
      ∀ edit, editUnquoted edit (p ++ quote s.toList ++ q) =
        editUnquoted edit p ++ quote s.toList ++ editUnquoted edit q) ∧
    (s.toList.head? ≠ some '=' → ∀ functions ctx,
      (∀ row, run ctx (Formula.rowScript functions row s).toList = .ok (.text s)) ∧
      ∀ schema, run ctx (Formula.columnScript functions schema s).toList = .ok (.text s)) := by
  refine ⟨read_quote s, Condition.readValue_quote s, fun i => Formula.run_take_quote s.toList,
    fun p q hp => ⟨?_, Formula.stretches_append_quote hp _ q, fun edit =>
      Formula.editUnquoted_around_quote edit hp _ q⟩, fun hs functions ctx => ?_⟩
  · have hpasses := passesIn_run (p ++ quote s.toList)
    rwa [QuoteState.run_append, hp, Formula.run_quote] at hpasses
  · simp only [Formula.rowScript, Formula.columnScript, String.toList_ofList]
    exact ⟨fun row => run_script_of_ne hs functions _ ctx,
      fun schema => run_script_of_ne hs functions _ ctx⟩

/-- A text that ends with a backslash and a mark, behind a literal and in front of one that is not
closed. -/
theorem quote_readBack_marks :
    let s := "say \\n\\\""
    let p := "\"it's\" & ".toList
    let q := "'y".toList
    let edit : List Char → List Char := fun cs => '[' :: cs ++ [']']
    QuoteState.outside.run p = .outside ∧ s.toList.head? ≠ some '=' ∧
      quote s.toList = "\"say \\\\n\\\\\\\"\"".toList ∧
      read (quote s.toList) = .ok (.text s) ∧
      editUnquoted edit (p ++ quote s.toList ++ q) =
        "\"it's\"[ & ]".toList ++ quote s.toList ++ "'y".toList ∧
      run ⟨none, ⟨2024, 3, 15⟩⟩ (Formula.columnScript .standard ⟨["n"]⟩ s).toList =
        .ok (.text s) := by
  intro s p q edit
  have hp : QuoteState.outside.run p = .outside := by decide +kernel
  have hs : s.toList.head? ≠ some '=' := by decide +kernel
  have hquote : quote s.toList = "\"say \\\\n\\\\\\\"\"".toList := by decide +kernel
  have hedited : editUnquoted edit p = "\"it's\"[ & ]".toList ∧
      editUnquoted edit q = "'y".toList := by decide +kernel
  obtain ⟨hread, -, -, haround, hvalue⟩ := quote_readBack s
  have hpasses := (haround p q hp).2.2 edit
  rw [hedited.1, hedited.2] at hpasses
  exact ⟨hp, hs, hquote, hread, hpasses, (hvalue hs _ _).2 _⟩

end SheetBoard.Script
