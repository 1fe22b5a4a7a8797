import Mathlib.Data.List.Perm.Subperm
import Mathlib.Data.Option.Basic
import SheetBoard.Proofs.Formula.Alike
import SheetBoard.Proofs.Formula.Nesting
import SheetBoard.Proofs.Formula.Renaming

/-! No step of a translation touches a literal. Each step keeps the literals of a text among its own
and in their order; only choices put them in another one. -/

namespace SheetBoard.Formula

/-- The text leaves no literal open. -/
def Closed (cs : List Char) : Prop := QuoteState.outside.run cs = .outside

theorem Unquoted.closed {cs : List Char} (h : Unquoted cs) : Closed cs := h.run

theorem Closed.append {a b : List Char} (ha : Closed a) (hb : Closed b) : Closed (a ++ b) := by
  unfold Closed at *
  rw [QuoteState.run_append, ha, hb]

theorem closed_quote (cs : List Char) : Closed (quote cs) := run_quote cs

/-! ### The literals of a text -/

/-- The literals of a text that was already cut. -/
def literalTexts (ps : List Stretch) : List (List Char) :=
  ps.filterMap fun
    | .plain _ => none
    | .literal text => some text

theorem literals_eq (cs : List Char) : literals cs = literalTexts (stretchesFrom .outside [] cs) :=
  rfl

@[simp] theorem literalTexts_append (ps qs : List Stretch) :
    literalTexts (ps ++ qs) = literalTexts ps ++ literalTexts qs :=
  List.filterMap_append

@[simp] theorem literalTexts_plain (text : List Char) (ps : List Stretch) :
    literalTexts (.plain text :: ps) = literalTexts ps := rfl

@[simp] theorem literalTexts_literal (text : List Char) (ps : List Stretch) :
    literalTexts (.literal text :: ps) = text :: literalTexts ps := rfl

@[simp] theorem literalTexts_closeStretch (held : List Char) :
    literalTexts (closeStretch .outside held) = [] := by
  unfold closeStretch
  split <;> rfl

theorem stretchesFrom_plain {c : Char} (hc : isQuote c = false) (held cs : List Char) :
    stretchesFrom .outside held (c :: cs) = stretchesFrom .outside (c :: held) cs :=
  stretchesFrom_unquoted (a := [c]) (by simpa [Unquoted] using hc) held cs

/-- What is held of an unquoted stretch does not matter. -/
theorem literalTexts_stretchesFrom (held cs : List Char) :
    literalTexts (stretchesFrom .outside held cs) = literals cs := by
  induction cs generalizing held with
  | nil => simp [literals_eq, stretchesFrom_nil]
  | cons c cs ih =>
      rw [literals_eq]
      cases hc : isQuote c with
      | false => rw [stretchesFrom_plain hc, stretchesFrom_plain hc, ih, ih]
      | true =>
          have hopen : QuoteState.outside.step c ≠ .outside := by simp [QuoteState.step_mark hc]
          rw [stretchesFrom_open hopen, stretchesFrom_open hopen]
          simp

@[simp] theorem literals_nil : literals [] = [] := rfl

theorem literals_cons {c : Char} (hc : isQuote c = false) (cs : List Char) :
    literals (c :: cs) = literals cs := by
  rw [literals_eq, stretchesFrom_plain hc, literalTexts_stretchesFrom]

theorem literalTexts_append_of_run {st : QuoteState} {a : List Char} (ha : st.run a = .outside)
    (held b : List Char) :
    literalTexts (stretchesFrom st held (a ++ b)) =
      literalTexts (stretchesFrom st held a) ++ literals b := by
  induction a generalizing st held with
  | nil =>
      obtain rfl : st = .outside := ha
      simp [literalTexts_stretchesFrom, stretchesFrom_nil]
  | cons c a ih =>
      rw [QuoteState.run_cons] at ha
      rw [List.cons_append]
      by_cases hst : st = .outside
      · subst hst
        cases hc : isQuote c with
        | false =>
            rw [QuoteState.step_outside hc] at ha
            rw [stretchesFrom_plain hc, stretchesFrom_plain hc, ih ha]
        | true =>
            have hopen : QuoteState.outside.step c ≠ .outside := by simp [QuoteState.step_mark hc]
            rw [stretchesFrom_open hopen, stretchesFrom_open hopen, literalTexts_append, ih ha,
              literalTexts_append, List.append_assoc]
      · by_cases hclose : st.step c = .outside
        · rw [hclose] at ha
          rw [stretchesFrom_close hst hclose, stretchesFrom_close hst hclose,
            literalTexts_literal, ih ha, literalTexts_literal, List.cons_append]
        · rw [stretchesFrom_inside hst hclose, stretchesFrom_inside hst hclose, ih ha]

theorem literals_append {a : List Char} (ha : Closed a) (b : List Char) :
    literals (a ++ b) = literals a ++ literals b :=
  literalTexts_append_of_run ha [] b

theorem Unquoted.literals {a : List Char} (ha : Unquoted a) : literals a = [] := by
  induction a with
  | nil => rfl
  | cons c a ih => rw [literals_cons (ha c (by simp)), ih ha.tail]

/-! ### Editing outside literals -/

/-- Unquoted stretches, and texts that are literals. Only the last literal may be open. -/
inductive Cut : List Stretch → Prop where
  | nil : Cut []
  | last {text} (h : literals text = [text]) : Cut [.literal text]
  | plain {text ps} (h : Unquoted text) (hps : Cut ps) : Cut (.plain text :: ps)
  | literal {text ps} (h : literals text = [text]) (hclosed : Closed text) (hps : Cut ps) :
    Cut (.literal text :: ps)

theorem Cut.closeStretch_append {held : List Char} (hheld : Held .outside held)
    {ps : List Stretch} (hps : Cut ps) : Cut (closeStretch .outside held ++ ps) := by
  unfold closeStretch
  split
  · exact hps
  · exact .plain (hheld.plain rfl) hps

/-- A scan from the start of the literal comes to the same state with the same characters held. -/
def Resumes (st : QuoteState) (held : List Char) : Prop :=
  ∀ rest, stretches (held.reverse ++ rest) = stretchesFrom st held rest

theorem cut_stretchesFrom {st : QuoteState} {held : List Char} (hheld : Held st held)
    (hresumes : st ≠ .outside → held ≠ [] ∧ Resumes st held) (cs : List Char) :
    Cut (stretchesFrom st held cs) := by
  induction cs generalizing st held with
  | nil =>
      by_cases hst : st = .outside
      · subst hst
        simpa [stretchesFrom_nil] using Cut.nil.closeStretch_append hheld
      · obtain ⟨hne, hresumes⟩ := hresumes hst
        have hcut : stretchesFrom st held [] = [.literal held.reverse] := by
          simp [stretchesFrom_nil, closeStretch, hst, hne]
        have hsame := hresumes []
        rw [List.append_nil, hcut] at hsame
        rw [hcut]
        refine .last ?_
        rw [literals_eq, ← stretches, hsame]
        rfl
  | cons c cs ih =>
      by_cases hst : st = .outside
      · subst hst
        cases hc : isQuote c with
        | false =>
            rw [stretchesFrom_plain hc]
            exact ih (hheld.cons_plain hc) (absurd rfl)
        | true =>
            have hopen : QuoteState.outside.step c ≠ .outside := by simp [QuoteState.step_mark hc]
            rw [stretchesFrom_open hopen]
            refine .closeStretch_append hheld (ih ⟨fun h => absurd h hopen, rfl⟩ fun _ => ?_)
            refine ⟨by simp, fun rest => ?_⟩
            simpa [stretches, closeStretch] using stretchesFrom_open hopen [] rest
      · obtain ⟨-, hresumes⟩ := hresumes hst
        by_cases hclose : st.step c = .outside
        · rw [stretchesFrom_close hst hclose]
          have hrun : Closed (c :: held).reverse := by simp [Closed, hheld.run, hclose]
          have hsame : stretches (c :: held).reverse = [.literal (c :: held).reverse] := by
            rw [List.reverse_cons, hresumes, stretchesFrom_close hst hclose]
            simp [stretchesFrom_nil, closeStretch]
          refine .literal ?_ hrun (ih .nil (absurd rfl))
          rw [literals_eq, ← stretches, hsame]
          rfl
        · rw [stretchesFrom_inside hst hclose]
          refine ih (hheld.cons_open hclose) fun _ => ⟨by simp, fun rest => ?_⟩
          rw [List.reverse_cons, List.append_assoc, hresumes, List.singleton_append,
            stretchesFrom_inside hst hclose]

theorem cut_stretches (cs : List Char) : Cut (stretches cs) :=
  cut_stretchesFrom .nil (absurd rfl) cs

section

variable {edit : List Char → List Char} (hedit : ∀ cs, Unquoted cs → Closed (edit cs))

include hedit

theorem Cut.sublist_literals {ps : List Stretch} (h : Cut ps) :
    (literalTexts ps).Sublist (literals (editStretches edit ps)) := by
  induction h with
  | nil => exact .slnil
  | last h =>
      rw [editStretches_literal, literalTexts_literal]
      simp [editStretches, literalTexts, h]
  | @plain text ps h _ ih =>
      have hsplit : editStretches edit (.plain text :: ps) = edit text ++ editStretches edit ps :=
        List.flatMap_cons
      rw [hsplit, literals_append (hedit text h), literalTexts_plain]
      exact ih.trans (List.sublist_append_right _ _)
  | literal h hclosed _ ih =>
      rw [editStretches_literal, literals_append hclosed, literalTexts_literal, h]
      exact ih.cons_cons _

/-- The literals stay, next to those that the edits write. -/
theorem sublist_literals_editUnquoted (cs : List Char) :
    (literals cs).Sublist (literals (editUnquoted edit cs)) :=
  (cut_stretches cs).sublist_literals hedit

end

/-! ### Replacing what a pattern finds -/

/-- It is enough that what is written for a find in unquoted text is closed. -/
theorem closed_replaceAll {α : Type} {find : Pattern α}
    {form : Option Char → α → List Char → Option (List Char)}
    (hform : ∀ before cs found rest, Unquoted cs → find before cs = some (found, rest) →
      ∀ text ∈ form before found rest, Closed text)
    {cs : List Char} (hcs : Unquoted cs) : Closed (replaceAll find form cs) := by
  have hself : Exchangeable (replaceAll find form cs) (replaceAll find form cs) := by
    refine replaceFrom_exchangeable (fun before cs hcs => ?_) hcs 0 none
    cases hfind : find before cs with
    | none => exact .none
    | some pair =>
        obtain ⟨found, rest⟩ := pair
        have hclosed :
            Closed ((form before found rest).getD (cs.take (cs.length - rest.length))) := by
          cases htext : form before found rest with
          | none => exact (hcs.take _).closed
          | some text => exact hform before cs found rest hcs hfind text htext
        exact .some ⟨rfl, .refl _ _, hclosed⟩
  exact hself.closed

theorem closed_replaceReferences {α : Type} {find : Pattern α}
    {form : Option Char → α → List Char → Option (List Char)}
    (hform : ∀ before cs found rest, Unquoted cs → find before cs = some (found, rest) →
      ∀ text ∈ form before found rest, Closed text)
    {cs : List Char} (hcs : Unquoted cs) : Closed (replaceReferences find form cs) := by
  refine closed_replaceAll (fun before cs found rest hcs hfind text htext => ?_) hcs
  split at htext
  · cases htext
  · exact hform before cs found rest hcs hfind text htext

/-! ### References -/

theorem closed_cellLiteral (c : Cell) : Closed (cellLiteral c) :=
  (cellLiteral_exchangeable_self c).closed

theorem closed_cellLiteral_getD (c : Option Cell) (name : List Char) :
    Closed ((c.map cellLiteral).getD (quote name)) := by
  cases c with
  | none => exact closed_quote name
  | some c => exact closed_cellLiteral c

theorem Scope.closed_column (scope : Scope) (name : String) {start : Option (List Char)}
    (hstart : ∀ digits ∈ start, Unquoted digits) : Closed (scope.column name start) := by
  cases scope with
  | row r =>
      rw [column_row]
      exact closed_cellLiteral_getD _ _
  | columns schema =>
      have hopen : Unquoted "getColumnData(".toList := by decide
      have hlimit : Unquoted ((start.map fun digits => ',' :: ' ' :: digits).getD []) := by
        cases start with
        | none => simp [Unquoted]
        | some digits =>
            have hcomma : Unquoted [',', ' '] := by decide
            exact hcomma.append (hstart digits rfl)
      have hend : Unquoted [')'] := by decide
      exact ((hopen.closed.append (closed_quote _)).append hlimit.closed).append hend.closed

theorem digits_of_letterRange {before : Option Char} {cs rest : List Char}
    {first last : Reference} (hcs : Unquoted cs)
    (h : letterRange before cs = some ((first, last), rest)) : Unquoted first.digits := by
  simp only [letterRange, Option.bind_eq_bind, Option.bind_eq_some_iff] at h
  obtain ⟨-, -, ⟨reference, tail⟩, hread, h⟩ := h
  have hfirst : reference = first := by
    split at h
    · simp only [Option.bind_eq_some_iff] at h
      obtain ⟨_, _, _, _, h⟩ := h
      cases h
      rfl
    · cases h
  rw [← hfirst]
  have hmem : ∀ c ∈ reference.digits, c ∈ cs := by
    rw [eq_append_of_read? hread]
    intro c hc
    simp [hc]
  exact fun c hc => hcs c (hmem c hc)

section

variable (scope : Scope) {cs : List Char} (hcs : Unquoted cs)

include hcs

theorem closed_resolveNameRanges : Closed (resolveNameRanges scope cs) := by
  refine closed_replaceReferences ?_ hcs
  rintro before cs ⟨first, last⟩ rest - - text htext
  simp only [Option.mem_ite_none_left, Option.mem_some_iff] at htext
  obtain ⟨-, -, rfl⟩ := htext
  exact scope.closed_column _ nofun

theorem closed_resolveLetterRanges : Closed (resolveLetterRanges scope cs) := by
  refine closed_replaceReferences ?_ hcs
  rintro before cs ⟨first, last⟩ rest hcs hfind text htext
  have hstart : ∀ digits ∈ (if first.digits = [] ∨ first.digits = ['1'] then none
      else some first.digits), Unquoted digits := by
    intro digits hdigits
    split at hdigits
    · cases hdigits
    · cases hdigits
      exact digits_of_letterRange hcs hfind
  dsimp only at htext
  split at htext
  · cases htext
  · split at htext
    · cases htext
      exact closed_quote _
    · cases htext
      exact Scope.closed_column _ _ hstart
    · cases htext
      exact Scope.closed_column _ _ hstart

theorem closed_resolveCells : Closed (resolveCells scope cs) := by
  refine closed_replaceReferences ?_ hcs
  intro before cs reference rest _ _ text htext
  dsimp only at htext
  split at htext
  · cases htext
  · split at htext
    next row =>
      cases htext
      exact closed_cellLiteral_getD _ _
    next schema =>
      obtain ⟨row, -, rfl⟩ := Option.map_eq_some_iff.1 htext
      have hopen : Unquoted "getCellValue(".toList := by decide
      have hcomma : Unquoted [',', ' '] := by decide
      have hrow : Unquoted (intText (row - 1)) :=
        unquoted_signed _ (unquoted_of_isDigit fun _ => Number.isDigit_of_mem_digitsOf)
      have hend : Unquoted [')'] := by decide
      exact (((hopen.closed.append (closed_quote _)).append hcomma.closed).append
        hrow.closed).append hend.closed

end

theorem sublist_literals_resolveNames (scope : Scope) (cs : List Char) :
    (literals cs).Sublist (literals (resolveNames scope cs)) := by
  unfold resolveNames
  induction searchedNames scope.schema generalizing cs with
  | nil => exact .refl _
  | cons name names ih =>
      refine (sublist_literals_editUnquoted (fun cs hcs => ?_) cs).trans (ih _)
      refine closed_replaceReferences ?_ hcs
      intro before cs found rest _ _ text htext
      cases htext
      exact scope.closed_column _ nofun

theorem sublist_literals_resolve (scope : Scope) (cs : List Char) :
    (literals cs).Sublist (literals (resolve scope cs)) := by
  have hnames := sublist_literals_editUnquoted (fun _ => closed_resolveNameRanges scope) cs
  have hletters := sublist_literals_editUnquoted (fun _ => closed_resolveLetterRanges scope)
    (editUnquoted (resolveNameRanges scope) cs)
  have hcells := sublist_literals_editUnquoted (fun _ => closed_resolveCells scope)
    (editUnquoted (resolveLetterRanges scope) (editUnquoted (resolveNameRanges scope) cs))
  exact ((hnames.trans hletters).trans hcells).trans (sublist_literals_resolveNames scope _)

/-! ### Growth formulas and function names -/

theorem sublist_literals_writeGrowth (schema : Schema) (cs : List Char) :
    (literals cs).Sublist (literals (writeGrowth schema cs)) := by
  refine sublist_literals_editUnquoted (fun cs hcs => closed_replaceAll ?_ hcs) cs
  rintro before cs ⟨current, previous⟩ rest - - text htext
  obtain ⟨x, -, y, -, h⟩ : ∃ x, schema.nameAt? current = some x ∧ ∃ y,
      schema.nameAt? previous = some y ∧
      "arrayAvg(arrayPercentageGrowth(getColumnData(".toList ++ quote x.toList ++
        ", 2), getColumnData(".toList ++ quote y.toList ++ ", 2)))".toList = text := by
    simpa [Option.bind_eq_some_iff] using htext
  rw [← h]
  have hopen : Unquoted "arrayAvg(arrayPercentageGrowth(getColumnData(".toList := by decide
  have hnext : Unquoted ", 2), getColumnData(".toList := by decide
  have hend : Unquoted ", 2)))".toList := by decide
  exact (((hopen.closed.append (closed_quote _)).append hnext.closed).append
    (closed_quote _)).append hend.closed

theorem sublist_literals_apply (cs : List Char) :
    (literals cs).Sublist (literals (FunctionTable.standard.apply cs)) := by
  refine sublist_literals_editUnquoted (fun cs hcs => closed_replaceAll ?_ hcs) cs
  intro before cs name rest _ _ text htext
  split at htext
  · cases htext
  · obtain ⟨target, hget, rfl⟩ := Option.map_eq_some_iff.1 htext
    obtain ⟨entry, hentry, rfl⟩ := FunctionTable.target_of_get? hget
    have htarget := (FunctionTable.standard_targets entry hentry).1.unquoted
    have hopen : Unquoted ['('] := by decide
    exact htarget.closed.append hopen.closed

/-! ### Blanks -/

/-- The mark of an open literal is a quote. -/
def QuoteState.Marked : QuoteState → Prop
  | .outside => True
  | .inside mark | .escaped mark => isQuote mark = true

theorem QuoteState.Marked.run {st : QuoteState} (h : st.Marked) (cs : List Char) :
    (st.run cs).Marked := by
  induction cs generalizing st with
  | nil => exact h
  | cons c cs ih =>
      apply ih
      cases st with
      | outside =>
          cases hc : isQuote c with
          | false => simp [QuoteState.step_outside hc, Marked]
          | true => simp [QuoteState.step_mark hc, Marked, hc]
      | inside mark =>
          unfold QuoteState.step
          dsimp only
          split
          · exact h
          · split
            · trivial
            · exact h
      | escaped mark => exact h

/-- A literal ends with the mark that it started with. -/
theorem QuoteState.Marked.isQuote_of_step {st : QuoteState} (h : st.Marked) (hst : st ≠ .outside)
    {c : Char} (hstep : st.step c = .outside) : isQuote c = true := by
  cases st with
  | outside => exact absurd rfl hst
  | inside mark =>
      have hmark : isQuote mark = true := h
      unfold step at hstep
      dsimp only at hstep
      split at hstep
      · cases hstep
      · split at hstep
        · rename_i hc
          rw [hc, hmark]
        · cases hstep
  | escaped mark => cases hstep

/-- A literal ends with a quote, so what is no quote stands outside. -/
theorem Closed.of_concat {cs : List Char} {c : Char} (hc : isQuote c = false)
    (h : Closed (cs ++ [c])) : Closed cs := by
  have hstart : QuoteState.outside.Marked := trivial
  have hmarked := hstart.run cs
  unfold Closed at *
  rw [QuoteState.run_append] at h
  cases hst : QuoteState.outside.run cs with
  | outside => rfl
  | inside mark =>
      rw [hst] at hmarked h
      have hmark : isQuote mark = true := hmarked
      have hne : c ≠ mark := by
        rintro rfl
        simp [hmark] at hc
      by_cases hslash : c = '\\' <;> simp [QuoteState.step, hslash, hne] at h
  | escaped mark =>
      rw [hst] at h
      cases h

/-- The two texts can stand for each other in front of any other: both are closed and have the same
literals. -/
structure SameLiterals (a b : List Char) : Prop where
  left : Closed a
  right : Closed b
  same : literals a = literals b

theorem SameLiterals.append {a b : List Char} (h : SameLiterals a b) (cs : List Char) :
    literals (a ++ cs) = literals (b ++ cs) := by
  rw [literals_append h.left, literals_append h.right, h.same]

theorem SameLiterals.append_unquoted {a b x : List Char} (h : SameLiterals a b)
    (hx : Unquoted x) : SameLiterals (a ++ x) b where
  left := h.left.append hx.closed
  right := h.right
  same := by rw [literals_append h.left, hx.literals, List.append_nil, h.same]

theorem SameLiterals.dropEndWhile {p : Char → Bool} (hp : ∀ c, p c = true → isQuote c = false)
    {cs : List Char} (hcs : Closed cs) : SameLiterals (Text.dropEndWhile p cs) cs := by
  induction cs using List.reverseRecOn with
  | nil => exact ⟨rfl, rfl, rfl⟩
  | append_singleton cs c ih =>
      cases hc : p c with
      | false =>
          have hkept : Text.dropEndWhile p (cs ++ [c]) = cs ++ [c] := by
            simp [Text.dropEndWhile, hc]
          rw [hkept]
          exact ⟨hcs, hcs, rfl⟩
      | true =>
          have hdropped : Text.dropEndWhile p (cs ++ [c]) = Text.dropEndWhile p cs := by
            simp [Text.dropEndWhile, hc]
          have hcut : Closed cs := .of_concat (hp c hc) hcs
          have hsame := ih hcut
          rw [hdropped]
          refine ⟨hsame.left, hcs, ?_⟩
          rw [hsame.same, literals_append hcut, literals_cons (hp c hc), literals_nil,
            List.append_nil]

theorem SameLiterals.trim {cs : List Char} (hcs : Closed cs) :
    SameLiterals (Text.trim cs) cs := by
  have hsplit : cs.takeWhile Text.isBlank ++ Text.trimStart cs = cs :=
    List.takeWhile_append_dropWhile
  have hblanks : Unquoted (cs.takeWhile Text.isBlank) := fun c hc =>
    isQuote_eq_false_of_isBlank (List.all_eq_true.1 List.all_takeWhile c hc)
  have hstart : Closed (Text.trimStart cs) := by
    unfold Closed at *
    rwa [← hsplit, QuoteState.run_append, hblanks.run] at hcs
  have hsame : SameLiterals (Text.trim cs) (Text.trimStart cs) :=
    .dropEndWhile (fun _ => isQuote_eq_false_of_isBlank) hstart
  refine ⟨hsame.left, hcs, ?_⟩
  calc literals (Text.trim cs) = literals (Text.trimStart cs) := hsame.same
    _ = literals (cs.takeWhile Text.isBlank ++ Text.trimStart cs) := by
      rw [literals_append hblanks.closed, hblanks.literals, List.nil_append]
    _ = literals cs := by rw [hsplit]

/-! ### Operators -/

/-- `out` holds what is written so far, last character first. -/
theorem literals_writeOperatorsFrom (st : QuoteState) (skipping : Bool) (seen out cs : List Char)
    (hout : QuoteState.outside.run out.reverse = st) :
    literals (writeOperatorsFrom st skipping seen out cs) = literals (out.reverse ++ cs) := by
  induction cs generalizing st skipping seen out with
  | nil => simp [writeOperatorsFrom]
  | cons c cs ih =>
      -- Copying a character keeps the state in step, whatever it is.
      have hcopy : literals (writeOperatorsFrom (st.step c) false (c :: seen) (c :: out) cs) =
          literals (out.reverse ++ c :: cs) := by
        rw [ih _ _ _ _ (by simp [hout])]
        simp
      rw [writeOperatorsFrom.eq_def]
      dsimp only
      split
      · exact hcopy
      · rename_i hst
        obtain rfl : st = .outside := not_not.1 hst
        have hself : SameLiterals out.reverse out.reverse := ⟨hout, hout, rfl⟩
        -- Outside literals, other text can be written for a character that is no quote.
        have hwrite : ∀ (skipping : Bool) {text : List Char} (hc : isQuote c = false),
            SameLiterals text.reverse out.reverse →
            literals (writeOperatorsFrom .outside skipping (c :: seen) text cs) =
              literals (out.reverse ++ c :: cs) := by
          intro skipping text hc htext
          rw [ih _ _ _ _ htext.left, htext.append, literals_append htext.right,
            literals_append htext.right, literals_cons hc]
        split
        · rename_i hblank
          exact hwrite true (isQuote_eq_false_of_isBlank hblank.2) hself
        · split
          · rename_i hjoins
            have hdropped : SameLiterals (out.dropWhile Text.isBlank).reverse out.reverse := by
              simpa [Text.dropEndWhile] using
                SameLiterals.dropEndWhile (fun _ => isQuote_eq_false_of_isBlank) hout
            have hplus : Unquoted [' ', '+', ' '] := by decide
            refine hwrite true (by rw [hjoins.1]; rfl) ?_
            simpa using hdropped.append_unquoted hplus
          · split
            · rename_i hequals
              have hone : Unquoted ['='] := by decide
              have htwo : Unquoted ['=', '='] := by decide
              refine hwrite false (by rw [hequals]; rfl) ?_
              split
              · simpa using hself.append_unquoted hone
              · simpa using hself.append_unquoted htwo
            · split
              · rename_i hless
                have hnot : Unquoted ['!'] := by decide
                refine hwrite false (by rw [hless.1]; rfl) ?_
                simpa using hself.append_unquoted hnot
              · split
                · rename_i hgreater
                  have hequals : Unquoted ['='] := by decide
                  refine hwrite false (by rw [hgreater.1]; rfl) ?_
                  simpa using hself.append_unquoted hequals
                · exact hcopy

theorem literals_writeOperators (cs : List Char) : literals (writeOperators cs) = literals cs :=
  literals_writeOperatorsFrom .outside false [] [] cs rfl

/-! ### Calls -/

theorem splitClose_eq_some {depth : Nat} {st : QuoteState} {cs inner rest : List Char}
    (h : splitClose depth st cs = some (inner, rest)) :
    cs = inner ++ ')' :: rest ∧ st.run inner = .outside := by
  induction cs generalizing depth st inner with
  | nil => simp [splitClose] at h
  | cons c cs ih =>
      have hkeep : ∀ {depth : Nat} {next : QuoteState}, st.step c = next →
          keep [c] (splitClose depth next cs) = some (inner, rest) →
          c :: cs = inner ++ ')' :: rest ∧ st.run inner = .outside := by
        intro depth next hstep h
        obtain ⟨⟨before, after⟩, hfound, hpair⟩ := Option.map_eq_some_iff.1 h
        obtain ⟨rfl, rfl⟩ := Prod.mk.inj hpair
        obtain ⟨hcs, hrun⟩ := ih hfound
        exact ⟨by rw [hcs]; rfl, by simpa [hstep] using hrun⟩
      by_cases hleft : st = .outside ∧ c = '('
      · obtain ⟨rfl, rfl⟩ := hleft
        rw [splitClose_left] at h
        exact hkeep rfl h
      · by_cases hright : st = .outside ∧ c = ')'
        · obtain ⟨rfl, rfl⟩ := hright
          obtain _ | _ | depth := depth
          · simp [splitClose] at h
          · rw [splitClose_last] at h
            cases h
            exact ⟨rfl, rfl⟩
          · rw [splitClose_right] at h
            exact hkeep rfl h
        · have hchar : st = .outside → c ≠ '(' ∧ c ≠ ')' := fun hst =>
            ⟨fun hc => hleft ⟨hst, hc⟩, fun hc => hright ⟨hst, hc⟩⟩
          rw [splitClose_char hchar] at h
          exact hkeep rfl h

theorem splitAtCall_eq_some {keyword : List Char} {st : QuoteState} {before : Option Char}
    {cs head tail : List Char} (h : splitAtCall keyword st before cs = some (head, tail)) :
    ∃ word, cs = head ++ (word ++ '(' :: tail) ∧ st.run head = .outside ∧
      word.map Char.toUpper = keyword := by
  induction cs generalizing st before head with
  | nil => simp [splitAtCall] at h
  | cons c cs ih =>
      rw [splitAtCall] at h
      split at h
      · rename_i hcall
        obtain ⟨rfl, hstarts⟩ := hcall
        cases h
        simp only [startsCall, Bool.and_eq_true, beq_iff_eq] at hstarts
        obtain ⟨⟨-, hword⟩, hparen⟩ := hstarts
        obtain ⟨hlt, hparen⟩ := List.getElem?_eq_some_iff.1 hparen
        refine ⟨(c :: cs).take keyword.length, ?_, rfl, hword⟩
        rw [← hparen, ← List.drop_eq_getElem_cons hlt, List.take_append_drop]
        rfl
      · obtain ⟨⟨front, back⟩, hfound, hpair⟩ := Option.map_eq_some_iff.1 h
        obtain ⟨rfl, rfl⟩ := Prod.mk.inj hpair
        obtain ⟨word, hcs, hrun, hword⟩ := ih hfound
        exact ⟨word, by rw [hcs]; rfl, hrun, hword⟩

theorem pieces_eq_cons (depth : Int) {st : QuoteState} {cs : List Char}
    (h : st.run cs = .outside) :
    ∃ first rest, pieces depth st cs = first :: rest ∧ st.run first = .outside ∧
      (∀ piece ∈ rest, Closed piece) ∧ first ++ rest.flatMap (',' :: ·) = cs := by
  induction cs generalizing depth st with
  | nil => exact ⟨[], [], rfl, h, nofun, rfl⟩
  | cons c cs ih =>
      rw [pieces]
      split
      · rename_i hcut
        obtain ⟨rfl, rfl, -⟩ := hcut
        have hrun : QuoteState.outside.run cs = .outside := h
        obtain ⟨first, rest, hpieces, hfirst, hrest, hcs⟩ := ih depth hrun
        refine ⟨[], first :: rest, by rw [hpieces], rfl, ?_, ?_⟩
        · exact List.forall_mem_cons.2 ⟨hfirst, hrest⟩
        · rw [List.flatMap_cons, List.nil_append, List.cons_append, hcs]
      · dsimp only
        generalize (if st = .outside ∧ c = '(' then depth + 1
          else if st = .outside ∧ c = ')' then depth - 1 else depth) = depth
        obtain ⟨first, rest, hpieces, hfirst, hrest, hcs⟩ := ih depth h
        exact ⟨c :: first, rest, by rw [hpieces]; rfl, hfirst, hrest, by rw [List.cons_append, hcs]⟩

theorem argumentsOf_spec {cs : List Char} (h : Closed cs) :
    (∀ argument ∈ argumentsOf cs, Closed argument) ∧
      (argumentsOf cs).flatMap literals = literals cs := by
  obtain ⟨first, rest, hpieces, hfirst, hrest, hcs⟩ := pieces_eq_cons 0 h
  have hclosed : ∀ piece ∈ pieces 0 .outside cs, Closed piece := by
    rw [hpieces]
    exact List.forall_mem_cons.2 ⟨hfirst, hrest⟩
  have hcommas : ∀ ps : List (List Char), (∀ piece ∈ ps, Closed piece) →
      literals (ps.flatMap (',' :: ·)) = ps.flatMap literals := by
    intro ps hps
    induction ps with
    | nil => rfl
    | cons piece ps ih =>
        obtain ⟨hpiece, hps⟩ := List.forall_mem_cons.1 hps
        rw [List.flatMap_cons, List.flatMap_cons, List.cons_append, literals_cons rfl,
          literals_append hpiece, ih hps]
  have hall : (pieces 0 .outside cs).flatMap literals = literals cs := by
    rw [hpieces, List.flatMap_cons, ← hcommas rest hrest, ← literals_append hfirst, hcs]
  unfold argumentsOf
  dsimp only
  split
  · rename_i hlast
    refine ⟨fun argument ha => hclosed argument (List.dropLast_subset _ ha), ?_⟩
    have hsplit : (pieces 0 .outside cs).dropLast ++ [[]] = pieces 0 .outside cs :=
      List.dropLast_append_getLast? [] hlast
    rw [← hall, ← hsplit]
    simp
  · exact ⟨hclosed, hall⟩

theorem leftmostCall?_eq_some {keyword cs head tail : List Char} {arguments : List (List Char)}
    (hkeyword : Unquoted keyword) (h : leftmostCall? keyword cs = some (head, arguments, tail)) :
    ∃ word inner, cs = head ++ (word ++ '(' :: (inner ++ ')' :: tail)) ∧ Closed head ∧
      Unquoted word ∧ Closed inner ∧ arguments = argumentsOf inner := by
  simp only [leftmostCall?, Option.bind_eq_bind, Option.bind_eq_some_iff] at h
  obtain ⟨⟨front, back⟩, hcall, ⟨inner, rest⟩, hclose, hresult⟩ := h
  cases hresult
  obtain ⟨word, hcs, hhead, hword⟩ := splitAtCall_eq_some hcall
  obtain ⟨hback, hinner⟩ := splitClose_eq_some hclose
  obtain rfl : back = inner ++ ')' :: rest := hback
  refine ⟨word, inner, hcs, hhead, ?_, hinner, rfl⟩
  intro c hc
  cases hquote : isQuote c with
  | false => rfl
  | true =>
      have hmem : c.toUpper ∈ keyword := hword ▸ List.mem_map_of_mem hc
      obtain rfl | rfl : c = '"' ∨ c = '\'' := by simpa [isQuote] using hquote
      all_goals exact absurd (hkeyword _ hmem) (by decide)

/-! ### Statements -/

/-- From closed arguments the form makes a closed text with their literals, in any order. -/
def KeepsLiterals (form : List (List Char) → Option (List Char)) : Prop :=
  ∀ arguments text, (∀ argument ∈ arguments, Closed argument) → form arguments = some text →
    Closed text ∧ (literals text).Perm (arguments.flatMap literals)

theorem keepsLiterals_ifForm : KeepsLiterals ifForm := by
  intro arguments text hclosed h
  unfold ifForm at h
  split at h
  next condition yes no =>
    cases h
    have hif : Unquoted " if ".toList := by decide
    have helse : Unquoted " else ".toList := by decide
    have hcondition := hclosed condition (by simp)
    have hyes := hclosed yes (by simp)
    have hno := hclosed no (by simp)
    have hfront := (hyes.append hif.closed).append hcondition
    refine ⟨(hfront.append helse.closed).append hno, ?_⟩
    rw [literals_append (hfront.append helse.closed), literals_append hfront,
      literals_append (hyes.append hif.closed), literals_append hyes, hif.literals,
      helse.literals]
    simpa using List.perm_append_comm_assoc _ _ _
  next => cases h

theorem literals_intercalate {separator : List Char} (hseparator : Unquoted separator)
    {arguments : List (List Char)} (hclosed : ∀ argument ∈ arguments, Closed argument) :
    Closed (separator.intercalate arguments) ∧
      literals (separator.intercalate arguments) = arguments.flatMap literals := by
  induction arguments with
  | nil => exact ⟨rfl, rfl⟩
  | cons argument arguments ih =>
      obtain ⟨hargument, hrest⟩ := List.forall_mem_cons.1 hclosed
      obtain ⟨htail, hliterals⟩ := ih hrest
      cases arguments with
      | nil => simpa using hargument
      | cons next arguments =>
          rw [List.intercalate_cons_cons, List.append_assoc]
          refine ⟨hargument.append (hseparator.closed.append htail), ?_⟩
          rw [literals_append hargument, literals_append hseparator.closed, hseparator.literals,
            hliterals, List.nil_append]
          exact List.flatMap_cons.symm

theorem keepsLiterals_chainForm {operator : List Char} (h : Unquoted operator) :
    KeepsLiterals (chainForm operator) := by
  intro arguments text hclosed htext
  unfold chainForm at htext
  split at htext
  · cases htext
  · cases htext
    obtain ⟨htext, hliterals⟩ := literals_intercalate h hclosed
    exact ⟨htext, .of_eq hliterals⟩

theorem literals_call {head word inner : List Char} (hhead : Closed head) (hword : Unquoted word)
    (hinner : Closed inner) (tail : List Char) :
    literals (head ++ (word ++ '(' :: (inner ++ ')' :: tail))) =
      literals head ++ (literals inner ++ literals tail) := by
  rw [literals_append hhead, literals_append hword.closed, hword.literals, List.nil_append,
    literals_cons rfl, literals_append hinner, literals_cons rfl]

theorem perm_literals_writeCalls {keyword : List Char} (hkeyword : Unquoted keyword)
    {form : List (List Char) → Option (List Char)} (hform : KeepsLiterals form) (fuel : Nat)
    (cs : List Char) : (literals (writeCalls keyword form fuel cs)).Perm (literals cs) := by
  induction fuel generalizing cs with
  | zero => exact .refl _
  | succ fuel ih =>
      rw [writeCalls]
      split
      · exact .refl _
      next head arguments tail hcall =>
        split
        · exact .refl _
        next text htext =>
          refine (ih _).trans ?_
          obtain ⟨word, inner, rfl, hhead, hword, hinner, rfl⟩ :=
            leftmostCall?_eq_some hkeyword hcall
          obtain ⟨hclosed, hliterals⟩ := argumentsOf_spec hinner
          have htrim : ∀ argument ∈ argumentsOf inner, SameLiterals (Text.trim argument) argument :=
            fun argument ha => .trim (hclosed argument ha)
          have htrimmed : ∀ argument ∈ (argumentsOf inner).map Text.trim, Closed argument := by
            simpa using fun argument ha => (htrim argument ha).left
          have hsame : ((argumentsOf inner).map Text.trim).flatMap literals = literals inner := by
            rw [List.flatMap_map, ← hliterals]
            exact List.flatMap_congr fun argument ha => (htrim argument ha).same
          obtain ⟨htextClosed, hperm⟩ := hform _ text htrimmed htext
          rw [hsame] at hperm
          have hwritten : literals (head ++ '(' :: text ++ ')' :: tail) =
              literals head ++ (literals text ++ literals tail) := by
            have hnothing : Unquoted [] := nofun
            simpa using literals_call hhead hnothing htextClosed tail
          rw [hwritten, literals_call hhead hword hinner]
          exact (hperm.append_right _).append_left _

theorem perm_literals_writeStatements (cs : List Char) :
    (literals (writeStatements cs)).Perm (literals cs) := by
  rw [writeStatements, literals_writeOperators]
  have hchoices : (literals (writeChoices cs)).Perm (literals cs) :=
    perm_literals_writeCalls (by decide) keepsLiterals_ifForm _ cs
  have hconjunctions : ∀ cs, (literals (writeConjunctions cs)).Perm (literals cs) := fun cs =>
    perm_literals_writeCalls (by decide) (keepsLiterals_chainForm (by decide)) _ cs
  have hdisjunctions : ∀ cs, (literals (writeDisjunctions cs)).Perm (literals cs) := fun cs =>
    perm_literals_writeCalls (by decide) (keepsLiterals_chainForm (by decide)) _ cs
  exact ((hdisjunctions _).trans (hconjunctions _)).trans hchoices

/-- In the script over columns the literals of a formula stand as they were, in their order, among
those that the references add. In the script of a row they are all there as well. -/
theorem literals_script (body : String) :
    (∀ schema, (literals body.toList).Sublist
      (literals (columnScript .standard schema ("=" ++ body)).toList)) ∧
    ∀ functions row, (literals body.toList).Subperm
      (literals (rowScript functions row ("=" ++ body)).toList) := by
  have hformula : ("=" ++ body).toList = '=' :: body.toList := by simp
  constructor
  · intro schema
    rw [columnScript, String.toList_ofList, hformula, script, bodyScript, literals_writeOperators]
    exact ((sublist_literals_writeGrowth schema _).trans (sublist_literals_resolve _ _)).trans
      (sublist_literals_apply _)
  · intro functions row
    rw [rowScript, String.toList_ofList, hformula, script, bodyScript]
    exact (perm_literals_writeStatements _).symm.subperm.trans
      (sublist_literals_resolve (.row row) _).subperm

end SheetBoard.Formula
