import SheetBoard.Formula.Script
import SheetBoard.Proofs.Formula.Quoting
import SheetBoard.Proofs.Number.Numeral

/-! Texts that differ only in what some of their quoted texts hold. Two rows with the same cells up
to the contents of texts give such scripts, since every step that resolves references keeps the two
scripts of a formula alike. -/

namespace SheetBoard

/-- The same cell, or two texts. -/
def Cell.Alike (c d : Cell) : Prop := c = d ∨ ∃ s t, c = .text s ∧ d = .text t

/-- Two rows of one schema that differ at most in what their text cells hold. -/
structure Row.Alike (r s : Row) : Prop where
  schema : r.schema = s.schema
  cells : ∀ i : Nat, Option.Rel Cell.Alike r.cells[i]? s.cells[i]?

theorem Row.Alike.get? {r s : Row} (h : r.Alike s) (name : String) :
    Option.Rel Cell.Alike (r.get? name) (s.get? name) := by
  unfold Row.get?
  rw [h.schema]
  cases s.schema.indexOf? name with
  | none => exact .none
  | some i => exact h.cells i

end SheetBoard

namespace SheetBoard.Formula

/-- Scanned from `st` on, the two texts are the same except for the contents of quoted texts that
both have in the same places. -/
inductive Alike : QuoteState → List Char → List Char → Prop where
  | nil (st) : Alike st [] []
  | cons {st a b} (c) : Alike (st.step c) a b → Alike st (c :: a) (c :: b)
  | quoted {a b} (s t) : Alike .outside a b → Alike .outside (quote s ++ a) (quote t ++ b)

namespace Alike

theorem refl (st : QuoteState) (cs : List Char) : Alike st cs cs := by
  induction cs generalizing st with
  | nil => exact .nil st
  | cons c cs ih => exact .cons c (ih _)

theorem symm {st : QuoteState} {a b : List Char} (h : Alike st a b) : Alike st b a := by
  induction h with
  | nil st => exact .nil st
  | cons c _ ih => exact .cons c ih
  | quoted s t _ ih => exact .quoted t s ih

theorem append {st : QuoteState} {a b c d : List Char} (h : Alike st a b)
    (htail : Alike (st.run a) c d) : Alike st (a ++ c) (b ++ d) := by
  induction h with
  | nil st => exact htail
  | cons x _ ih => exact .cons x (ih htail)
  | quoted s t _ ih =>
      rw [List.append_assoc, List.append_assoc]
      refine .quoted s t (ih ?_)
      simpa using htail

end Alike

/-- Alike, and no literal is left open: one text can stand for the other outside literals. -/
structure Exchangeable (a b : List Char) : Prop where
  alike : Alike .outside a b
  closed : QuoteState.outside.run a = .outside

namespace Exchangeable

theorem nil : Exchangeable [] [] := ⟨.nil _, rfl⟩

theorem append {a b c d : List Char} (h : Exchangeable a b) (htail : Exchangeable c d) :
    Exchangeable (a ++ c) (b ++ d) := by
  refine ⟨h.alike.append ?_, ?_⟩
  · rw [h.closed]
    exact htail.alike
  · rw [QuoteState.run_append, h.closed, htail.closed]

theorem quoted (s t : List Char) : Exchangeable (quote s) (quote t) := by
  refine ⟨?_, run_quote s⟩
  simpa using Alike.quoted s t (.nil .outside)

theorem of_unquoted {a : List Char} (h : Unquoted a) : Exchangeable a a :=
  ⟨.refl _ a, h.run⟩

end Exchangeable

/-! ### Editing outside literals -/

/-- What `editUnquoted` makes of a text that was already cut. -/
def editStretches (edit : List Char → List Char) (pieces : List Stretch) : List Char :=
  pieces.flatMap fun
    | .plain text => edit text
    | .literal text => text

@[simp] theorem editStretches_append (edit : List Char → List Char) (ps qs : List Stretch) :
    editStretches edit (ps ++ qs) = editStretches edit ps ++ editStretches edit qs :=
  List.flatMap_append

@[simp] theorem editStretches_literal (edit : List Char → List Char) (text : List Char)
    (ps : List Stretch) :
    editStretches edit (.literal text :: ps) = text ++ editStretches edit ps :=
  List.flatMap_cons

/-- `held` is what was scanned of the stretch that `st` stands in, last character first. -/
structure Held (st : QuoteState) (held : List Char) : Prop where
  plain : st = .outside → Unquoted held.reverse
  run : QuoteState.outside.run held.reverse = st

theorem Held.nil : Held .outside [] := ⟨fun _ => by simp [Unquoted], rfl⟩

theorem Held.cons_plain {held : List Char} (h : Held .outside held) {c : Char}
    (hc : isQuote c = false) : Held .outside (c :: held) := by
  have hplain : Unquoted (c :: held).reverse := by
    rw [List.reverse_cons]
    exact (h.plain rfl).append (by simpa [Unquoted] using hc)
  exact ⟨fun _ => hplain, hplain.run⟩

theorem Held.cons_open {st : QuoteState} {held : List Char} (h : Held st held) {c : Char}
    (hopen : st.step c ≠ .outside) : Held (st.step c) (c :: held) := by
  refine ⟨fun hout => absurd hout hopen, ?_⟩
  simp [h.run]

section

variable {edit edit' : List Char → List Char}
  (hedit : ∀ cs, Unquoted cs → Exchangeable (edit cs) (edit' cs))

include hedit

theorem editStretches_closeStretch {held : List Char} (hheld : Held .outside held) :
    Exchangeable (editStretches edit (closeStretch .outside held))
      (editStretches edit' (closeStretch .outside held)) := by
  unfold closeStretch
  split
  · exact .nil
  · simpa [editStretches] using hedit _ (hheld.plain rfl)

theorem editStretches_alike {st : QuoteState} {a b : List Char} (h : Alike st a b)
    (held : List Char) (hheld : Held st held) :
    Alike .outside (editStretches edit (stretchesFrom st held a))
      (editStretches edit' (stretchesFrom st held b)) := by
  induction h generalizing held with
  | nil st =>
      simp only [stretchesFrom]
      by_cases hst : st = .outside
      · subst hst
        exact (editStretches_closeStretch hedit hheld).alike
      · have hsame : ∀ f, editStretches f (closeStretch st held) = held.reverse := by
          intro f
          cases held <;> simp [editStretches, closeStretch, hst]
        rw [hsame, hsame]
        exact .refl _ _
  | @cons st a b c _ ih =>
      by_cases hst : st = .outside
      · subst hst
        by_cases hc : isQuote c = true
        · -- A literal opens here, and what was held is edited before it.
          have hstep : QuoteState.outside.step c = .inside c := by simp [QuoteState.step, hc]
          rw [hstep] at ih
          have htail := ih [c] ⟨by simp, by simp [hstep]⟩
          have hhead := editStretches_closeStretch hedit hheld
          simp only [stretchesFrom, hstep, editStretches_append]
          refine hhead.alike.append ?_
          rwa [hhead.closed]
        · have hplain : isQuote c = false := by simpa using hc
          have hstep := QuoteState.step_outside hplain
          rw [hstep] at ih
          simp only [stretchesFrom, hstep]
          exact ih (c :: held) (hheld.cons_plain hplain)
      · by_cases hclose : st.step c = .outside
        · rw [hclose] at ih
          have hrun : QuoteState.outside.run (c :: held).reverse = .outside := by
            simp [hheld.run, hclose]
          have hcut (rest : List Char) : stretchesFrom st held (c :: rest) =
              .literal (c :: held).reverse :: stretchesFrom .outside [] rest := by
            simp [stretchesFrom, hclose]
          rw [hcut, hcut, editStretches_literal, editStretches_literal]
          refine (Alike.refl _ _).append ?_
          rw [hrun]
          exact ih [] .nil
        · have hcut (rest : List Char) : stretchesFrom st held (c :: rest) =
              stretchesFrom (st.step c) (c :: held) rest := by
            simp [stretchesFrom, hst, hclose]
          rw [hcut, hcut]
          exact ih (c :: held) (hheld.cons_open hclose)
  | quoted s t _ ih =>
      have hhead := (editStretches_closeStretch hedit hheld).append (.quoted s t)
      rw [stretchesFrom_quote, stretchesFrom_quote]
      simp only [editStretches_append, editStretches_literal, ← List.append_assoc]
      refine hhead.alike.append ?_
      rw [hhead.closed]
      exact ih [] .nil

theorem editUnquoted_alike {a b : List Char} (h : Alike .outside a b) :
    Alike .outside (editUnquoted edit a) (editUnquoted edit' b) :=
  editStretches_alike hedit h [] .nil

end

/-! ### Replacing what a pattern finds -/

theorem Unquoted.tail {c : Char} {cs : List Char} (h : Unquoted (c :: cs)) : Unquoted cs :=
  fun d hd => h d (by simp [hd])

theorem Unquoted.take {cs : List Char} (h : Unquoted cs) (n : Nat) : Unquoted (cs.take n) :=
  fun c hc => h c (List.mem_of_mem_take hc)

/-- Two edits of one place: of the same length, with texts that can stand for each other. -/
def Edit.Alike (a b : Edit) : Prop := a.size = b.size ∧ Exchangeable a.text b.text

theorem replaceFrom_exchangeable {edit? edit?' : Option Char → List Char → Option Edit}
    (hedit : ∀ before cs, Unquoted cs → Option.Rel Edit.Alike (edit? before cs) (edit?' before cs))
    {cs : List Char} (hcs : Unquoted cs) (skip : Nat) (before : Option Char) :
    Exchangeable (replaceFrom edit? skip before cs) (replaceFrom edit?' skip before cs) := by
  induction cs generalizing skip before with
  | nil => exact .nil
  | cons c cs ih =>
      cases skip with
      | succ skip => simpa only [replaceFrom] using ih hcs.tail skip (some c)
      | zero =>
          have hhead : Unquoted [c] := by simpa [Unquoted] using hcs c (by simp)
          have hrel := hedit before (c :: cs) hcs
          simp only [replaceFrom]
          revert hrel
          generalize edit? before (c :: cs) = x
          generalize edit?' before (c :: cs) = y
          rintro (⟨hsize, htext⟩ | _)
          · simp only [hsize]
            exact htext.append (ih hcs.tail _ (some c))
          · exact (Exchangeable.of_unquoted hhead).append (ih hcs.tail 0 (some c))

theorem exchangeable_getD {x y : Option (List Char)} (h : Option.Rel Exchangeable x y)
    {kept : List Char} (hkept : Unquoted kept) : Exchangeable (x.getD kept) (y.getD kept) := by
  cases h with
  | some hxy => exact hxy
  | none => exact .of_unquoted hkept

theorem replaceAll_exchangeable {α : Type} {find : Pattern α}
    {form form' : Option Char → α → List Char → Option (List Char)}
    (hform : ∀ before found rest,
      Option.Rel Exchangeable (form before found rest) (form' before found rest))
    {cs : List Char} (hcs : Unquoted cs) :
    Exchangeable (replaceAll find form cs) (replaceAll find form' cs) := by
  apply replaceFrom_exchangeable _ hcs
  intro before cs hcs
  cases hfind : find before cs with
  | none => exact .none
  | some pair =>
      obtain ⟨found, rest⟩ := pair
      exact .some ⟨rfl, exchangeable_getD (hform before found rest) (hcs.take _)⟩

theorem replaceReferences_exchangeable {α : Type} {find : Pattern α}
    {form form' : Option Char → α → List Char → Option (List Char)}
    (hform : ∀ before found rest,
      Option.Rel Exchangeable (form before found rest) (form' before found rest))
    {cs : List Char} (hcs : Unquoted cs) :
    Exchangeable (replaceReferences find form cs) (replaceReferences find form' cs) := by
  apply replaceAll_exchangeable _ hcs
  intro before found rest
  split
  · exact .none
  · exact hform before found rest

/-! ### The literal of a cell -/

theorem isQuote_eq_false_of_isDigit {c : Char} (hc : Number.isDigit c = true) :
    isQuote c = false := by
  simp only [isQuote, Bool.or_eq_false_iff, decide_eq_false_iff_not]
  constructor
  · rintro rfl
    cases hc
  · rintro rfl
    cases hc

theorem unquoted_of_isDigit {cs : List Char} (h : ∀ c ∈ cs, Number.isDigit c = true) :
    Unquoted cs :=
  fun c hc => isQuote_eq_false_of_isDigit (h c hc)

theorem unquoted_numeral (n : Number.Numeral) : Unquoted n.text := by
  refine (unquoted_of_isDigit n.whole_digits).append ?_
  split
  · simp [Unquoted]
  · have hpoint : Unquoted ['.'] := by simp [Unquoted, isQuote]
    exact hpoint.append (unquoted_of_isDigit n.fraction_digits)

theorem unquoted_signed (negative : Bool) {cs : List Char} (h : Unquoted cs) :
    Unquoted (Number.signed negative cs) := by
  have hminus : Unquoted ['-'] := by simp [Unquoted, isQuote]
  cases negative with
  | false => exact h
  | true => exact hminus.append h

theorem unquoted_display (x : Float) : Unquoted (Number.display x).toList := by
  cases hx : Number.exact x with
  | nan => simp [Number.display, hx, Number.plain, Number.write, Unquoted, isQuote]
  | infinite negative =>
      have hinf : Unquoted ['i', 'n', 'f'] := by simp [Unquoted, isQuote]
      simpa [Number.display, hx, Number.plain, Number.write] using unquoted_signed negative hinf
  | finite negative m q =>
      obtain ⟨minus, n, htext⟩ := Number.exists_numeral_of_finite hx
      rw [htext]
      exact unquoted_signed minus (unquoted_numeral n)

theorem cellLiteral_exchangeable_self (c : Cell) :
    Exchangeable (cellLiteral c) (cellLiteral c) := by
  have hzero : Unquoted ['0'] := by simp [Unquoted, isQuote]
  cases c with
  | empty => exact .of_unquoted hzero
  | boolean b =>
      have hword : Unquoted (cellLiteral (.boolean b)) := by
        cases b <;> simp [cellLiteral, Cell.isMissing, Unquoted, isQuote]
      exact .of_unquoted hword
  | number x =>
      unfold cellLiteral
      split
      · exact .of_unquoted hzero
      · exact .of_unquoted (unquoted_display x)
  | text s => exact .quoted _ _

theorem cellLiteral_exchangeable {c d : Cell} (h : c.Alike d) :
    Exchangeable (cellLiteral c) (cellLiteral d) := by
  rcases h with rfl | ⟨s, t, rfl, rfl⟩
  · exact cellLiteral_exchangeable_self c
  · exact .quoted _ _

theorem exchangeable_cellLiteral_getD {x y : Option Cell} (h : Option.Rel Cell.Alike x y)
    (missing : List Char) :
    Exchangeable ((x.map cellLiteral).getD (quote missing))
      ((y.map cellLiteral).getD (quote missing)) := by
  cases h with
  | some hcell => exact cellLiteral_exchangeable hcell
  | none => exact .quoted missing missing

/-! ### Resolving references for two rows -/

theorem column_row (r : Row) (name : String) (start : Option (List Char)) :
    (Scope.row r).column name start = ((r.get? name).map cellLiteral).getD (quote name.toList) := by
  unfold Scope.column
  dsimp only
  cases r.get? name with
  | none => rfl
  | some cell => rfl

theorem rel_ite_none {α : Type} {R : α → α → Prop} (p : Prop) [Decidable p] {x y : Option α}
    (h : Option.Rel R x y) : Option.Rel R (if p then none else x) (if p then none else y) := by
  split
  · exact .none
  · exact h

section

variable {r s : Row} (h : r.Alike s)

include h

theorem column_exchangeable (name : String) (start : Option (List Char)) :
    Exchangeable ((Scope.row r).column name start) ((Scope.row s).column name start) := by
  rw [column_row, column_row]
  exact exchangeable_cellLiteral_getD (h.get? name) name.toList

theorem resolveNameRanges_exchangeable {cs : List Char} (hcs : Unquoted cs) :
    Exchangeable (resolveNameRanges (.row r) cs) (resolveNameRanges (.row s) cs) := by
  have hschema : (Scope.row r).schema = (Scope.row s).schema := h.schema
  unfold resolveNameRanges
  rw [hschema]
  apply replaceReferences_exchangeable _ hcs
  rintro before ⟨first, last⟩ rest
  exact rel_ite_none _ (rel_ite_none _ (.some (column_exchangeable h _ _)))

theorem resolveLetterRanges_exchangeable {cs : List Char} (hcs : Unquoted cs) :
    Exchangeable (resolveLetterRanges (.row r) cs) (resolveLetterRanges (.row s) cs) := by
  have hschema : (Scope.row r).schema = (Scope.row s).schema := h.schema
  unfold resolveLetterRanges
  rw [hschema]
  apply replaceReferences_exchangeable _ hcs
  rintro before ⟨first, last⟩ rest
  apply rel_ite_none
  cases columnByLetters? (Scope.row s).schema first.letters with
  | none => exact .some (.quoted _ _)
  | some name => exact .some (column_exchangeable h _ _)

theorem resolveCells_exchangeable {cs : List Char} (hcs : Unquoted cs) :
    Exchangeable (resolveCells (.row r) cs) (resolveCells (.row s) cs) := by
  have hschema : (Scope.row r).schema = (Scope.row s).schema := h.schema
  unfold resolveCells
  rw [hschema]
  apply replaceReferences_exchangeable _ hcs
  intro before reference rest
  apply rel_ite_none
  cases columnByLetters? (Scope.row s).schema reference.letters with
  | none => exact .some (.quoted _ _)
  | some name => exact .some (exchangeable_cellLiteral_getD (h.get? name) _)

theorem resolveNames_alike {a b : List Char} (hab : Alike .outside a b) :
    Alike .outside (resolveNames (.row r) a) (resolveNames (.row s) b) := by
  unfold resolveNames
  simp only [Scope.schema, h.schema]
  induction searchedNames s.schema generalizing a b with
  | nil => exact hab
  | cons name names ih =>
      refine ih (editUnquoted_alike ?_ hab)
      intro cs hcs
      exact replaceReferences_exchangeable (fun _ _ _ => .some (column_exchangeable h _ _)) hcs

theorem resolve_alike {a b : List Char} (hab : Alike .outside a b) :
    Alike .outside (resolve (.row r) a) (resolve (.row s) b) := by
  have hnames := editUnquoted_alike (fun _ => resolveNameRanges_exchangeable h) hab
  have hletters := editUnquoted_alike (fun _ => resolveLetterRanges_exchangeable h) hnames
  have hcells := editUnquoted_alike (fun _ => resolveCells_exchangeable h) hletters
  exact resolveNames_alike h hcells

/-- The scripts of a formula for two rows that are alike are alike. -/
theorem script_alike (functions : FunctionTable) (formula : List Char) :
    Alike .outside (script functions (.row r) formula) (script functions (.row s) formula) := by
  unfold script
  split
  · exact resolve_alike h (.refl _ _)
  · exact .refl _ _

end

end SheetBoard.Formula
