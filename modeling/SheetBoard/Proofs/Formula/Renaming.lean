import SheetBoard.Proofs.Formula.Operators
import SheetBoard.Proofs.Formula.Resolving

/-! Function names in pieces: calls take the names that the function table gives them, and nothing
else changes. -/

namespace SheetBoard.Formula

/-- The name of a call in scripts, or its own name if the table has none. -/
def FunctionTable.rename (table : FunctionTable) (name : List Char) : List Char :=
  ((table.get? (.ofList name)).map String.toList).getD name

def Piece.renamed (table : FunctionTable) : Piece → Piece
  | .callee name => .callee (table.rename name)
  | p => p

/-- What the table writes for a call, if it maps it. -/
def FunctionTable.form (table : FunctionTable) (before : Option Char) (name _rest : List Char) :
    Option (List Char) :=
  if before == some '.' then none
  else (table.get? (.ofList name)).map fun target => target.toList ++ ['(']

section

variable {table : FunctionTable} {ps : List Piece}

/-- Particles are words too, and may stand in front of a parenthesis. -/
theorem apply_textOf (hchain : ps.IsChain Piece.Adjacent) (hvalid : ∀ p ∈ ps, p.Valid)
    (hparticle : ∀ p, .mark (.particle p) ∉ ps) (hreference : ∀ r, .reference r ∉ ps) :
    table.apply (textOf ps) = textOf (ps.map (Piece.renamed table)) := by
  rw [List.map_eq_flatMap]
  refine editUnquoted_textOf hchain hvalid (fun p hp hliteral => ?_) (fun _ => rfl)
  have hword := wordPattern_callName
  have hpvalid := hvalid p hp
  cases p with
  | mark m =>
      intro before rest _ _
      have hplain : ∀ c ∈ m.text, isNameStart c = false := by
        cases m with
        | particle p => exact absurd hp (hparticle p)
        | operator op => cases op <;> decide
        | scriptOperator op => cases op <;> decide
        | _ => decide
      simpa [Piece.renamed, Piece.text] using hword.replaces_plain hplain
  | callee name =>
      intro before rest hbefore _
      have hclear := hbefore rfl
      have hfound : FunctionTable.callName before (name ++ ['('] ++ rest) = some (name, rest) := by
        simpa using callName_call hclear hpvalid rest
      have hpoint : (before == some '.') = false := hclear.beq_some (by decide)
      have hreplaced : Replaces (editOf FunctionTable.callName table.form) before (name ++ ['('])
          ((table.form before name rest).getD (name ++ ['('])) rest :=
        replaces_found (by simp) hfound
      have htext : textOf [(Piece.callee name).renamed table] =
          ((table.get? (.ofList name)).map fun target => target.toList ++ ['(']).getD
            (name ++ ['(']) := by
        simp only [Piece.renamed, FunctionTable.rename, textOf_cons, textOf_nil, Piece.text]
        cases table.get? (.ofList name) <;> simp
      simp only [FunctionTable.form, hpoint, Bool.false_eq_true, if_false] at hreplaced
      rw [htext]
      exact hreplaced
  | numeral digits => exact writesPiece_numeral hword hpvalid rfl
  | literal value => cases hliteral
  | truth capitals value =>
      intro before rest _ hrest
      have hname : IsName (Piece.truthText capitals value) := by
        cases capitals <;> cases value <;> decide
      have hnone : FunctionTable.callName before (Piece.truthText capitals value ++ rest) = none :=
        callName_eq_none hname (hrest rfl).word (hrest rfl).opensCall
      simpa [Piece.renamed, Piece.text] using hword.replaces_name hname hnone
  | reference r => exact absurd hp (hreference r)

end

/-! ### The standard table -/

theorem FunctionTable.standard_targets :
    ∀ entry ∈ standard.entries, IsMember entry.2.toList ∧ entry.2 ≠ "not" := by
  decide +kernel

theorem FunctionTable.target_of_get? {table : FunctionTable} {name target : String}
    (h : table.get? name = some target) : ∃ entry ∈ table.entries, entry.2 = target := by
  obtain ⟨front, back, hentries, -⟩ := List.lookup_eq_some_iff.1 h
  exact ⟨(upperName name, target), by simp [hentries], rfl⟩

theorem FunctionTable.isMember_rename_standard {name : List Char} (h : IsName name) :
    IsMember (standard.rename name) := by
  unfold rename
  cases hget : standard.get? (.ofList name) with
  | none => exact h.isMember
  | some target =>
      obtain ⟨entry, hentry, rfl⟩ := target_of_get? hget
      exact (standard_targets entry hentry).1

end SheetBoard.Formula
