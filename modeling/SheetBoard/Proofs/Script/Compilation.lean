import SheetBoard.Proofs.Formula.Growth
import SheetBoard.Proofs.Formula.Renaming
import SheetBoard.Proofs.Script.Reading

/-! Formulas are compiled correctly: the script of a written tree is read as the tree's expression,
with references and calls replaced by what they stand for. -/

namespace SheetBoard.Formula

theorem Tree.All.imp {reference reference' : Ref → Prop}
    {call call' : Identifier → List Tree → Prop} (hreference : ∀ r, reference r → reference' r)
    (hcall : ∀ name arguments, call name arguments → call' name arguments) {e : Tree}
    (h : e.All reference call) : e.All reference' call' := by
  induction e with
  | number n =>
      rw [All]
      trivial
  | text s =>
      rw [All]
      trivial
  | boolean b =>
      rw [All]
      trivial
  | reference r =>
      rw [All] at h ⊢
      exact hreference r h
  | negate e ih =>
      rw [All] at h ⊢
      exact ih h
  | binary op l r ihl ihr =>
      rw [All] at h ⊢
      exact ⟨ihl h.1, ihr h.2⟩
  | call name arguments ih =>
      rw [All] at h ⊢
      exact ⟨hcall name arguments h.1, fun a ha => ih a ha (h.2 a ha)⟩
  | paren e ih =>
      rw [All] at h ⊢
      exact ih h

/-! ### Operands, piece by piece -/

theorem IsOperand.flatMap {ps : List Piece} (h : IsOperand ps) {g : Piece → List Piece}
    (hstarts : ∀ p ∈ ps, p.starts = true → (g p).head?.any Piece.starts = true)
    (hends : ∀ p ∈ ps, p.ends = true → (g p).getLast?.any Piece.ends = true)
    (hchain : (ps.flatMap g).IsChain Piece.Adjacent) : IsOperand (ps.flatMap g) where
  starts := by
    cases ps with
    | nil => exact absurd rfl h.ne_nil
    | cons p ps =>
        rw [List.flatMap_cons]
        exact any_head?_append (hstarts p (by simp) (h.starts_of_mem rfl)) _
  ends := by
    rcases List.eq_nil_or_concat ps with rfl | ⟨front, p, rfl⟩
    · exact absurd rfl h.ne_nil
    · rw [List.concat_eq_append] at h hends ⊢
      rw [List.flatMap_append, List.flatMap_singleton]
      exact any_getLast?_append (hends p (by simp) (h.ends_of_mem (by simp))) _
  chain := hchain

/-- Each piece stays what it is to its neighbours. -/
structure KeepsRole (g : Piece → Piece) : Prop where
  starts : ∀ p, (g p).starts = p.starts
  ends : ∀ p, (g p).ends = p.ends
  opens : ∀ p, (g p).opens = p.opens
  follows : ∀ p, (g p).follows = p.follows
  right : g (.mark .right) = .mark .right
  sign : ∀ p q, g p = .mark (.operator .concat) → g q = .mark .negation →
    p = .mark (.operator .concat) ∧ q = .mark .negation

theorem KeepsRole.adjacent {g : Piece → Piece} (hg : KeepsRole g) {p q : Piece}
    (h : p.Adjacent q) : (g p).Adjacent (g q) := by
  cases hends : p.ends with
  | true => simpa [Piece.Adjacent, hg.ends, hends, hg.follows] using h
  | false =>
      simp only [Piece.Adjacent, hg.ends, hends, Bool.false_eq_true, if_false] at h ⊢
      refine ⟨?_, fun hp hq => ?_⟩
      · rcases h.1 with hstarts | ⟨hp, rfl⟩
        · exact .inl (by rw [hg.starts, hstarts])
        · exact .inr ⟨by rw [hg.opens, hp], hg.right⟩
      · obtain ⟨hconcat, hnegation⟩ := hg.sign p q hp hq
        exact h.2 hconcat hnegation

theorem IsOperand.map {ps : List Piece} (h : IsOperand ps) {g : Piece → Piece} (hg : KeepsRole g) :
    IsOperand (ps.map g) := by
  rw [List.map_eq_flatMap]
  refine h.flatMap (fun p _ hp => ?_) (fun p _ hp => ?_) ?_
  · simpa [hg.starts] using hp
  · simpa [hg.ends] using hp
  · rw [← List.map_eq_flatMap, List.isChain_map]
    exact h.chain.imp fun _ _ => hg.adjacent

/-- Resolving references keeps an operand one. -/
theorem Scope.Sound.isOperand_write {scope : Scope} (hscope : scope.Sound) {ps : List Piece}
    (h : IsOperand ps) (hsign : ∀ r, .mark (.operator .concat) ∈ ps →
      (scope.pieces r).head? ≠ some (.mark .negation)) :
    IsOperand (ps.flatMap (scope.write fun _ => true)) := by
  refine h.flatMap (fun p _ hp => ?_) (fun p _ hp => ?_) (hscope.chain_write _ h.chain hsign)
  · rcases scope.write_cases (fun _ => true) p with hwrite | ⟨r, -, hwrite⟩
    · simpa [hwrite] using hp
    · rw [hwrite]
      exact (hscope.operand r).starts
  · rcases scope.write_cases (fun _ => true) p with hwrite | ⟨r, -, hwrite⟩
    · simpa [hwrite] using hp
    · rw [hwrite]
      exact (hscope.operand r).ends

theorem Piece.inScript_ne_operator (p : Piece) (op : Operator) :
    p.inScript ≠ .mark (.operator op) := by
  cases p with
  | mark m => cases m <;> simp [Piece.inScript]
  | _ => simp [Piece.inScript]

theorem keepsRole_inScript : KeepsRole Piece.inScript := by
  refine ⟨?_, ?_, ?_, ?_, rfl, fun p _ hp => absurd hp (p.inScript_ne_operator _)⟩
  all_goals
    intro p
    cases p with
    | mark m => cases m <;> rfl
    | _ => rfl

theorem Piece.renamed_eq_mark {table : FunctionTable} {p : Piece} {m : Mark}
    (h : p.renamed table = .mark m) : p = .mark m := by
  cases p with
  | callee name => cases h
  | _ => exact h

theorem Piece.renamed_eq_reference {table : FunctionTable} {p : Piece} {r : Ref}
    (h : p.renamed table = .reference r) : p = .reference r := by
  cases p with
  | callee name => cases h
  | _ => exact h

theorem keepsRole_renamed (table : FunctionTable) : KeepsRole (Piece.renamed table) := by
  refine ⟨?_, ?_, ?_, ?_, rfl,
    fun _ _ hp hq => ⟨Piece.renamed_eq_mark hp, Piece.renamed_eq_mark hq⟩⟩
  all_goals
    intro p
    cases p <;> rfl

theorem Piece.Valid.inScript {p : Piece} (h : p.Valid) : p.inScript.Valid := by
  cases p with
  | mark m => cases m <;> trivial
  | _ => exact h

theorem Piece.inScript_eq_reference {p : Piece} {r : Ref} (h : p.inScript = .reference r) :
    p = .reference r := by
  cases p with
  | mark m => cases m <;> cases h
  | _ => exact h

theorem Piece.isScript_inScript {p : Piece} (h : ∀ r, p ≠ .reference r) :
    p.inScript.isScript = true := by
  cases p with
  | mark m => cases m <;> rfl
  | reference r => exact absurd rfl (h r)
  | _ => rfl

theorem isScript_of_mem_cellPieces {c : Cell} {p : Piece} (h : p ∈ cellPieces c) :
    p.isScript = true := by
  revert p
  unfold cellPieces
  split
  · simp [Piece.isScript]
  · cases c with
    | number x =>
        dsimp only
        split <;> simp [Piece.isScript]
    | _ => simp [Piece.isScript]

theorem isScript_of_mem_fetchPieces {callee name : String} {row : Option Nat} {p : Piece}
    (h : p ∈ fetchPieces callee name row) : p.isScript = true := by
  revert p
  cases row <;> simp [fetchPieces, Piece.isScript]

/-- Resolved references hold nothing that is not part of scripts. -/
theorem Scope.isScript_of_mem_pieces {scope : Scope} {r : Ref} {p : Piece}
    (h : p ∈ scope.pieces r) : p.isScript = true := by
  have hcell : ∀ (c : Option Cell) (letters : List Char),
      p ∈ (c.map cellPieces).getD [.literal letters] → p.isScript = true := by
    intro c letters hp
    cases c with
    | none =>
        obtain rfl := List.mem_singleton.1 hp
        rfl
    | some c => exact isScript_of_mem_cellPieces hp
  cases scope with
  | row row => cases r <;> exact hcell _ _ h
  | columns schema => cases r <;> exact isScript_of_mem_fetchPieces h

theorem Scope.isScript_of_mem_write {scope : Scope} {p q : Piece}
    (h : q ∈ scope.write (fun _ => true) p.inScript) : q.isScript = true := by
  by_cases hp : ∃ r, p = .reference r
  · obtain ⟨r, rfl⟩ := hp
    have hpieces : q ∈ scope.pieces r := h
    exact isScript_of_mem_pieces hpieces
  · have hne : ∀ r, p ≠ .reference r := not_exists.1 hp
    rw [scope.write_of_ne _ fun r hr => hne r (Piece.inScript_eq_reference hr)] at h
    rw [List.mem_singleton.1 h]
    exact Piece.isScript_inScript hne

theorem Piece.Valid.legible_renamed {p : Piece} (h : p.Valid) : (p.renamed .standard).Legible := by
  cases p with
  | callee name => exact FunctionTable.isMember_rename_standard h
  | _ => exact h.legible

theorem Piece.Legible.inScript {p : Piece} (h : p.Legible) : p.inScript.Legible := by
  cases p with
  | mark m => cases m <;> trivial
  | _ => exact h

end SheetBoard.Formula

namespace SheetBoard.Script

open Formula

/-- A text in pieces is read as its tokens are. -/
theorem read_textOf {ps : List Piece} (hoperand : IsOperand ps) (hlegible : ∀ p ∈ ps, p.Legible)
    (hscript : ∀ p ∈ ps, p.isScript = true) {e : Expr}
    (h : Derives (ps.flatMap Piece.tokens) e) : read (textOf ps) = .ok e := by
  rw [read, hoperand.trim_textOf hlegible, tokens_textOf hoperand.chain hlegible hscript,
    readTokens_eq_ok_iff]
  have hwhole : Derivation .conditional (ps.flatMap Piece.tokens ++ []) (.expr e) [] :=
    h.conditional (by simp)
  simpa using hwhole

/-! ### In one row -/

theorem reads_cell (c : Cell) : Reads ((cellPieces c).flatMap Piece.tokens) (cellExpr c) := by
  have hnumeral : ∀ digits,
      Reads ([Piece.numeral digits].flatMap Piece.tokens) (numeralExpr digits) :=
    fun digits => .number _
  cases hmissing : c.isMissing with
  | true =>
      have hpieces : cellPieces c = [.numeral ['0']] := by simp [cellPieces, hmissing]
      have hexpr : cellExpr c = numeralExpr ['0'] := by simp [cellExpr, hmissing]
      rw [hpieces, hexpr]
      exact hnumeral _
  | false =>
      cases c with
      | empty => cases hmissing
      | boolean b => exact reads_truth false b
      | text s =>
          have hpieces : cellPieces (.text s) = [.literal s.toList] := by
            simp [cellPieces, hmissing]
          have hexpr : cellExpr (.text s) = .text s := by simp [cellExpr, hmissing]
          rw [hpieces, hexpr]
          simpa [Piece.tokens] using Reads.text s
      | number x =>
          by_cases hsign : ∃ digits, (Number.display x).toList = '-' :: digits
          · obtain ⟨digits, hdigits⟩ := hsign
            have hpieces : cellPieces (.number x) = [.mark .negation, .numeral digits] := by
              simp [cellPieces, hmissing, hdigits]
            have hexpr : cellExpr (.number x) = .unary .negate (numeralExpr digits) := by
              simp [cellExpr, hmissing, hdigits]
            rw [hpieces, hexpr]
            exact (hnumeral digits).sign
          · have hpieces : cellPieces (.number x) = [.numeral (Number.display x).toList] := by
              simp only [cellPieces, hmissing, Bool.false_eq_true, if_false]
              split
              · rename_i digits hdigits
                exact absurd ⟨digits, hdigits⟩ hsign
              · rfl
            have hexpr : cellExpr (.number x) = numeralExpr (Number.display x).toList := by
              simp only [cellExpr, hmissing, Bool.false_eq_true, if_false]
              split
              · rename_i digits hdigits
                exact absurd ⟨digits, hdigits⟩ hsign
              · rfl
            rw [hpieces, hexpr]
            exact hnumeral _

/-- A cell's literal is read as the cell's expression. -/
theorem read_cellLiteral {c : Cell} (h : ∀ x, c = .number x → Number.IsFinite x) :
    read (cellLiteral c) = .ok (cellExpr c) := by
  obtain ⟨hoperand, hvalid⟩ := cellPieces_operand h
  rw [← textOf_cellPieces]
  exact read_textOf hoperand (fun p hp => (hvalid p hp).legible)
    (fun _ => isScript_of_mem_cellPieces) (reads_cell c).derives

/-- A reference is read as the literal of the row's cell. -/
theorem reads_rowReference (row : Row) (r : Ref) :
    Reads (((Scope.row row).pieces r).flatMap Piece.tokens) (rowReference row r) := by
  have hcell : ∀ (c : Option Cell) (missing : String),
      Reads (((c.map cellPieces).getD [.literal missing.toList]).flatMap Piece.tokens)
        ((c.map cellExpr).getD (.text missing)) := by
    intro c missing
    cases c with
    | none => simpa [Piece.tokens] using Reads.text missing
    | some c => exact reads_cell c
  cases r with
  | cell letters n => simpa [Scope.pieces, rowReference] using hcell _ (.ofList letters.chars)
  | range letters first last =>
      simpa [Scope.pieces, rowReference] using hcell _ (.ofList letters.chars)
  | header name => simpa [Scope.pieces, rowReference] using hcell _ name

/-- The tokens of a piece in a row. -/
def rowTokens (row : Row) (p : Piece) : List Token :=
  ((Scope.row row).write (fun _ => true) p.inScript).flatMap Piece.tokens

theorem value_numeral (n : Number.Numeral) : (Number.read? n.text).getD (0.0 / 0.0) = n.value := by
  rw [n.read?_text]
  rfl

theorem filter_true {α : Type} (x : Option α) : x.filter (fun _ => true) = x := by
  cases x <;> rfl

theorem ne_not_of_isDialectWord {name : List Char} (h : isDialectWord name = false) :
    String.ofList name ≠ "not" := by
  intro hnot
  have hname : name = "not".toList := by rw [← hnot, String.toList_ofList]
  rw [hname] at h
  cases h

theorem interprets_row (row : Row) :
    Interprets (fun _ => true) (rowTokens row)
      (fun | .header name => name ∈ row.schema.names | _ => True)
      (fun name arguments =>
        match keyword? name.chars with
        | some keyword => keyword.Admits arguments.length
        | none => isDialectWord name.chars = false)
      (rowReference row) rowCall where
  mark m := by cases m <;> rfl
  numeral n := by simp [rowTokens, Piece.inScript, Scope.write, Piece.tokens, value_numeral]
  literal s := rfl
  truth b := rfl
  reference r _ := by simpa [rowTokens, Piece.inScript, Scope.write] using reads_rowReference row r
  callee name arguments hcall hkeyword := by
    rw [filter_true] at hkeyword
    rw [hkeyword] at hcall
    refine ⟨.ofList name.chars, ?_, rfl, fun es _ => ?_⟩
    · exact ne_not_of_isDialectWord hcall
    · simp [rowCall, hkeyword]
  statement name arguments k hcall hkeyword := by
    rw [filter_true] at hkeyword
    rw [hkeyword] at hcall
    exact ⟨hcall, fun _ => rfl⟩

theorem Tree.IsRowFormula.stated {schema : Schema} (hheaders : PlainHeaders schema) {e : Tree}
    (h : e.IsRowFormula schema) : e.Stated := by
  refine Tree.All.imp (fun r hr => ?_) (fun name arguments hcall k hk => ?_) h
  · cases r with
    | header name => exact hheaders name hr
    | _ => trivial
  · rw [Option.mem_def.1 hk] at hcall
    exact hcall

/-- The script of a written tree in a row is read as the tree's expression: choices as conditionals,
chains from the left, and each reference as the literal of the row's cell is read. -/
theorem read_rowScript_render (functions : FunctionTable) {row : Row} (hrow : row.Complete)
    (hheaders : PlainHeaders row.schema) {e : Tree} (h : e.IsRowFormula row.schema) :
    read (rowScript functions row (.ofList ('=' :: e.render))).toList = .ok (e.compileRow row) ∧
      ∀ c ∈ row.cells, read (cellLiteral c) = .ok (cellExpr c) := by
  have hstated := Tree.IsRowFormula.stated hheaders h
  have hscope := Row.Complete.sound hrow hheaders
  have hvalid : ∀ p ∈ (e.pieces fun _ => true).map Piece.inScript, p.Valid := by
    simpa using fun p hp => (Tree.valid_pieces hstated p hp).inScript
  have hoperand := (e.isOperand_pieces fun _ => true).map keepsRole_inScript
  have hconcat : ∀ r, .mark (.operator .concat) ∈ (e.pieces fun _ => true).map Piece.inScript →
      ((Scope.row row).pieces r).head? ≠ some (.mark .negation) := by
    intro r hmem
    obtain ⟨p, -, hp⟩ := List.mem_map.1 hmem
    exact absurd hp (p.inScript_ne_operator _)
  have hnames : ∀ name, .reference (.header name) ∈ (e.pieces fun _ => true).map Piece.inScript →
      name ∈ (Scope.row row).schema.names := by
    intro name hmem
    obtain ⟨p, hp, hreference⟩ := List.mem_map.1 hmem
    rw [Piece.inScript_eq_reference hreference] at hp
    exact Tree.reference_of_mem h hp
  have hscript : (rowScript functions row (.ofList ('=' :: e.render))).toList =
      textOf (((e.pieces fun _ => true).map Piece.inScript).flatMap
        ((Scope.row row).write fun _ => true)) := by
    simp only [rowScript, String.toList_ofList, script, bodyScript]
    rw [writeStatements_render hstated]
    exact resolve_textOf hscope hoperand.chain hvalid hconcat (fun _ _ => trivial) hnames
  refine ⟨?_, fun c hc => read_cellLiteral fun x hx => hrow.finite x (hx ▸ hc)⟩
  rw [hscript]
  refine read_textOf (hscope.isOperand_write hoperand hconcat)
    (fun p hp => (hscope.valid_write _ hvalid p hp).legible) ?_ ?_
  · intro q hq
    obtain ⟨p, hp, hqp⟩ := List.mem_flatMap.1 hq
    obtain ⟨p, -, rfl⟩ := List.mem_map.1 hp
    exact Scope.isScript_of_mem_write hqp
  · have hderives := ((interprets_row row).derives h).1
    unfold rowTokens at hderives
    simpa [List.flatMap_map, List.flatMap_assoc, Tree.compileRow] using hderives

/-- A choice over a row with a text that looks like a formula, a truth value and an empty cell; one
of its references names no column. -/
theorem read_rowScript_render_members :
    let row : Row :=
      ⟨⟨["member", "active", "note"]⟩, 0, [.text "IF(\"A1\",", .boolean true, .empty]⟩
    let e : Tree := .call ⟨"If".toList, by decide⟩ [
      .call ⟨"AND".toList, by decide⟩ [
        .reference (.header "active"),
        .binary .notEqual (.reference (.cell ⟨['A'], by decide, by decide⟩ 2)) (.text "x,\"y")],
      .binary .concat (.reference (.header "member")) (.negate (.boolean false)),
      .call ⟨"LOG10".toList, by decide⟩ [
        .reference (.range ⟨['C'], by decide, by decide⟩ (some 2) none),
        .reference (.cell ⟨['Z'], by decide, by decide⟩ 9)]]
    row.Complete ∧ PlainHeaders row.schema ∧ e.IsRowFormula row.schema ∧
      read (rowScript .standard row (.ofList ('=' :: e.render))).toList = .ok (e.compileRow row) ∧
      ∀ c ∈ row.cells, read (cellLiteral c) = .ok (cellExpr c) := by
  intro row e
  have hrow : row.Complete := ⟨rfl, by simp [row]⟩
  have hheaders : PlainHeaders row.schema := by
    unfold PlainHeaders
    decide
  have hformula : e.IsRowFormula row.schema := by
    have hif : keyword? ['I', 'f'] = some .choice := by decide
    have hand : keyword? ['A', 'N', 'D'] = some .conjunction := by decide
    have hlog : keyword? ['L', 'O', 'G', '1', '0'] = none := by decide
    have hword : isDialectWord ['L', 'O', 'G', '1', '0'] = false := by decide
    simp [e, row, Tree.IsRowFormula, Tree.All, hif, hand, hlog, hword, Keyword.Admits]
  exact ⟨hrow, hheaders, hformula, read_rowScript_render .standard hrow hheaders hformula⟩

/-! ### Over whole columns -/

theorem rename_fetches : ∀ name ∈ ["getCellValue", "getColumnData"],
    FunctionTable.standard.rename name.toList = name.toList := by
  decide +kernel

/-- The tokens of a piece over whole columns. -/
def columnTokens (schema : Schema) (p : Piece) : List Token :=
  ((Scope.columns schema).write (fun _ => true) p).flatMap fun q =>
    (q.renamed .standard).inScript.tokens

/-- A fetched column is read as the call that fetches it. -/
theorem reads_fetch {callee : String} (hcallee : callee ∈ ["getCellValue", "getColumnData"])
    (name : String) (row : Option Nat) :
    Reads ((fetchPieces callee name row).flatMap fun q => (q.renamed .standard).inScript.tokens)
      (.call callee (.text name :: (row.map natExpr).toList)) := by
  have hname := rename_fetches callee hcallee
  have hnot : callee ≠ "not" := by
    rintro rfl
    simp at hcallee
  have hvalue : ∀ n,
      (Number.read? (Number.digitsOf n)).getD (0.0 / 0.0) = Number.ofDecimal n 0 := by
    intro n
    rw [← Number.Numeral.text_ofNat, value_numeral, Number.Numeral.value_ofNat]
  -- The name, and the row number if there is one, each with its token.
  let more : List (Token × Expr) :=
    (row.map fun n => (.number (Number.ofDecimal n 0), natExpr n)).toList
  have hderives : ∀ y ∈ (.text name, .text name) :: more, Derives [y.1] y.2 := by
    intro y hy
    rcases List.mem_cons.1 hy with rfl | hy
    · exact (Reads.text name).derives
    · obtain ⟨n, -, rfl⟩ : ∃ n, row = some n ∧ (.number (Number.ofDecimal n 0), natExpr n) = y := by
        simpa [more] using hy
      exact (Reads.number _).derives
  have hcall : Reads (.name callee :: .leftParen :: (.text name ::
      more.flatMap fun y => [.comma, y.1]) ++ [.rightParen])
      (.call callee (.text name :: more.map Prod.snd)) :=
    .call hnot fun rest => by simpa using arguments hderives rest
  cases row with
  | none =>
      simpa [more, fetchPieces, Piece.renamed, Piece.inScript, Piece.tokens, Mark.token, hname]
        using hcall
  | some n =>
      simpa [more, fetchPieces, Piece.renamed, Piece.inScript, Piece.tokens, Mark.token, hname,
        hvalue] using hcall

theorem interprets_columns (schema : Schema) :
    Interprets (fun _ => false) (columnTokens schema)
      (fun
        | .header name => name ∈ schema.names
        | .cell _ row => 1 ≤ row ∧ row < Number.halfWord
        | .range _ _ _ => True)
      (fun name arguments =>
        isDialectWord name.chars = false ∧ ¬IsGrowth name.chars (arguments.map Tree.render))
      (columnReference schema) (columnCall .standard) where
  mark m := by cases m <;> rfl
  numeral n := by
    simp [columnTokens, Piece.inScript, Piece.renamed, Scope.write, Piece.tokens, value_numeral]
  literal s := rfl
  truth b := rfl
  reference r _ := by
    cases r with
    | cell letters row => exact reads_fetch (by simp) _ (some (row - 1))
    | range letters first last => exact reads_fetch (by simp) _ (first.filter (· ≠ 1))
    | header name => exact reads_fetch (by simp) name none
  callee name arguments hcall _ := by
    have htarget : String.ofList (FunctionTable.standard.rename name.chars) =
        (FunctionTable.standard.get? (.ofList name.chars)).getD (.ofList name.chars) := by
      unfold FunctionTable.rename
      cases FunctionTable.standard.get? (.ofList name.chars) <;> simp
    refine ⟨.ofList (FunctionTable.standard.rename name.chars), ?_, rfl, fun es _ => ?_⟩
    · rw [htarget]
      cases hget : FunctionTable.standard.get? (.ofList name.chars) with
      | none => exact ne_not_of_isDialectWord hcall.1
      | some target =>
          obtain ⟨entry, hentry, rfl⟩ := FunctionTable.target_of_get? hget
          exact (FunctionTable.standard_targets entry hentry).2
    · rw [htarget]
      rfl
  statement name arguments k _ hkeyword := by
    cases hword : keyword? name.chars with
    | none => simp [hword] at hkeyword
    | some j => simp [hword, Option.filter] at hkeyword

theorem Tree.IsColumnFormula.plain {schema : Schema} (hheaders : PlainHeaders schema) {e : Tree}
    (h : e.IsColumnFormula schema) :
    e.All Ref.IsPlain fun name arguments =>
      ¬IsGrowth name.chars (arguments.map Tree.render) := by
  refine Tree.All.imp (fun r hr => ?_) (fun name arguments hcall => hcall.2) h
  cases r with
  | header name => exact hheaders name hr
  | _ => trivial

/-- A fetch starts without a sign and holds no words of statements. -/
theorem fetchPieces_plain (callee name : String) (row : Option Nat) :
    (fetchPieces callee name row).head? ≠ some (.mark .negation) ∧
      ∀ m, .mark m ∈ fetchPieces callee name row → m.Formal fun _ => false := by
  cases row <;> simp [fetchPieces, Mark.Formal]

theorem fetches_plain (schema : Schema) (r : Ref) :
    ((Scope.columns schema).pieces r).head? ≠ some (.mark .negation) ∧
      ∀ m, .mark m ∈ (Scope.columns schema).pieces r → m.Formal fun _ => false := by
  cases r <;> exact fetchPieces_plain _ _ _

/-- The passes behind resolving, one after the other: function names, operators. -/
theorem writeOperators_apply_textOf {ps : List Piece} (hoperand : IsOperand ps)
    (hvalid : ∀ p ∈ ps, p.Valid) (hformal : ∀ m, .mark m ∈ ps → m.Formal fun _ => false)
    (hresolved : ∀ r, .reference r ∉ ps) :
    writeOperators (FunctionTable.standard.apply (textOf ps)) =
      textOf ((ps.map (Piece.renamed .standard)).map Piece.inScript) := by
  have hrename : FunctionTable.standard.apply (textOf ps) =
      textOf (ps.map (Piece.renamed .standard)) := by
    refine apply_textOf hoperand.chain hvalid (fun p hp => ?_) hresolved
    obtain ⟨k, hk⟩ := (hformal _ hp).2 p rfl
    cases hk
  rw [hrename]
  refine writeOperators_textOf (hoperand.map (keepsRole_renamed .standard)) ?_ fun op hop => ?_
  · simpa using fun p hp => (hvalid p hp).legible_renamed
  · obtain ⟨p, hp, hop⟩ := List.mem_map.1 hop
    rw [Piece.renamed_eq_mark hop] at hp
    exact (hformal _ hp).1 op rfl

/-- The tokens of pieces behind the last pass. -/
def scriptTokens (ps : List Piece) : List Token :=
  ps.flatMap fun p => (p.renamed .standard).inScript.tokens

@[simp] theorem scriptTokens_nil : scriptTokens [] = [] := rfl

@[simp] theorem scriptTokens_cons (p : Piece) (ps : List Piece) :
    scriptTokens (p :: ps) = (p.renamed .standard).inScript.tokens ++ scriptTokens ps := rfl

@[simp] theorem scriptTokens_append (ps qs : List Piece) :
    scriptTokens (ps ++ qs) = scriptTokens ps ++ scriptTokens qs := List.flatMap_append

@[simp] theorem tokens_mark (m : Mark) :
    ((Piece.mark m).renamed .standard).inScript.tokens = [m.token] := by
  cases m <;> rfl

/-- Resolved pieces are read as their tokens are. -/
theorem read_writeOperators_apply {ps : List Piece} (hoperand : IsOperand ps)
    (hvalid : ∀ p ∈ ps, p.Valid) (hformal : ∀ m, .mark m ∈ ps → m.Formal fun _ => false)
    (hresolved : ∀ r, .reference r ∉ ps) {e : Expr} (h : Derives (scriptTokens ps) e) :
    read (writeOperators (FunctionTable.standard.apply (textOf ps))) = .ok e := by
  rw [writeOperators_apply_textOf hoperand hvalid hformal hresolved]
  refine read_textOf ((hoperand.map (keepsRole_renamed .standard)).map keepsRole_inScript) ?_ ?_ ?_
  · simpa using fun p hp => (hvalid p hp).legible_renamed.inScript
  · simp only [List.mem_map, List.map_map, Function.comp_apply, forall_exists_index, and_imp,
      forall_apply_eq_imp_iff₂]
    intro p hp
    refine Piece.isScript_inScript fun r hr => ?_
    rw [Piece.renamed_eq_reference hr] at hp
    exact hresolved r hp
  · unfold scriptTokens at h
    simpa [List.flatMap_map] using h

/-- The pieces of a tree with its references resolved. -/
def fetchedPieces (schema : Schema) (e : Tree) : List Piece :=
  (e.pieces fun _ => false).flatMap ((Scope.columns schema).write fun _ => true)

section

variable {schema : Schema} (hheaders : PlainHeaders schema) {e : Tree}
  (h : e.IsColumnFormula schema)

include h in
theorem formal_of_mem_fetchedPieces {m : Mark} (hm : .mark m ∈ fetchedPieces schema e) :
    m.Formal fun _ => false := by
  obtain ⟨p, hp, hm⟩ := List.mem_flatMap.1 hm
  rcases (Scope.columns schema).write_cases (fun _ => true) p with hwrite | ⟨r, -, hwrite⟩
  · rw [hwrite, List.mem_singleton] at hm
    subst hm
    exact Tree.formal_of_mem h hp
  · rw [hwrite] at hm
    exact (fetches_plain schema r).2 m hm

include hheaders in
theorem isOperand_fetchedPieces (e : Tree) : IsOperand (fetchedPieces schema e) :=
  (sound_columns hheaders).isOperand_write (e.isOperand_pieces _) fun r _ =>
    (fetches_plain schema r).1

include hheaders h

theorem valid_fetchedPieces : ∀ p ∈ fetchedPieces schema e, p.Valid :=
  (sound_columns hheaders).valid_write _ (Tree.valid_pieces (Tree.IsColumnFormula.plain hheaders h))

theorem columnScript_render : (columnScript .standard schema (.ofList ('=' :: e.render))).toList =
    textOf (((fetchedPieces schema e).map (Piece.renamed .standard)).map Piece.inScript) := by
  have hplain := Tree.IsColumnFormula.plain hheaders h
  have hoperand := isOperand_fetchedPieces hheaders e
  have hvalid := valid_fetchedPieces hheaders h
  have hresolve : resolve (.columns schema) e.render = textOf (fetchedPieces schema e) := by
    rw [← e.textOf_pieces]
    refine resolve_textOf (sound_columns hheaders) (e.isOperand_pieces _).chain
      (Tree.valid_pieces hplain) (fun r _ => (fetches_plain schema r).1) (fun r hr => ?_)
      fun name hname => Tree.reference_of_mem h hname
    have hadmits := Tree.reference_of_mem h hr
    cases r with
    | cell letters row => exact hadmits
    | _ => trivial
  have hresolved : ∀ r, .reference r ∉ fetchedPieces schema e := by
    intro r hr
    cases (Scope.mem_write hr).2
  simp only [columnScript, String.toList_ofList, script, bodyScript]
  rw [writeGrowth_render schema hplain, hresolve]
  exact writeOperators_apply_textOf hoperand hvalid (fun _ => formal_of_mem_fetchedPieces h)
    hresolved

end

/-- The script of a written tree over whole columns is read as the tree's expression: references
fetch their columns, and calls go by the names of the function table. -/
theorem read_columnScript_render {schema : Schema} (hheaders : PlainHeaders schema) {e : Tree}
    (h : e.IsColumnFormula schema) :
    read (columnScript .standard schema (.ofList ('=' :: e.render))).toList =
      .ok (e.compileColumns .standard schema) := by
  have hoperand := (isOperand_fetchedPieces hheaders e).map (keepsRole_renamed .standard)
  rw [columnScript_render hheaders h]
  refine read_textOf (hoperand.map keepsRole_inScript) ?_ ?_ ?_
  · simpa using fun p hp => (valid_fetchedPieces hheaders h p hp).legible_renamed.inScript
  · simp only [List.mem_map, List.map_map, Function.comp_apply, forall_exists_index, and_imp,
      forall_apply_eq_imp_iff₂]
    intro p hp
    refine Piece.isScript_inScript fun r hr => ?_
    rw [Piece.renamed_eq_reference hr] at hp
    cases (Scope.mem_write hp).2
  · have hderives := ((interprets_columns schema).derives h).1
    unfold columnTokens at hderives
    simpa [fetchedPieces, List.flatMap_map, List.flatMap_assoc, Tree.compileColumns] using hderives

/-- An average of one column, without growth, next to a cell of no column and a renamed call. -/
theorem read_columnScript_render_sales :
    let schema : Schema := ⟨["region", "sales", "note"]⟩
    let e : Tree := .binary .concat
      (.call ⟨"Average".toList, by decide⟩
        [.reference (.range ⟨['B'], by decide, by decide⟩ (some 2) none)])
      (.negate (.call ⟨"LEFT".toList, by decide⟩
        [.reference (.header "note"), .reference (.cell ⟨['Z'], by decide, by decide⟩ 3),
          .text "AVERAGE(((B:B-C:C)/C:C)*100)"]))
    PlainHeaders schema ∧ e.IsColumnFormula schema ∧
      read (columnScript .standard schema (.ofList ('=' :: e.render))).toList =
        .ok (e.compileColumns .standard schema) := by
  intro schema e
  have hheaders : PlainHeaders schema := by
    unfold PlainHeaders
    decide
  have hformula : e.IsColumnFormula schema := by
    have haverage : isDialectWord ['A', 'v', 'e', 'r', 'a', 'g', 'e'] = false := by decide
    have hleft : isDialectWord ['L', 'E', 'F', 'T'] = false := by decide
    have hrow : 3 < Number.halfWord := by decide
    simp [e, schema, Tree.IsColumnFormula, Tree.All, haverage, hleft, hrow, IsGrowth, Tree.render,
      Ref.text, growthText]
  exact ⟨hheaders, hformula, read_columnScript_render hheaders hformula⟩

end SheetBoard.Script
