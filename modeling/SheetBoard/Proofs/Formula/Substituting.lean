import SheetBoard.Proofs.Formula.Alike
import SheetBoard.Proofs.Formula.Fetching
import SheetBoard.Proofs.Number.Whole

/-! Cells of one row in the place of their references, under headers of any spelling: a reference
becomes the literal of its cell, and no header is found again in that literal. -/

namespace SheetBoard

/-- The cell holds one of the two infinities. -/
def Cell.isInfinite : Cell → Bool
  | .number x => x.isInf
  | _ => false

/-- A text or a finite number. -/
inductive Cell.Plain : Cell → Prop
  | text (s : String) : Plain (.text s)
  | number {x : Float} (h : Number.IsFinite x) : Plain (.number x)

theorem Number.isFinite_iff {x : Float} :
    Number.IsFinite x ↔ x.isNaN = false ∧ x.isInf = false := by
  rw [isNaN_eq, isInf_eq]
  cases hx : exact x with
  | nan => simp [IsFinite, hx]
  | infinite negative => simp [IsFinite, hx]
  | finite negative m q => simp [IsFinite, hx]

namespace Cell.Plain

variable {c : Cell} (h : c.Plain)
include h

theorem finite (x : Float) (hx : c = .number x) : Number.IsFinite x := by
  cases h with
  | text s => cases hx
  | number hfinite =>
      cases hx
      exact hfinite

theorem isInfinite_eq_false : c.isInfinite = false := by
  cases h with
  | text s => rfl
  | number hx => exact (Number.isFinite_iff.1 hx).2

end Cell.Plain

end SheetBoard

namespace SheetBoard.Formula

/-! ### Headers as parts of a text -/

section

variable {name a b : List Char}

/-- A part without some character lies on one side of it. -/
theorem infix_or_infix_of_notMem {c : Char} (hc : c ∉ name) (h : name <:+: a ++ c :: b) :
    name <:+: a ∨ name <:+: b := by
  induction a with
  | nil =>
      rcases List.infix_cons_iff.1 h with hfront | hrest
      · rcases List.prefix_cons_iff.1 hfront with rfl | ⟨tail, rfl, -⟩
        · exact .inl List.nil_infix
        · simp at hc
      · exact .inr hrest
  | cons d a ih =>
      rcases List.infix_cons_iff.1 h with hfront | hrest
      · left
        rcases List.prefix_or_prefix_of_prefix hfront (List.prefix_append (d :: a) (c :: b)) with
          hshort | ⟨tail, rfl⟩
        · exact hshort.isInfix
        · have htail := (List.prefix_append_right_inj (d :: a)).1 hfront
          rcases List.prefix_cons_iff.1 htail with rfl | ⟨tail, rfl, -⟩
          · simp
          · simp at hc
      · exact (ih hrest).imp_left List.infix_cons

theorem replaceAll_of_not_infix (h : ¬name <:+: a)
    (form : Option Char → Unit → List Char → Option (List Char)) :
    replaceAll (wholeName name) form a = a := by
  refine replaceAll_of_refused ?_ fun x rest htext _ _ => ?_
  · rintro rfl
    exact h List.nil_infix
  · exact absurd ⟨x, rest, by simp [htext]⟩ h

end

theorem resolveName_of_not_infix {header : String} {cs : List Char} (hcs : Unquoted cs)
    (h : ¬header.toList <:+: cs) (scope : Scope) : resolveName scope cs header = cs := by
  rw [resolveName, editUnquoted_eq_self_of_unquoted _ hcs rfl, replaceReferences_eq]
  exact replaceAll_of_not_infix h _

/-- A literal stays, and so does the text before it in which the header is not found. -/
theorem resolveName_append_quote {header : String} {a rest : List Char} (ha : Unquoted a)
    (h : ¬header.toList <:+: a) {scope : Scope} (hrest : resolveName scope rest header = rest)
    (s : List Char) : resolveName scope (a ++ quote s ++ rest) header = a ++ quote s ++ rest := by
  rw [resolveName] at hrest ⊢
  rw [editUnquoted_append_quote _ ha rfl, hrest, replaceReferences_eq, replaceAll_of_not_infix h]

/-! ### The literals of cells -/

theorem cellLiteral_of_missing {c : Cell} (h : c.isMissing = true) :
    cellLiteral c = Number.signed false (Number.Numeral.ofNat 0).text := by
  simp [cellLiteral, h, Number.signed]
  decide +kernel

theorem cellLiteral_number {x : Float} (h : Number.IsFinite x) :
    ∃ (minus : Bool) (n : Number.Numeral),
      cellLiteral (.number x) = Number.signed minus n.text := by
  have hmissing : (Cell.number x).isMissing = false := (Number.isFinite_iff.1 h).1
  obtain ⟨negative, m, q, hexact⟩ := h
  obtain ⟨minus, n, htext⟩ := Number.exists_numeral_of_finite hexact
  exact ⟨minus, n, by simp [cellLiteral, hmissing, htext]⟩

theorem cellLiteral_text (s : String) : cellLiteral (.text s) = quote s.toList := by
  simp [cellLiteral, Cell.isMissing]

section

variable {header : String} (hheader : isSearchable header = true) (scope : Scope)
include hheader

theorem resolveName_signed (minus : Bool) (n : Number.Numeral) :
    resolveName scope (Number.signed minus n.text) header = Number.signed minus n.text := by
  refine resolveName_of_not_infix (unquoted_signed minus (unquoted_numeral n)) ?_ scope
  simpa using not_infix_signed (a := []) (b := []) hheader (by simp) (by simp) minus n

theorem resolveName_nil : resolveName scope [] header = [] :=
  resolveName_of_not_infix (by simp [Unquoted]) (not_infix_of_plain hheader (by simp)) scope

theorem resolveName_quote (s : List Char) : resolveName scope (quote s) header = quote s := by
  simpa using resolveName_append_quote (a := []) (by simp [Unquoted])
    (not_infix_of_plain hheader (by simp)) (resolveName_nil hheader scope) s

theorem resolveName_truth (b : Bool) :
    resolveName scope (Piece.truthText false b) header = Piece.truthText false b := by
  have hreserved : header ∉ reservedWords := by
    simp only [isSearchable, Bool.and_eq_true, Bool.not_eq_true'] at hheader
    simpa using hheader.2
  have hword : ∀ word ∈ reservedWords, IsName word.toList →
      resolveName scope word.toList header = word.toList := by
    intro word hmem hname
    refine resolveName_other hname scope hheader ?_
    rintro rfl
    exact hreserved hmem
  cases b with
  | true => exact hword "True" (by decide) (by decide)
  | false => exact hword "False" (by decide) (by decide)

/-- No header is found in the literal of a cell. -/
theorem resolveName_cellLiteral {c : Cell} (hc : c.isInfinite = false) :
    resolveName scope (cellLiteral c) header = cellLiteral c := by
  cases hmissing : c.isMissing with
  | true =>
      rw [cellLiteral_of_missing hmissing]
      exact resolveName_signed hheader scope _ _
  | false =>
      cases c with
      | empty => cases hmissing
      | boolean b =>
          have htruth : cellLiteral (.boolean b) = Piece.truthText false b := by cases b <;> rfl
          rw [htruth]
          exact resolveName_truth hheader scope b
      | number x =>
          obtain ⟨minus, n, htext⟩ := cellLiteral_number (Number.isFinite_iff.2 ⟨hmissing, hc⟩)
          rw [htext]
          exact resolveName_signed hheader scope minus n
      | text s =>
          rw [cellLiteral_text]
          exact resolveName_quote hheader scope s.toList

end

theorem resolveNames_eq_self {scope : Scope} {cs : List Char}
    (h : ∀ header ∈ scope.schema.names, isSearchable header = true →
      resolveName scope cs header = cs) : resolveNames scope cs = cs :=
  foldl_resolveName_eq_self fun header hheader =>
    h header (mem_names_of_mem_searchedNames hheader) (isSearchable_of_mem_searchedNames hheader)

theorem resolveNames_cellLiteral {c : Cell} (hc : c.isInfinite = false) (scope : Scope) :
    resolveNames scope (cellLiteral c) = cellLiteral c :=
  resolveNames_eq_self fun _ _ hheader => resolveName_cellLiteral hheader scope hc

/-- An infinite number is written as a word, which is a header's like any other. -/
def infinityWord : List Char := ['i', 'n', 'f']

theorem cellLiteral_of_isInfinite {c : Cell} (h : c.isInfinite = true) :
    ∃ minus : Bool, cellLiteral c = Number.signed minus infinityWord := by
  cases c with
  | number x =>
      have hinf : x.isInf = true := h
      rw [Number.isInf_eq, decide_eq_true_iff] at hinf
      obtain ⟨negative, hexact⟩ := hinf
      have hmissing : (Cell.number x).isMissing = false := by
        rw [Cell.isMissing, Number.isNaN_eq, hexact]
        rfl
      refine ⟨negative, ?_⟩
      simp [cellLiteral, hmissing, Number.display, Number.plain, Number.write, hexact, infinityWord]
  | _ => cases h

theorem resolveNames_infinityWord (scope : Scope) (h : "inf" ∉ scope.schema.names) (minus : Bool) :
    resolveNames scope (Number.signed minus infinityWord) = Number.signed minus infinityWord := by
  refine resolveNames_eq_self fun header hmem hheader => ?_
  have hne : header.toList ≠ infinityWord := by
    intro hword
    obtain rfl : header = "inf" := String.toList_inj.1 hword
    exact h hmem
  have hbounded := bounded_of_isSearchable hheader
  have hname : ∀ c ∈ infinityWord, isNameChar c = true := by decide
  have hstays : ∀ a : List Char, Unquoted a → (∀ c ∈ a, isOperandChar c = false) →
      resolveName scope (a ++ (infinityWord ++ [])) header = a ++ (infinityWord ++ []) := by
    intro a hunquoted ha
    have hword : Unquoted (infinityWord ++ []) := by decide
    rw [resolveName, editUnquoted_eq_self_of_unquoted _ (hunquoted.append hword) rfl,
      replaceReferences_eq]
    exact replaceAll_wholeName hbounded ha hname (by simp) hne
  cases minus with
  | false => exact hstays [] (by simp [Unquoted]) (by simp)
  | true => exact hstays ['-'] (by decide) (by decide +kernel)

/-! ### Two literals with a plus sign between them -/

/-- A sum, as it is written where texts were joined. -/
def plusText : List Char := [' ', '+', ' ']

theorem unquoted_plusText : Unquoted plusText := by decide

theorem plain_plusText : ∀ c ∈ plusText, isOperandChar c = false := by decide +kernel

section

variable {header : String} (hheader : isSearchable header = true)
include hheader

/-- A header that is found in a sum of numbers holds the plus sign. -/
theorem not_infix_sum (hplus : '+' ∉ header.toList) (minus minus' : Bool)
    (n n' : Number.Numeral) :
    ¬header.toList <:+:
      Number.signed minus n.text ++ (plusText ++ Number.signed minus' n'.text) := by
  intro hpart
  have hblank : ∀ c ∈ [' '], isOperandChar c = false := by decide +kernel
  have hsides : header.toList <:+:
      (Number.signed minus n.text ++ [' ']) ++ '+' :: ([' '] ++ Number.signed minus' n'.text) := by
    simpa [plusText] using hpart
  rcases infix_or_infix_of_notMem hplus hsides with hleft | hright
  · exact not_infix_signed (a := []) hheader (by simp) hblank minus n (by simpa using hleft)
  · exact not_infix_signed (b := []) hheader hblank (by simp) minus' n' (by simpa using hright)

variable (scope : Scope)

theorem resolveName_plusText {d : Cell} (hd : d.Plain) :
    resolveName scope (plusText ++ cellLiteral d) header = plusText ++ cellLiteral d := by
  cases hd with
  | text t =>
      simpa [cellLiteral_text] using resolveName_append_quote unquoted_plusText
        (not_infix_of_plain hheader plain_plusText) (resolveName_nil hheader scope) t.toList
  | number hy =>
      obtain ⟨minus, n, htext⟩ := cellLiteral_number hy
      have hunquoted := unquoted_signed minus (unquoted_numeral n)
      rw [htext]
      refine resolveName_of_not_infix (unquoted_plusText.append hunquoted) ?_ scope
      simpa using not_infix_signed (b := []) hheader plain_plusText (by simp) minus n

/-- A sum stays, unless it is one of two numbers and the header holds a plus sign. -/
theorem resolveName_sum {c d : Cell} (hc : c.Plain) (hd : d.Plain)
    (hplus : ∀ x y, c = .number x → d = .number y → '+' ∉ header.toList) :
    resolveName scope (cellLiteral c ++ (plusText ++ cellLiteral d)) header =
      cellLiteral c ++ (plusText ++ cellLiteral d) := by
  cases hc with
  | text s =>
      simpa [cellLiteral_text] using resolveName_append_quote (a := []) (by simp [Unquoted])
        (not_infix_of_plain hheader (by simp)) (resolveName_plusText hheader scope hd) s.toList
  | number hx =>
      obtain ⟨minus, n, htext⟩ := cellLiteral_number hx
      have hunquoted := (unquoted_signed minus (unquoted_numeral n)).append unquoted_plusText
      rw [htext]
      cases hd with
      | text t =>
          have hfront : ¬header.toList <:+: Number.signed minus n.text ++ plusText := by
            simpa using not_infix_signed (a := []) hheader (by simp) plain_plusText minus n
          simpa [cellLiteral_text] using
            resolveName_append_quote hunquoted hfront (resolveName_nil hheader scope) t.toList
      | number hy =>
          obtain ⟨minus', n', htext'⟩ := cellLiteral_number hy
          rw [htext']
          refine resolveName_of_not_infix ?_
            (not_infix_sum hheader (hplus _ _ rfl rfl) minus minus' n n') scope
          simpa using hunquoted.append (unquoted_signed minus' (unquoted_numeral n'))

end

/-! ### The passes before the headers -/

section

variable {ps : List Piece} (hchain : ps.IsChain Piece.Adjacent) (hvalid : ∀ p ∈ ps, p.Valid)
include hchain hvalid

variable {row : Row} (hcells : ∀ r, .reference r ∈ ps →
  ∃ letters n c, r = .cell letters n ∧ row.getByLetters? letters.chars = some c)
include hcells

/-- Cells of the row become literals. -/
theorem resolveCells_row : editUnquoted (resolveCells (.row row)) (textOf ps) =
    textOf (ps.flatMap ((Scope.row row).write fun _ => true)) := by
  refine editUnquoted_references hchain hvalid wordPattern_cellReference spares_cellReference
    (fun p hp => (Scope.row row).write_of_ne _ hp) ?_ ?_
  · intro name hname before rest found tail hfound
    exact rest_of_cellReference hname.all rfl hfound
  · intro r hmem _
    obtain ⟨letters, n, c, rfl, hc⟩ := hcells r hmem
    obtain ⟨name, hname, hget⟩ := Option.bind_eq_some_iff.1 hc
    refine writesPiece_found (IsName.cell letters n).ne_nil fun before rest hbefore hrest => ?_
    have hread := read?_letters letters fun d hd =>
      isDecimalDigit_of_isDigit (Number.isDigit_of_mem_digitsOf (n := n) hd)
    refine ⟨_, cellReference_of_read? hbefore hrest.word hread (Number.digitsOf_ne_nil n), ?_⟩
    have hafter : (rest.head? == some ':') = false := by simpa using hrest.colon
    have hwrite : textOf ((Scope.row row).write (fun _ => true) (.reference (.cell letters n))) =
        cellLiteral c := by simp [Scope.write, Scope.pieces, hc, textOf_cellPieces]
    simp [hafter, hbefore.beq_some (c := ':') (by decide), Scope.schema,
      columnByLetters?_of_nameAt? hname, hget, hwrite]

/-- Where all references are cells of the row, they become literals before headers are looked for.
-/
theorem resolve_cells : resolve (.row row) (textOf ps) =
    resolveNames (.row row) (textOf (ps.flatMap ((Scope.row row).write fun _ => true))) := by
  have hranges : ∀ r, .reference r ∈ ps → r.isRange = false := by
    intro r hr
    obtain ⟨letters, n, c, rfl, -⟩ := hcells r hr
    rfl
  have hnames : editUnquoted (resolveNameRanges (.row row)) (textOf ps) = textOf ps :=
    editUnquoted_names hchain hvalid wordPattern_nameRange spares_nameRange _
      (fun _ hw _ _ hrest hcolon => nameRange_eq_none hw hrest hcolon) hranges
  have hletters : editUnquoted (resolveLetterRanges (.row row)) (textOf ps) = textOf ps :=
    editUnquoted_names hchain hvalid wordPattern_letterRange spares_letterRange _
      (fun _ hw _ _ hrest hcolon => letterRange_eq_none hw.all hrest hcolon) hranges
  simp only [resolve, hnames, hletters, resolveCells_row hchain hvalid hcells]

end

end SheetBoard.Formula
