import SheetBoard.Formula.Call
import SheetBoard.Proofs.Formula.Quoting

/-! Texts whose parentheses match. The search for a closing parenthesis and the cut at commas both
pass over such a text, so the arguments of a call are found as they were written. -/

namespace SheetBoard.Formula

/-- Puts a text in front of the first piece. -/
def glue (x : List Char) (xs : List (List Char)) : List (List Char) := x.foldr prepend xs

@[simp] theorem glue_nil (xs : List (List Char)) : glue [] xs = xs := rfl

@[simp] theorem glue_cons (c : Char) (x : List Char) (xs : List (List Char)) :
    glue (c :: x) xs = prepend c (glue x xs) := rfl

theorem glue_append (x y : List Char) (xs : List (List Char)) :
    glue (x ++ y) xs = glue x (glue y xs) :=
  List.foldr_append

@[simp] theorem glue_first (x first : List Char) (xs : List (List Char)) :
    glue x (first :: xs) = (x ++ first) :: xs := by
  induction x with
  | nil => rfl
  | cons c x ih => rw [glue_cons, ih]; rfl

/-- Puts a text in front of what stands before a closing parenthesis. -/
def keep (x : List Char) (found : Option (List Char × List Char)) :
    Option (List Char × List Char) :=
  found.map fun (before, after) => (x ++ before, after)

@[simp] theorem keep_some (x before after : List Char) :
    keep x (some (before, after)) = some (x ++ before, after) := rfl

@[simp] theorem keep_nil (found : Option (List Char × List Char)) : keep [] found = found := by
  cases found <;> rfl

theorem keep_append (x y : List Char) (found : Option (List Char × List Char)) :
    keep (x ++ y) found = keep x (keep y found) := by
  cases found <;> simp [keep]

/-! ### One character -/

theorem splitClose_cons (depth : Nat) (st : QuoteState) (c : Char) (rest : List Char) :
    splitClose depth st (c :: rest) =
      if st = .outside ∧ c = '(' then keep [c] (splitClose (depth + 1) .outside rest)
      else if st = .outside ∧ c = ')' then
        match depth with
        | 0 => none
        | 1 => some ([], rest)
        | depth + 2 => keep [c] (splitClose (depth + 1) .outside rest)
      else keep [c] (splitClose depth (st.step c) rest) := by
  rw [splitClose.eq_def]
  rfl

theorem splitClose_left (depth : Nat) (rest : List Char) :
    splitClose depth .outside ('(' :: rest) =
      keep ['('] (splitClose (depth + 1) .outside rest) := by
  rw [splitClose_cons, if_pos ⟨rfl, rfl⟩]

theorem splitClose_right (depth : Nat) (rest : List Char) :
    splitClose (depth + 2) .outside (')' :: rest) =
      keep [')'] (splitClose (depth + 1) .outside rest) := by
  rw [splitClose_cons, if_neg (by decide), if_pos ⟨rfl, rfl⟩]

theorem splitClose_last (rest : List Char) :
    splitClose 1 .outside (')' :: rest) = some ([], rest) := by
  rw [splitClose_cons, if_neg (by decide), if_pos ⟨rfl, rfl⟩]

theorem splitClose_char {st : QuoteState} {c : Char} (h : st = .outside → c ≠ '(' ∧ c ≠ ')')
    (depth : Nat) (rest : List Char) :
    splitClose depth st (c :: rest) = keep [c] (splitClose depth (st.step c) rest) := by
  have hleft : ¬(st = .outside ∧ c = '(') := fun hc => (h hc.1).1 hc.2
  have hright : ¬(st = .outside ∧ c = ')') := fun hc => (h hc.1).2 hc.2
  rw [splitClose_cons, if_neg hleft, if_neg hright]

theorem pieces_cons (depth : Int) (st : QuoteState) (c : Char) (rest : List Char) :
    pieces depth st (c :: rest) =
      if st = .outside ∧ c = ',' ∧ depth = 0 then [] :: pieces depth .outside rest
      else
        prepend c (pieces
          (if st = .outside ∧ c = '(' then depth + 1
            else if st = .outside ∧ c = ')' then depth - 1
            else depth) (st.step c) rest) := by
  rw [pieces]

theorem pieces_left (depth : Int) (rest : List Char) :
    pieces depth .outside ('(' :: rest) = prepend '(' (pieces (depth + 1) .outside rest) := by
  rw [pieces_cons, if_neg (by simp), if_pos ⟨rfl, rfl⟩, QuoteState.step_outside rfl]

theorem pieces_right (depth : Int) (rest : List Char) :
    pieces depth .outside (')' :: rest) = prepend ')' (pieces (depth - 1) .outside rest) := by
  rw [pieces_cons, if_neg (by simp), if_neg (by decide), if_pos ⟨rfl, rfl⟩,
    QuoteState.step_outside rfl]

theorem pieces_comma (rest : List Char) :
    pieces 0 .outside (',' :: rest) = [] :: pieces 0 .outside rest := by
  rw [pieces_cons, if_pos ⟨rfl, rfl, rfl⟩]

theorem pieces_char {depth : Int} {st : QuoteState} {c : Char}
    (h : st = .outside → c ≠ '(' ∧ c ≠ ')') (hcomma : st = .outside → c = ',' → depth ≠ 0)
    (rest : List Char) :
    pieces depth st (c :: rest) = prepend c (pieces depth (st.step c) rest) := by
  have hleft : ¬(st = .outside ∧ c = '(') := fun hc => (h hc.1).1 hc.2
  have hright : ¬(st = .outside ∧ c = ')') := fun hc => (h hc.1).2 hc.2
  have hcut : ¬(st = .outside ∧ c = ',' ∧ depth = 0) := fun hc => hcomma hc.1 hc.2.1 hc.2.2
  rw [pieces_cons, if_neg hcut, if_neg hleft, if_neg hright]

/-! ### Texts whose parentheses match -/

/-- Both scans pass over the text within `depth` parentheses. -/
structure Nested (depth : Nat) (x : List Char) : Prop where
  splitClose : ∀ rest, splitClose (depth + 1) .outside (x ++ rest) =
    keep x (splitClose (depth + 1) .outside rest)
  pieces : ∀ rest, pieces depth .outside (x ++ rest) = glue x (pieces depth .outside rest)

namespace Nested

variable {depth : Nat} {x y : List Char}

theorem nil : Nested depth [] where
  splitClose _ := (keep_nil _).symm
  pieces _ := rfl

theorem append (hx : Nested depth x) (hy : Nested depth y) : Nested depth (x ++ y) where
  splitClose rest := by rw [List.append_assoc, hx.splitClose, hy.splitClose, keep_append]
  pieces rest := by rw [List.append_assoc, hx.pieces, hy.pieces, glue_append]

/-- A comma is plain within parentheses. -/
theorem char {c : Char} (hquote : isQuote c = false) (hleft : c ≠ '(') (hright : c ≠ ')')
    (hcomma : c = ',' → 0 < depth) : Nested depth [c] where
  splitClose rest := by
    rw [List.singleton_append, splitClose_char (fun _ => ⟨hleft, hright⟩),
      QuoteState.step_outside hquote]
  pieces rest := by
    have hcut : c = ',' → (depth : Int) ≠ 0 := by
      intro hc
      have := hcomma hc
      omega
    rw [List.singleton_append, pieces_char (fun _ => ⟨hleft, hright⟩) (fun _ => hcut),
      QuoteState.step_outside hquote]
    rfl

theorem plain (h : ∀ c ∈ x, isQuote c = false ∧ c ≠ '(' ∧ c ≠ ')' ∧ c ≠ ',') :
    Nested depth x := by
  induction x with
  | nil => exact nil
  | cons c x ih =>
      obtain ⟨hquote, hleft, hright, hcomma⟩ := h c (by simp)
      have hc : Nested depth [c] := char hquote hleft hright fun hc => absurd hc hcomma
      exact hc.append (ih fun d hd => h d (by simp [hd]))

theorem group (h : Nested (depth + 1) x) : Nested depth ('(' :: x ++ [')']) where
  splitClose rest := by
    rw [List.append_assoc, List.cons_append, List.singleton_append, splitClose_left, h.splitClose,
      splitClose_right, ← keep_append, ← keep_append]
    simp
  pieces rest := by
    have hinside : (depth : Int) + 1 = ((depth + 1 : Nat) : Int) := by simp
    rw [List.append_assoc, List.cons_append, List.singleton_append, pieces_left, hinside, h.pieces,
      pieces_right, ← hinside, Int.add_sub_cancel, List.cons_append, glue_cons, glue_append]
    rfl

theorem splitClose_escaped (h : Escaped x) (depth : Nat) (rest : List Char) :
    Formula.splitClose depth (.inside '"') (x ++ rest) =
      keep x (Formula.splitClose depth (.inside '"') rest) := by
  have hchar : ∀ st d rest, st ≠ .outside → Formula.splitClose depth st (d :: rest) =
      keep [d] (Formula.splitClose depth (st.step d) rest) :=
    fun st d rest hst => splitClose_char (fun h => absurd h hst) depth rest
  induction h with
  | nil => exact (keep_nil _).symm
  | plain hmark hslash _ ih =>
      simp [hchar, QuoteState.step_inside hmark hslash, ih, ← keep_append]
  | slash c _ ih => simp [hchar, ih, ← keep_append]

theorem pieces_escaped (h : Escaped x) (depth : Int) (rest : List Char) :
    Formula.pieces depth (.inside '"') (x ++ rest) =
      glue x (Formula.pieces depth (.inside '"') rest) := by
  have hchar : ∀ st d rest, st ≠ .outside → Formula.pieces depth st (d :: rest) =
      prepend d (Formula.pieces depth (st.step d) rest) :=
    fun st d rest hst => pieces_char (fun h => absurd h hst) (fun h => absurd h hst) rest
  induction h with
  | nil => rfl
  | plain hmark hslash _ ih => simp [hchar, QuoteState.step_inside hmark hslash, ih]
  | slash c _ ih => simp [hchar, ih]

/-- Parentheses and commas in a literal do not count. -/
theorem quote (s : List Char) : Nested depth (quote s) where
  splitClose rest := by
    rw [quote_append, splitClose_char (by simp), QuoteState.step_open,
      splitClose_escaped (escaped_escape s), splitClose_char (by simp), QuoteState.step_close,
      ← keep_append, ← keep_append]
    rfl
  pieces rest := by
    rw [quote_append, pieces_char (by simp) (by simp), QuoteState.step_open,
      pieces_escaped (escaped_escape s), pieces_char (by simp) (by simp), QuoteState.step_close,
      Formula.quote, List.cons_append, glue_cons, glue_append]
    rfl

theorem intercalate {sep : List Char} (hsep : Nested depth sep) {xs : List (List Char)}
    (h : ∀ x ∈ xs, Nested depth x) : Nested depth (sep.intercalate xs) := by
  induction xs with
  | nil => exact nil
  | cons x xs ih =>
      have hx := h x (by simp)
      cases xs with
      | nil => simpa using hx
      | cons y ys =>
          have hrest := ih fun z hz => h z (by simp [hz])
          simpa using (hx.append hsep).append hrest

end Nested

/-! ### Joining the pieces of a text -/

theorem pieces_ne_nil (depth : Int) (st : QuoteState) (cs : List Char) :
    pieces depth st cs ≠ [] := by
  cases cs with
  | nil => simp [pieces]
  | cons c cs =>
      rw [pieces_cons]
      split
      · simp
      · unfold prepend
        split <;> simp

theorem intercalate_nil_cons {ps : List (List Char)} (hps : ps ≠ []) :
    [','].intercalate ([] :: ps) = ',' :: [','].intercalate ps := by
  obtain ⟨piece, ps, rfl⟩ := List.exists_cons_of_ne_nil hps
  simp [List.intercalate_cons_cons]

theorem intercalate_prepend {ps : List (List Char)} (hps : ps ≠ []) (c : Char) :
    [','].intercalate (prepend c ps) = c :: [','].intercalate ps := by
  obtain ⟨piece, ps, rfl⟩ := List.exists_cons_of_ne_nil hps
  cases ps <;> simp [prepend, List.intercalate_cons_cons]

theorem intercalate_pieces (depth : Int) (st : QuoteState) (cs : List Char) :
    [','].intercalate (pieces depth st cs) = cs := by
  induction cs generalizing depth st with
  | nil => simp [pieces]
  | cons c cs ih =>
      rw [pieces_cons]
      split
      · rename_i hcut
        rw [intercalate_nil_cons (pieces_ne_nil _ _ _), ih, hcut.2.1]
      · rw [intercalate_prepend (pieces_ne_nil _ _ _), ih]

/-! ### The arguments of a call -/

/-- The cut at commas passes over the text. -/
def Uncut (x : List Char) : Prop :=
  ∀ rest, pieces 0 .outside (x ++ rest) = glue x (pieces 0 .outside rest)

theorem Nested.uncut {x : List Char} (h : Nested 0 x) : Uncut x := h.pieces

theorem pieces_intercalate {x : List Char} {xs : List (List Char)} (h : ∀ y ∈ x :: xs, Uncut y) :
    pieces 0 .outside ([','].intercalate (x :: xs)) = x :: xs := by
  induction xs generalizing x with
  | nil =>
      have hx := h x (by simp) []
      simpa [pieces] using hx
  | cons y ys ih =>
      have hx := h x (by simp) (',' :: [','].intercalate (y :: ys))
      have hrest := ih fun z hz => h z (List.mem_cons_of_mem x hz)
      rw [pieces_comma, hrest, glue_first, List.append_nil] at hx
      simpa using hx

theorem Uncut.argumentsOf_intercalate {xs : List (List Char)} (h : ∀ x ∈ xs, Uncut x)
    (hlast : xs.getLast? ≠ some []) : argumentsOf ([','].intercalate xs) = xs := by
  cases xs with
  | nil => rfl
  | cons x xs => simp only [argumentsOf, pieces_intercalate h, hlast, if_false]

theorem argumentsOf_intercalate {xs : List (List Char)} (h : ∀ x ∈ xs, Nested 0 x ∧ x ≠ []) :
    argumentsOf ([','].intercalate xs) = xs :=
  Uncut.argumentsOf_intercalate (fun x hx => (h x hx).1.uncut)
    fun hlast => (h [] (List.mem_of_getLast? hlast)).2 rfl

/-- The arguments of a call end at the parenthesis that closes it. -/
theorem splitClose_arguments {xs : List (List Char)} (h : ∀ x ∈ xs, Nested 0 x)
    (rest : List Char) :
    splitClose 1 .outside ([','].intercalate xs ++ ')' :: rest) =
      some ([','].intercalate xs, rest) := by
  induction xs with
  | nil => exact splitClose_last rest
  | cons x xs ih =>
      have hx := (h x (by simp)).splitClose
      cases xs with
      | nil => simpa [splitClose_last] using hx (')' :: rest)
      | cons y ys =>
          have hrest := ih fun z hz => h z (List.mem_cons_of_mem x hz)
          have hcomma :
              splitClose 1 .outside (',' :: ([','].intercalate (y :: ys) ++ ')' :: rest)) =
                keep [','] (splitClose 1 .outside ([','].intercalate (y :: ys) ++ ')' :: rest)) :=
            splitClose_char (by simp) 1 _
          rw [hrest] at hcomma
          simpa [hcomma] using hx (',' :: ([','].intercalate (y :: ys) ++ ')' :: rest))

end SheetBoard.Formula
