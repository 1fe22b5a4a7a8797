import SheetBoard.Proofs.Formula.Balance

/-! Cutting any text at the commas between arguments, and joining texts with commas. The depth has a
sign here, as parentheses need not match: a comma cuts only where as many are closed as opened. -/

namespace SheetBoard.Formula

/-! ### Depth with a sign -/

/-- What a character adds to the depth. -/
def Punctuation.weight : Punctuation → Int
  | .left => 1
  | .right => -1
  | .comma => 0
  | .plain => 0

/-- The parentheses that a text opens, less those that it closes. -/
def level (st : QuoteState) : List Char → Int
  | [] => 0
  | c :: rest => (punctuation st c).weight + level (st.step c) rest

/-- A comma behind the text cuts: no literal is open there, and the depth is zero. -/
def CutsAfter (depth : Int) (st : QuoteState) (x : List Char) : Prop :=
  st.run x = .outside ∧ depth + level st x = 0

instance (depth : Int) (st : QuoteState) (x : List Char) : Decidable (CutsAfter depth st x) :=
  inferInstanceAs (Decidable (_ ∧ _))

section

variable {depth : Int} {st : QuoteState}

theorem cutsAfter_nil : CutsAfter depth st [] ↔ st = .outside ∧ depth = 0 := by
  simp [CutsAfter, level]

theorem cutsAfter_cons (c : Char) (x : List Char) : CutsAfter depth st (c :: x) ↔
    CutsAfter (depth + (punctuation st c).weight) (st.step c) x := by
  simp [CutsAfter, level, Int.add_assoc]

/-- A comma that cuts leaves the depth and the state as they are. -/
theorem cutsAfter_cons_comma (x : List Char) :
    CutsAfter 0 .outside (',' :: x) ↔ CutsAfter 0 .outside x :=
  cutsAfter_cons ',' x

/-! ### One character -/

/-- A character that does not cut goes to the first piece of what follows. -/
theorem pieces_kept {c : Char} (h : ¬(c = ',' ∧ CutsAfter depth st [])) (rest : List Char) :
    pieces depth st (c :: rest) =
      prepend c (pieces (depth + (punctuation st c).weight) (st.step c) rest) := by
  have hcut : ¬(st = .outside ∧ c = ',' ∧ depth = 0) :=
    fun hcut => h ⟨hcut.2.1, cutsAfter_nil.2 ⟨hcut.1, hcut.2.2⟩⟩
  have hdepth : (if st = .outside ∧ c = '(' then depth + 1
      else if st = .outside ∧ c = ')' then depth - 1 else depth) =
        depth + (punctuation st c).weight := by
    unfold punctuation
    by_cases hst : st = .outside
    · by_cases hleft : c = '('
      · simp [hst, hleft, Punctuation.weight]
      · by_cases hright : c = ')'
        · simp [hst, hright, Punctuation.weight, Int.sub_eq_add_neg]
        · by_cases hcomma : c = ',' <;> simp [hst, hleft, hright, hcomma, Punctuation.weight]
    · simp [hst, Punctuation.weight]
  rw [pieces_cons, if_neg hcut, hdepth]

theorem prepend_append {ps : List (List Char)} (hps : ps ≠ []) (c : Char)
    (qs : List (List Char)) : prepend c (ps ++ qs) = prepend c ps ++ qs := by
  obtain ⟨piece, ps, rfl⟩ := List.exists_cons_of_ne_nil hps
  rfl

theorem getLast?_prepend {ps : List (List Char)} {c : Char}
    (h : (prepend c ps).getLast? = some []) : ps.getLast? = some [] := by
  match ps with
  | [] => simp [prepend] at h
  | [piece] => simp [prepend] at h
  | _ :: next :: ps => simpa [prepend] using h

/-! ### The last piece -/

/-- Behind a comma that cuts, an empty piece begins. -/
theorem pieces_concat_comma {s : List Char} (h : CutsAfter depth st s) :
    pieces depth st (s ++ [',']) = pieces depth st s ++ [[]] := by
  induction s generalizing depth st with
  | nil =>
      obtain ⟨rfl, rfl⟩ := cutsAfter_nil.1 h
      rfl
  | cons c s ih =>
      rw [List.cons_append]
      by_cases hcut : c = ',' ∧ CutsAfter depth st []
      · obtain ⟨rfl, hcut⟩ := hcut
        obtain ⟨rfl, rfl⟩ := cutsAfter_nil.1 hcut
        rw [pieces_comma, pieces_comma, ih ((cutsAfter_cons_comma s).1 h), List.cons_append]
      · rw [pieces_kept hcut, pieces_kept hcut, ih ((cutsAfter_cons c s).1 h),
          prepend_append (pieces_ne_nil _ _ _)]

/-- Behind any other character the last piece is not empty. -/
theorem getLast?_pieces_concat {s : List Char} {c : Char}
    (h : ¬(c = ',' ∧ CutsAfter depth st s)) : (pieces depth st (s ++ [c])).getLast? ≠ some [] := by
  induction s generalizing depth st with
  | nil =>
      rw [List.nil_append, pieces_kept h]
      simp [pieces, prepend]
  | cons d s ih =>
      rw [List.cons_append]
      by_cases hcut : d = ',' ∧ CutsAfter depth st []
      · obtain ⟨rfl, hcut⟩ := hcut
        obtain ⟨rfl, rfl⟩ := cutsAfter_nil.1 hcut
        have hrest := ih (mt (And.imp_right (cutsAfter_cons_comma s).2) h)
        obtain ⟨piece, ps, hps⟩ := List.exists_cons_of_ne_nil (pieces_ne_nil 0 .outside (s ++ [c]))
        rwa [pieces_comma, hps, List.getLast?_cons_cons, ← hps]
      · rw [pieces_kept hcut]
        exact mt getLast?_prepend (ih (mt (And.imp_right (cutsAfter_cons d s).2) h))

end

/-! ### Arguments -/

/-- Joining the arguments of a text gives the text, up to a comma at its end that cuts. -/
theorem intercalate_argumentsOf (t : List Char) : [','].intercalate (argumentsOf t) =
    if t.getLast? = some ',' ∧ CutsAfter 0 .outside t.dropLast then t.dropLast else t := by
  rcases List.eq_nil_or_concat t with rfl | ⟨s, c, rfl⟩
  · rfl
  · simp only [List.concat_eq_append, List.getLast?_concat, List.dropLast_concat, Option.some_inj]
    by_cases hcut : c = ',' ∧ CutsAfter 0 .outside s
    · obtain ⟨rfl, hcut⟩ := hcut
      have hall : argumentsOf (s ++ [',']) = pieces 0 .outside s := by
        rw [argumentsOf, pieces_concat_comma hcut]
        simp
      rw [if_pos ⟨rfl, hcut⟩, hall, intercalate_pieces]
    · have hall : argumentsOf (s ++ [c]) = pieces 0 .outside (s ++ [c]) :=
        if_neg (getLast?_pieces_concat hcut)
      rw [if_neg hcut, hall, intercalate_pieces]

/-- The text can stand between two commas of a call: its literals are closed, it closes as many
parentheses as it opens, and none of its own commas cuts. The depth may go below zero on the way. -/
structure IsArgument (x : List Char) : Prop where
  whole : CutsAfter 0 .outside x
  comma : ∀ i < x.length, x[i]? = some ',' → ¬CutsAfter 0 .outside (x.take i)

instance (x : List Char) : Decidable (IsArgument x) :=
  decidable_of_iff (CutsAfter 0 .outside x ∧
      ∀ i < x.length, x[i]? = some ',' → ¬CutsAfter 0 .outside (x.take i))
    ⟨fun h => ⟨h.1, h.2⟩, fun h => ⟨h.whole, h.comma⟩⟩

/-- A text without a comma that cuts goes to one piece, and the scan is behind it then. -/
theorem pieces_append_of_comma {depth : Int} {st : QuoteState} {x : List Char}
    (h : ∀ i < x.length, x[i]? = some ',' → ¬CutsAfter depth st (x.take i)) (rest : List Char) :
    pieces depth st (x ++ rest) = glue x (pieces (depth + level st x) (st.run x) rest) := by
  induction x generalizing depth st with
  | nil => simp [level]
  | cons c x ih =>
      have hcut : ¬(c = ',' ∧ CutsAfter depth st []) := fun hcut =>
        h 0 (by simp) (by simp [hcut.1]) hcut.2
      have hrest : ∀ i < x.length, x[i]? = some ',' →
          ¬CutsAfter (depth + (punctuation st c).weight) (st.step c) (x.take i) := by
        intro i hi hcomma
        rw [← cutsAfter_cons]
        exact h (i + 1) (by simpa using hi) (by simpa using hcomma)
      rw [List.cons_append, pieces_kept hcut, ih hrest, glue_cons, level, QuoteState.run_cons,
        Int.add_assoc]

theorem IsArgument.uncut {x : List Char} (h : IsArgument x) : Uncut x := by
  intro rest
  rw [pieces_append_of_comma h.comma, h.whole.1, h.whole.2]

/-- Cutting and joining undo each other. The arguments of any text, joined again, are the text, or
the text without its last character if that is a comma that cuts. And arguments that are joined come
back when they are cut apart, unless the last one is empty. -/
theorem argumentsOf_inverse :
    (∀ t, [','].intercalate (argumentsOf t) =
      if t.getLast? = some ',' ∧ CutsAfter 0 .outside t.dropLast then t.dropLast else t) ∧
    ∀ xs, (∀ x ∈ xs, IsArgument x) → xs.getLast? ≠ some [] →
      argumentsOf ([','].intercalate xs) = xs := by
  refine ⟨intercalate_argumentsOf, fun xs hxs hlast => ?_⟩
  exact Uncut.argumentsOf_intercalate (fun x hx => (hxs x hx).uncut) hlast

theorem argumentsOf_inverse_nested :
    let xs := ["f(1,(2))".toList, " \"b,(\"".toList, [], "'x\\','".toList]
    (∀ x ∈ xs, IsArgument x) ∧ xs.getLast? ≠ some [] ∧ argumentsOf ([','].intercalate xs) = xs := by
  intro xs
  have hxs : ∀ x ∈ xs, IsArgument x := by decide
  have hlast : xs.getLast? ≠ some [] := by decide
  exact ⟨hxs, hlast, argumentsOf_inverse.2 xs hxs hlast⟩

end SheetBoard.Formula
