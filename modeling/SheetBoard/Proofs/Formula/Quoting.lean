import SheetBoard.Formula.Literal

/-! What the automaton of literals does with plain text and with a quoted text, and how editing
outside literals goes along with joining texts. -/

namespace SheetBoard.Formula

/-- A property of the characters of a text is decided along the text. It has to come before any
instance that would go through all characters there are. -/
instance (priority := 2000) decidableForallText (p : Char → Prop) [DecidablePred p]
    (cs : List Char) : Decidable (∀ c ∈ cs, p c) :=
  List.decidableBAll p cs

instance (priority := 2000) decidableForallChar (p : Char → Prop) [DecidablePred p]
    (c : Option Char) : Decidable (∀ d ∈ c, p d) :=
  Option.decidableForallMem c

/-- No character of the text opens a literal. -/
def Unquoted (cs : List Char) : Prop := ∀ c ∈ cs, isQuote c = false

instance (cs : List Char) : Decidable (Unquoted cs) :=
  inferInstanceAs (Decidable (∀ c ∈ cs, isQuote c = false))

theorem Unquoted.append {a b : List Char} (ha : Unquoted a) (hb : Unquoted b) :
    Unquoted (a ++ b) := by
  intro c hc
  rcases List.mem_append.mp hc with hc | hc
  · exact ha c hc
  · exact hb c hc

theorem isQuote_eq_false_of_isBlank {c : Char} (hc : Text.isBlank c = true) :
    isQuote c = false := by
  cases hquote : isQuote c with
  | false => rfl
  | true =>
      obtain rfl | rfl : c = '"' ∨ c = '\'' := by simpa [isQuote] using hquote
      all_goals cases hc

theorem notMem_of_isBlank {c : Char} (hc : Text.isBlank c = true) {cs : List Char}
    (hcs : ∀ d ∈ cs, Text.isBlank d = false) : c ∉ cs := by
  intro hmem
  rw [hcs c hmem] at hc
  cases hc

/-! ### The automaton along a text -/

@[simp] theorem QuoteState.run_nil (st : QuoteState) : st.run [] = st := rfl

@[simp] theorem QuoteState.run_cons (st : QuoteState) (c : Char) (cs : List Char) :
    st.run (c :: cs) = (st.step c).run cs := rfl

@[simp] theorem QuoteState.run_append (st : QuoteState) (a b : List Char) :
    st.run (a ++ b) = (st.run a).run b :=
  List.foldl_append

@[simp] theorem QuoteState.step_open : QuoteState.outside.step '"' = .inside '"' := rfl

@[simp] theorem QuoteState.step_close : (QuoteState.inside '"').step '"' = .outside := rfl

theorem QuoteState.step_outside {c : Char} (h : isQuote c = false) :
    QuoteState.outside.step c = .outside :=
  if_neg (Bool.eq_false_iff.1 h)

theorem QuoteState.step_mark {c : Char} (h : isQuote c = true) :
    QuoteState.outside.step c = .inside c :=
  if_pos h

theorem QuoteState.step_inside {mark c : Char} (hmark : c ≠ mark) (hslash : c ≠ '\\') :
    (QuoteState.inside mark).step c = .inside mark :=
  (if_neg hslash).trans (if_neg hmark)

@[simp] theorem QuoteState.step_slash (mark : Char) :
    (QuoteState.inside mark).step '\\' = .escaped mark := rfl

@[simp] theorem QuoteState.step_escaped (mark c : Char) :
    (QuoteState.escaped mark).step c = .inside mark := rfl

theorem Unquoted.run {cs : List Char} (h : Unquoted cs) :
    QuoteState.outside.run cs = .outside := by
  induction cs with
  | nil => rfl
  | cons c cs ih =>
      rw [QuoteState.run_cons, QuoteState.step_outside (h c (by simp))]
      exact ih fun d hd => h d (by simp [hd])

@[simp] theorem escape_nil : escape [] = [] := rfl

theorem escape_cons (c : Char) (cs : List Char) :
    escape (c :: cs) = (if c = '"' || c = '\\' then ['\\', c] else [c]) ++ escape cs := by
  simp [escape]

theorem quote_append (s cs : List Char) : quote s ++ cs = '"' :: (escape s ++ '"' :: cs) := by
  simp [quote]

/-- A mark or a backslash stands in the text only behind a backslash. -/
inductive Escaped : List Char → Prop
  | nil : Escaped []
  | plain {c : Char} {cs : List Char} (hmark : c ≠ '"') (hslash : c ≠ '\\') (h : Escaped cs) :
      Escaped (c :: cs)
  | slash (c : Char) {cs : List Char} (h : Escaped cs) : Escaped ('\\' :: c :: cs)

theorem escaped_escape (s : List Char) : Escaped (escape s) := by
  induction s with
  | nil => exact .nil
  | cons c s ih =>
      rw [escape_cons]
      by_cases hc : c = '"' ∨ c = '\\'
      · simpa [hc] using ih.slash c
      · obtain ⟨hmark, hslash⟩ := not_or.mp hc
        simpa [hmark, hslash] using ih.plain hmark hslash

/-- Escaped text never leaves the literal it stands in. -/
theorem Escaped.run {cs : List Char} (h : Escaped cs) :
    (QuoteState.inside '"').run cs = .inside '"' := by
  induction h with
  | nil => rfl
  | plain hmark hslash _ ih => rwa [QuoteState.run_cons, QuoteState.step_inside hmark hslash]
  | slash c _ ih => simpa using ih

@[simp] theorem run_quote (cs : List Char) : QuoteState.outside.run (quote cs) = .outside := by
  simp [quote, (escaped_escape cs).run]

/-! ### Cutting a text -/

theorem stretchesFrom_nil (st : QuoteState) (held : List Char) :
    stretchesFrom st held [] = closeStretch st held := rfl

theorem stretchesFrom_cons (st : QuoteState) (held : List Char) (c : Char) (cs : List Char) :
    stretchesFrom st held (c :: cs) =
      if st = .outside then
        if st.step c = .outside then stretchesFrom .outside (c :: held) cs
        else closeStretch .outside held ++ stretchesFrom (st.step c) [c] cs
      else if st.step c = .outside then
        .literal (c :: held).reverse :: stretchesFrom .outside [] cs
      else stretchesFrom (st.step c) (c :: held) cs := by
  rw [stretchesFrom.eq_def]
  dsimp only
  split <;> simp_all

theorem stretchesFrom_open {c : Char} (hstep : QuoteState.outside.step c ≠ .outside)
    (held cs : List Char) : stretchesFrom .outside held (c :: cs) =
      closeStretch .outside held ++ stretchesFrom (QuoteState.outside.step c) [c] cs := by
  rw [stretchesFrom_cons, if_pos rfl, if_neg hstep]

theorem stretchesFrom_close {st : QuoteState} {c : Char} (hst : st ≠ .outside)
    (hstep : st.step c = .outside) (held cs : List Char) : stretchesFrom st held (c :: cs) =
      .literal (c :: held).reverse :: stretchesFrom .outside [] cs := by
  rw [stretchesFrom_cons, if_neg hst, if_pos hstep]

theorem stretchesFrom_inside {st : QuoteState} {c : Char} (hst : st ≠ .outside)
    (hstep : st.step c ≠ .outside) (held cs : List Char) : stretchesFrom st held (c :: cs) =
      stretchesFrom (st.step c) (c :: held) cs := by
  rw [stretchesFrom_cons, if_neg hst, if_neg hstep]

theorem stretchesFrom_unquoted {a : List Char} (ha : Unquoted a) (held rest : List Char) :
    stretchesFrom .outside held (a ++ rest) = stretchesFrom .outside (a.reverse ++ held) rest := by
  induction a generalizing held with
  | nil => rfl
  | cons c a ih =>
      have hc := QuoteState.step_outside (ha c (by simp))
      rw [List.cons_append, stretchesFrom_cons, if_pos rfl, if_pos hc,
        ih fun d hd => ha d (by simp [hd])]
      simp

theorem Escaped.stretchesFrom {cs : List Char} (h : Escaped cs) (held rest : List Char) :
    Formula.stretchesFrom (.inside '"') held (cs ++ rest) =
      Formula.stretchesFrom (.inside '"') (cs.reverse ++ held) rest := by
  induction h generalizing held with
  | nil => rfl
  | plain hmark hslash _ ih =>
      simp [stretchesFrom_cons, QuoteState.step_inside hmark hslash, ih]
  | slash c _ ih => simp [stretchesFrom_cons, ih]

/-- A quoted text is a stretch of its own: what is held ends before it. -/
theorem stretchesFrom_quote (held cs rest : List Char) :
    stretchesFrom .outside held (quote cs ++ rest) =
      closeStretch .outside held ++ .literal (quote cs) :: stretchesFrom .outside [] rest := by
  have hinside : stretchesFrom (.inside '"') ['"'] (escape cs ++ '"' :: rest) =
      .literal (quote cs) :: stretchesFrom .outside [] rest := by
    rw [(escaped_escape cs).stretchesFrom]
    simp [stretchesFrom_cons, quote]
  simp [quote, stretchesFrom_cons, hinside]

/-! ### Editing outside literals -/

theorem editUnquoted_eq_self_of_unquoted (edit : List Char → List Char) {a : List Char}
    (ha : Unquoted a) (hempty : edit [] = []) : editUnquoted edit a = edit a := by
  have hcut := stretchesFrom_unquoted ha [] []
  rw [List.append_nil, List.append_nil] at hcut
  unfold editUnquoted stretches
  rw [hcut]
  cases a with
  | nil => simp [stretchesFrom_nil, closeStretch, hempty]
  | cons c a => simp [stretchesFrom_nil, closeStretch]

theorem editUnquoted_append_quote (edit : List Char → List Char) {a : List Char}
    (ha : Unquoted a) (hempty : edit [] = []) (cs rest : List Char) :
    editUnquoted edit (a ++ quote cs ++ rest) = edit a ++ quote cs ++ editUnquoted edit rest := by
  have hcut : stretches (a ++ quote cs ++ rest) =
      closeStretch .outside a.reverse ++ .literal (quote cs) :: stretches rest := by
    unfold stretches
    rw [List.append_assoc, stretchesFrom_unquoted ha, List.append_nil, stretchesFrom_quote]
  unfold editUnquoted
  rw [hcut]
  cases a with
  | nil => simp [closeStretch, hempty]
  | cons c a => simp [closeStretch]

end SheetBoard.Formula
