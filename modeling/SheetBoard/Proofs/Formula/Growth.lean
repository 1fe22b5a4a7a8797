import SheetBoard.Proofs.Formula.Statements

/-! The growth formula in trees. It is found only where a call of that form was written, so a tree
without such a call is left as it is. -/

namespace SheetBoard.Formula

/-! ### Patterns that are found nowhere -/

/-- Nowhere outside literals does `bad` hold of the text from there on. -/
def Nowhere (bad : List Char → Prop) : QuoteState → List Char → Prop
  | _, [] => True
  | st, c :: cs => (st = .outside → ¬bad (c :: cs)) ∧ Nowhere bad (st.step c) cs

section

variable {α : Type} {find : Pattern α} {form : Option Char → α → List Char → Option (List Char)}
  {bad : List Char → Prop}

theorem replaceAll_eq_self {cs : List Char}
    (h : ∀ before, ∀ y, y <:+ cs → find before y = none) : replaceAll find form cs = cs := by
  rw [replaceAll_eq]
  generalize (none : Option Char) = before
  induction cs generalizing before with
  | nil => rfl
  | cons c cs ih =>
      have hc : Replaces (editOf find form) before [c] [c] cs :=
        replaces_char (h before _ (List.suffix_refl _))
      have htail := ih (fun before y hy => h before y (hy.trans (List.suffix_cons c cs))) (some c)
      unfold Replaces at hc
      rw [List.singleton_append] at hc
      rw [hc, List.singleton_append]
      exact congrArg (c :: ·) htail

section

variable (hmono : ∀ a b, bad a → bad (a ++ b)) {edit : List Char → List Char}
  (hedit : ∀ x, (∀ y, y <:+ x → y ≠ [] → ¬bad y) → edit x = x)

include hedit

theorem editClosed_eq {st : QuoteState} {held : List Char}
    (h : st = .outside → ∀ y, y <:+ held.reverse → y ≠ [] → ¬bad y) :
    (closeStretch st held).flatMap (fun
      | .plain text => edit text
      | .literal text => text) = held.reverse := by
  unfold closeStretch
  split
  · simp_all
  · split
    · rename_i hst
      simpa using hedit _ (h hst)
    · simp

include hmono

/-- The characters in `held` are those of the stretch so far. -/
theorem editStretches_eq {st : QuoteState} {held cs : List Char}
    (hheld : st = .outside → ∀ y, y <:+ held.reverse → y ≠ [] → ¬bad (y ++ cs))
    (h : Nowhere bad st cs) :
    (stretchesFrom st held cs).flatMap (fun
      | .plain text => edit text
      | .literal text => text) = held.reverse ++ cs := by
  induction cs generalizing st held with
  | nil =>
      have hclear : st = .outside → ∀ y, y <:+ held.reverse → y ≠ [] → ¬bad y :=
        fun hst y hy hne hbad => hheld hst y hy hne (hmono y [] hbad)
      simpa [stretchesFrom] using editClosed_eq hedit hclear
  | cons c cs ih =>
      obtain ⟨hhere, hrest⟩ := h
      by_cases hst : st = .outside
      · subst hst
        by_cases hstep : QuoteState.outside.step c = .outside
        · -- The stretch goes on, and a place in it is one in `held` or the one at `c`.
          rw [hstep] at hrest
          have hplaces : ∀ y, y <:+ (c :: held).reverse → y ≠ [] → ¬bad (y ++ cs) := by
            intro y hy hne
            rw [List.reverse_cons] at hy
            rcases List.suffix_concat_iff.1 hy with rfl | ⟨z, rfl, hz⟩
            · exact absurd rfl hne
            · rw [List.append_assoc, List.singleton_append]
              cases z with
              | nil => exact hhere rfl
              | cons d z => exact hheld rfl (d :: z) hz (by simp)
          simpa [stretchesFrom, hstep] using ih (fun _ => hplaces) hrest
        · have hclear : ∀ y, y <:+ held.reverse → y ≠ [] → ¬bad y :=
            fun y hy hne hbad => hheld rfl y hy hne (hmono y (c :: cs) hbad)
          rw [stretchesFrom_open hstep, List.flatMap_append, editClosed_eq hedit fun _ => hclear,
            ih (fun hst => absurd hst hstep) hrest]
          simp
      · by_cases hstep : st.step c = .outside
        · rw [hstep] at hrest
          rw [stretchesFrom_close hst hstep, List.flatMap_cons,
            ih (fun _ y hy hne => absurd (List.suffix_nil.1 hy) hne) hrest]
          simp
        · rw [stretchesFrom_inside hst hstep, ih (fun h => absurd h hstep) hrest]
          simp

end

/-- A pattern that is found nowhere changes nothing. -/
theorem editUnquoted_eq_self (hmono : ∀ a b, bad a → bad (a ++ b))
    (hfind : ∀ before cs, (∀ y, y <:+ cs → y ≠ [] → ¬bad y) → find before cs = none)
    {cs : List Char} (h : Nowhere bad .outside cs) :
    editUnquoted (replaceAll find form) cs = cs := by
  have hedit : ∀ x, (∀ y, y <:+ x → y ≠ [] → ¬bad y) → replaceAll find form x = x :=
    fun x hx => replaceAll_eq_self fun before y hy => hfind before y fun z hz => hx z (hz.trans hy)
  exact editStretches_eq hmono hedit (fun _ y hy hne => absurd (List.suffix_nil.1 hy) hne) h

end

/-! ### Where the growth formula stands -/

/-- The text starts with a growth formula. -/
def StartsGrowth (cs : List Char) : Prop :=
  ∃ w x y z rest, w.map Char.toUpper = "AVERAGE".toList ∧ IsRangeText x ∧ IsRangeText y ∧
    IsRangeText z ∧ cs = w ++ '(' :: (growthText x y z ++ ')' :: rest)

/-- The text has no blanks. -/
def Solid (cs : List Char) : Prop := ∀ d ∈ cs, Text.isBlank d = false

theorem Solid.trimStart {cs : List Char} (h : Solid cs) : Text.trimStart cs = cs := by
  cases cs with
  | nil => rfl
  | cons c cs => exact List.dropWhile_cons_of_neg (by simp [h c (by simp)])

theorem Solid.right {a b : List Char} (h : Solid (a ++ b)) : Solid b :=
  fun d hd => h d (by simp [hd])

theorem Solid.tail {c : Char} {cs : List Char} (h : Solid (c :: cs)) : Solid cs :=
  Solid.right (a := [c]) h

theorem Solid.passMark? {c : Char} {cs rest : List Char} (hsolid : Solid cs)
    (h : passMark? c cs = some rest) : cs = c :: rest := by
  rw [Formula.passMark?, hsolid.trimStart] at h
  split at h
  · split at h
    · simp_all
    · cases h
  · cases h

theorem isReference_of_read? {cs tail : List Char} {r : Reference}
    (h : Reference.read? cs = some (r, tail)) : isReference (r.letters ++ r.digits) = true := by
  obtain ⟨letters, hletters, hdigits⟩ := capitals_of_read? h
  rw [← hletters]
  exact isReference_letters letters hdigits

theorem Solid.readRange? {cs letters rest : List Char} (hsolid : Solid cs)
    (h : readRange? cs = some (letters, rest)) : ∃ x, IsRangeText x ∧ cs = x ++ rest := by
  simp only [Formula.readRange?, hsolid.trimStart, Option.bind_eq_bind,
    Option.bind_eq_some_iff] at h
  obtain ⟨⟨r, tail⟩, hread, h⟩ := h
  dsimp only at h
  split at h
  · rename_i after
    obtain ⟨-, rfl⟩ := Prod.mk.inj (Option.some.inj h)
    have hcs := eq_append_of_read? hread
    refine ⟨r.letters ++ r.digits ++ ':' :: (after.takeWhile Text.isDecimalDigit ++
      (after.dropWhile Text.isDecimalDigit).takeWhile isCapital), ?_, ?_⟩
    · exact ⟨r.letters ++ r.digits, _, _, isReference_of_read? hread,
        List.all_eq_true.1 List.all_takeWhile, List.all_eq_true.1 List.all_takeWhile, rfl⟩
    · rw [hcs]
      simp
  · cases h

/-- Where there are no blanks, the formula is found only where it stands. -/
theorem Solid.startsGrowth {before : Option Char} {cs rest : List Char}
    {found : List Char × List Char} (hsolid : Solid cs)
    (h : growthFormula before cs = some (found, rest)) : StartsGrowth cs := by
  unfold growthFormula at h
  obtain ⟨_, hword, h⟩ := Option.bind_eq_some_iff.1 h
  rw [guard_eq_ite] at hword
  split at h
  · rename_i r₀ hdrop
    obtain ⟨_, ⟨rfl⟩, h⟩ := Option.bind_eq_some_iff.1 h
    -- One step for each mark and each range, in the order of the formula.
    obtain ⟨r₁, h₁, h⟩ := Option.bind_eq_some_iff.1 h
    obtain ⟨r₂, h₂, h⟩ := Option.bind_eq_some_iff.1 h
    obtain ⟨⟨_, r₃⟩, h₃, h⟩ := Option.bind_eq_some_iff.1 h
    obtain ⟨r₄, h₄, h⟩ := Option.bind_eq_some_iff.1 h
    obtain ⟨⟨_, r₅⟩, h₅, h⟩ := Option.bind_eq_some_iff.1 h
    obtain ⟨r₆, h₆, h⟩ := Option.bind_eq_some_iff.1 h
    obtain ⟨r₇, h₇, h⟩ := Option.bind_eq_some_iff.1 h
    obtain ⟨⟨_, r₈⟩, h₈, h⟩ := Option.bind_eq_some_iff.1 h
    obtain ⟨r₉, h₉, h⟩ := Option.bind_eq_some_iff.1 h
    obtain ⟨r₁₀, h₁₀, h⟩ := Option.bind_eq_some_iff.1 h
    dsimp only at h
    split at h
    · rename_i r₁₁ hhundred
      obtain ⟨_, ⟨rfl⟩, h⟩ := Option.bind_eq_some_iff.1 h
      obtain ⟨r₁₂, h₁₂, -⟩ := Option.bind_eq_some_iff.1 h
      have hcs := List.take_append_drop "AVERAGE".toList.length cs
      rw [hdrop] at hcs
      generalize cs.take "AVERAGE".toList.length = w at hcs hword
      subst hcs
      have s₀ : Solid r₀ := hsolid.right.tail
      obtain rfl := s₀.passMark? h₁
      obtain rfl := s₀.tail.passMark? h₂
      obtain ⟨x, hx, rfl⟩ := s₀.tail.tail.readRange? h₃
      have s₃ : Solid r₃ := s₀.tail.tail.right
      obtain rfl := s₃.passMark? h₄
      obtain ⟨y, hy, rfl⟩ := s₃.tail.readRange? h₅
      have s₅ : Solid r₅ := s₃.tail.right
      obtain rfl := s₅.passMark? h₆
      obtain rfl := s₅.tail.passMark? h₇
      obtain ⟨z, hz, rfl⟩ := s₅.tail.tail.readRange? h₈
      have s₈ : Solid r₈ := s₅.tail.tail.right
      obtain rfl := s₈.passMark? h₉
      obtain rfl := s₈.tail.passMark? h₁₀
      rw [s₈.tail.tail.trimStart] at hhundred
      subst hhundred
      obtain rfl := s₈.tail.tail.tail.tail.tail.passMark? h₁₂
      refine ⟨w, x, y, z, r₁₂, ?_, hx, hy, hz, ?_⟩
      · split at hword
        · rename_i hsame
          exact eq_of_beq hsame
        · cases hword
      · simp [growthText]
    · cases h
  · cases h

/-! ### Growth in trees -/

/-- A place that the growth formula would change, as far as one can tell without its blanks. -/
def Suspect (cs : List Char) : Prop := cs.head?.any Text.isBlank = true ∨ StartsGrowth cs

theorem Suspect.append {a : List Char} (h : Suspect a) (b : List Char) : Suspect (a ++ b) := by
  rcases h with h | ⟨w, x, y, z, rest, hw, hx, hy, hz, rfl⟩
  · exact .inl (any_head?_append h b)
  · exact .inr ⟨w, x, y, z, rest ++ b, hw, hx, hy, hz, by simp⟩

theorem growthFormula_eq_none {before : Option Char} {cs : List Char}
    (h : ∀ y, y <:+ cs → y ≠ [] → ¬Suspect y) : growthFormula before cs = none := by
  have hsolid : Solid cs := by
    intro d hd
    obtain ⟨front, back, rfl⟩ := List.append_of_mem hd
    have hplace := h (d :: back) (List.suffix_append front (d :: back)) (by simp)
    cases hblank : Text.isBlank d with
    | false => rfl
    | true => exact absurd (.inl (by simpa using hblank)) hplace
  cases hfound : growthFormula before cs with
  | none => rfl
  | some result =>
      have hstarts : StartsGrowth cs := hsolid.startsGrowth hfound
      have hne : cs ≠ [] := by
        obtain ⟨w, x, y, z, rest, -, -, -, -, rfl⟩ := hstarts
        simp
      exact absurd (.inr hstarts) (h cs (List.suffix_refl cs) hne)

/-- Nothing suspect stands in `x`, where `rest` follows. -/
def Passed (x rest : List Char) : Prop :=
  Nowhere Suspect .outside rest → Nowhere Suspect .outside (x ++ rest)

theorem Passed.append {x y rest : List Char} (hx : Passed x (y ++ rest)) (hy : Passed y rest) :
    Passed (x ++ y) rest := by
  intro h
  rw [List.append_assoc]
  exact hx (hy h)

theorem passed_char {c : Char} {rest : List Char} (hquote : isQuote c = false)
    (hc : ¬Suspect (c :: rest)) : Passed [c] rest := by
  intro h
  refine ⟨fun _ => hc, ?_⟩
  rwa [QuoteState.step_outside hquote]

/-- The word of the growth formula is a name. -/
theorem isNameStart_of_average {w : List Char} (hw : w.map Char.toUpper = "AVERAGE".toList) :
    ∀ c ∈ w, isNameStart c = true := by
  intro c hc
  have hmem : c.toUpper ∈ "AVERAGE".toList := by
    rw [← hw]
    exact List.mem_map_of_mem hc
  have hcapital : ∀ d ∈ "AVERAGE".toList, isCapital d = true := by decide
  exact isNameStart_of_isCapital_toUpper (hcapital _ hmem)

theorem not_suspect_cons {c : Char} (hstart : isNameStart c = false)
    (hblank : Text.isBlank c = false) (rest : List Char) : ¬Suspect (c :: rest) := by
  rintro (hhead | ⟨w, _, _, _, _, hw, -, -, -, hcs⟩)
  · rw [List.head?_cons, Option.any_some, hblank] at hhead
    cases hhead
  · cases w with
    | nil => cases hw
    | cons d w =>
        obtain rfl : c = d := (List.cons.inj hcs).1
        rw [isNameStart_of_average hw c (by simp)] at hstart
        cases hstart

theorem passed_plain {x rest : List Char}
    (hx : ∀ c ∈ x, isNameStart c = false ∧ isQuote c = false ∧ Text.isBlank c = false) :
    Passed x rest := by
  induction x with
  | nil => exact id
  | cons c x ih =>
      obtain ⟨hstart, hquote, hblank⟩ := hx c (by simp)
      exact Passed.append (x := [c]) (passed_char hquote (not_suspect_cons hstart hblank _))
        (ih fun d hd => hx d (by simp [hd]))

theorem passed_name {w rest : List Char} (hw : ∀ c ∈ w, isNameChar c = true)
    (hgrowth : ∀ v, v <:+ w → ¬StartsGrowth (v ++ rest)) : Passed w rest := by
  induction w with
  | nil => exact id
  | cons c w ih =>
      have hname := hw c (by simp)
      have hc : ¬Suspect (c :: (w ++ rest)) := by
        rintro (hhead | hstarts)
        · rw [List.head?_cons, Option.any_some, isBlank_of_isNameChar hname] at hhead
          cases hhead
        · exact hgrowth (c :: w) (List.suffix_refl _) hstarts
      refine Passed.append (x := [c]) (passed_char (isQuote_of_isNameChar hname) hc) ?_
      exact ih (fun d hd => hw d (by simp [hd])) fun v hv =>
        hgrowth v (hv.trans (List.suffix_cons c w))

theorem nowhere_escaped {x rest : List Char} (hx : Escaped x)
    (h : Nowhere Suspect (.inside '"') rest) : Nowhere Suspect (.inside '"') (x ++ rest) := by
  induction hx with
  | nil => exact h
  | plain hmark hslash _ ih => simpa [hmark, hslash, Nowhere, QuoteState.step] using ih
  | slash c _ ih => simpa [Nowhere, QuoteState.step] using ih

theorem passed_quote (s rest : List Char) : Passed (quote s) rest := by
  intro h
  rw [quote_append]
  have hclosed : Nowhere Suspect (.inside '"') ('"' :: rest) := ⟨by simp, h⟩
  exact ⟨fun _ => not_suspect_cons (by decide) (by decide +kernel) _,
    nowhere_escaped (escaped_escape s) hclosed⟩

/-- A name in front of the rest of a text is the word that the text starts with. -/
theorem eq_of_average_append {v w rest tail : List Char} (hv : ∀ c ∈ v, isNameChar c = true)
    (hrest : rest.head?.any isNameChar = false) (hw : w.map Char.toUpper = "AVERAGE".toList)
    (h : v ++ rest = w ++ '(' :: tail) : v = w ∧ rest = '(' :: tail := by
  have hnames : ∀ c ∈ w, isNameChar c = true :=
    fun c hc => isNameChar_of_isNameStart (isNameStart_of_average hw c hc)
  have htake := congrArg (List.takeWhile isNameChar) h
  have hdrop := congrArg (List.dropWhile isNameChar) h
  rw [Number.takeWhile_append_of_all hv hrest, Number.takeWhile_append_of_all hnames rfl] at htake
  rw [Number.dropWhile_append_of_all hv hrest, Number.dropWhile_append_of_all hnames rfl] at hdrop
  exact ⟨htake, hdrop⟩

/-- A name is the word of a growth formula only in front of a parenthesis. -/
theorem startsGrowth_name {v rest : List Char} (hv : ∀ c ∈ v, isNameChar c = true)
    (hrest : rest.head?.any isNameChar = false) (h : StartsGrowth (v ++ rest)) :
    v.map Char.toUpper = "AVERAGE".toList ∧ ∃ x y z tail, IsRangeText x ∧ IsRangeText y ∧
      IsRangeText z ∧ rest = '(' :: (growthText x y z ++ ')' :: tail) := by
  obtain ⟨w, x, y, z, tail, hw, hx, hy, hz, hcs⟩ := h
  obtain ⟨rfl, hafter⟩ := eq_of_average_append hv hrest hw hcs
  exact ⟨hw, x, y, z, tail, hx, hy, hz, hafter⟩

theorem passed_isName {x rest : List Char} (hx : IsName x)
    (hrest : rest.head?.any isNameChar = false) (hleft : rest.head? ≠ some '(') :
    Passed x rest := by
  refine passed_name hx.all fun v hv hstarts => ?_
  have hchars : ∀ c ∈ v, isNameChar c = true := fun c hc => hx.all c (hv.subset hc)
  obtain ⟨-, _, _, _, _, -, -, -, rfl⟩ := startsGrowth_name hchars hrest hstarts
  exact hleft rfl

/-! ### The argument of a growth formula -/

theorem capital_or_digit_of_isReference {cs : List Char} (h : isReference cs = true) :
    ∀ c ∈ cs, isCapital c = true ∨ Text.isDecimalDigit c = true := by
  intro c hc
  rw [← List.takeWhile_append_dropWhile (p := isCapital) (l := cs)] at hc
  rcases List.mem_append.1 hc with hc | hc
  · exact .inl (List.all_eq_true.1 List.all_takeWhile c hc)
  · -- Nothing is left behind the digits, so they are all of the tail.
    have hrest : (cs.dropWhile isCapital).dropWhile Text.isDecimalDigit = [] := by
      simp only [isReference, Reference.read?] at h
      split at h
      · rename_i hread
        split at hread
        · cases hread
        · simp_all
      · cases h
    have htail := List.takeWhile_append_dropWhile (p := Text.isDecimalDigit)
      (l := cs.dropWhile isCapital)
    rw [hrest, List.append_nil] at htail
    rw [← htail] at hc
    exact .inr (List.all_eq_true.1 List.all_takeWhile c hc)

theorem IsRangeText.capital_or_digit {x : List Char} (h : IsRangeText x) :
    ∀ c ∈ x, isCapital c = true ∨ Text.isDecimalDigit c = true ∨ c = ':' := by
  obtain ⟨first, digits, letters, hfirst, hdigits, hletters, rfl⟩ := h
  intro c hc
  rcases List.mem_append.1 hc with hc | hc
  · exact (capital_or_digit_of_isReference hfirst c hc).imp_right .inl
  · rcases List.mem_cons.1 hc with rfl | hc
    · exact .inr (.inr rfl)
    · rcases List.mem_append.1 hc with hc | hc
      · exact .inr (.inl (hdigits c hc))
      · exact .inl (hletters c hc)

theorem IsRangeText.nested {x : List Char} (h : IsRangeText x) {depth : Nat} : Nested depth x := by
  have hsign : (['"', '\'', '(', ')', ','].all fun d =>
      !isCapital d && !Text.isDecimalDigit d && d != ':') = true := by decide +kernel
  have hne : ∀ c ∈ x, ∀ d ∈ ['"', '\'', '(', ')', ','], c ≠ d := by
    rintro c hc d hd rfl
    have hother := List.all_eq_true.1 hsign c hd
    rcases h.capital_or_digit c hc with hc | hc | hc
    · simp [hc] at hother
    · simp [hc] at hother
    · simp [hc] at hother
  refine .plain fun c hc => ?_
  have hquote : isQuote c = false := by
    simp [isQuote, hne c hc '"' (by simp), hne c hc '\'' (by simp)]
  exact ⟨hquote, hne c hc '(' (by simp), hne c hc ')' (by simp), hne c hc ',' (by simp)⟩

theorem nested_growthText {x y z : List Char} (hx : IsRangeText x) (hy : IsRangeText y)
    (hz : IsRangeText z) : Nested 0 (growthText x y z) := by
  have hminus : Nested 2 ['-'] := .plain (by decide)
  have hslash : Nested 1 ['/'] := .plain (by decide)
  have hhundred : Nested 0 ['*', '1', '0', '0'] := .plain (by decide)
  have hchange : Nested 1 ('(' :: (x ++ (['-'] ++ y)) ++ [')']) :=
    .group (hx.nested.append (hminus.append hy.nested))
  have hgrowth := (hchange.append (hslash.append hz.nested)).group.append hhundred
  simpa [growthText] using hgrowth

/-- A call whose text is an average growth is one. -/
theorem isGrowth_of_startsGrowth {name v : List Char} {arguments : List (List Char)}
    (hname : IsName name) (hv : v <:+ name) (hnested : ∀ a ∈ arguments, Nested 0 a ∧ a ≠ [])
    {rest : List Char}
    (h : StartsGrowth (v ++ '(' :: ([','].intercalate arguments ++ ')' :: rest))) :
    IsGrowth name arguments := by
  have hchars : ∀ c ∈ v, isNameChar c = true := fun c hc => hname.all c (hv.subset hc)
  obtain ⟨hword, x, y, z, tail, hx, hy, hz, hinside⟩ := startsGrowth_name hchars rfl h
  have hgrowth := nested_growthText hx hy hz
  -- Both sides end at the parenthesis that closes the call, and are cut at the same commas.
  have hclose := congrArg (splitClose 1 .outside) (List.cons.inj hinside).2
  have hleft := splitClose_arguments (fun a ha => (hnested a ha).1) rest
  have hone : ∀ a ∈ [growthText x y z], Nested 0 a := by simpa using hgrowth
  have hright := splitClose_arguments hone tail
  rw [List.intercalate_singleton] at hright
  rw [hleft, hright] at hclose
  have htext : [','].intercalate arguments = [','].intercalate [growthText x y z] := by
    rw [List.intercalate_singleton]
    exact (Prod.mk.inj (Option.some.inj hclose)).1
  have hsame := congrArg argumentsOf htext
  rw [argumentsOf_intercalate hnested,
    argumentsOf_intercalate (by simpa using ⟨hgrowth, by simp [growthText]⟩)] at hsame
  refine ⟨?_, x, y, z, hx, hy, hz, hsame⟩
  rw [← hword]
  exact hv.map Char.toUpper

/-! ### Trees without growth formulas -/

/-- Nothing suspect stands in the text of an operand. -/
def Innocent (x : List Char) : Prop := ∀ rest, Ends rest → Passed x rest

namespace Innocent

variable {x y : List Char}

theorem name (hx : IsName x) : Innocent x := fun _ hrest =>
  passed_isName hx (hrest.any (by decide)) (hrest.head?_ne (by decide))

theorem plain (hx : ∀ c ∈ x, isNameStart c = false ∧ isQuote c = false ∧ Text.isBlank c = false) :
    Innocent x := fun _ _ => passed_plain hx

theorem infixed (hx : Innocent x) (hy : Innocent y) {m : Mark} (hfollows : m.follows = true)
    (hm : ∀ c ∈ m.text, isNameStart c = false ∧ isQuote c = false ∧ Text.isBlank c = false) :
    Innocent (x ++ (m.text ++ y)) := by
  intro rest hrest
  refine (hx _ ?_).append ((passed_plain hm).append (hy rest hrest))
  exact .inr ⟨m, y ++ rest, hfollows, by simp⟩

theorem parenthesised (hx : Innocent x) : Innocent (Tree.parenthesised x) := by
  intro rest hrest
  have hleft : Passed ['('] (x ++ [')'] ++ rest) := passed_plain (by decide +kernel)
  have hright : Passed [')'] rest := passed_plain (by decide +kernel)
  have hinside : Passed x ([')'] ++ rest) := hx _ (.inr ⟨.right, rest, rfl, rfl⟩)
  exact hleft.append (hinside.append hright)

theorem operand (hx : Innocent x) (compound : Bool) :
    Innocent (Tree.operandText compound x) := by
  cases compound
  · exact hx
  · exact hx.parenthesised

theorem intercalate {xs : List (List Char)} (h : ∀ x ∈ xs, Innocent x) :
    Innocent ([','].intercalate xs) := by
  induction xs with
  | nil => exact plain (by simp)
  | cons x xs ih =>
      have hx := h x (by simp)
      cases xs with
      | nil => simpa using hx
      | cons y ys =>
          have hrest := ih fun z hz => h z (by simp [hz])
          simpa [Mark.text] using hx.infixed hrest (m := .comma) rfl (by decide +kernel)

theorem call {name : List Char} (hname : IsName name) {arguments : List (List Char)}
    (hnested : ∀ a ∈ arguments, Nested 0 a ∧ a ≠ []) (hgrowth : ¬IsGrowth name arguments)
    (h : ∀ a ∈ arguments, Innocent a) :
    Innocent (name ++ Tree.parenthesised ([','].intercalate arguments)) := by
  intro rest hrest
  refine Passed.append ?_ ((intercalate h).parenthesised rest hrest)
  refine passed_name hname.all fun v hv hstarts => hgrowth ?_
  have hcall : StartsGrowth (v ++ '(' :: ([','].intercalate arguments ++ ')' :: rest)) := by
    simpa [Tree.parenthesised] using hstarts
  exact isGrowth_of_startsGrowth hname hv hnested hcall

end Innocent

theorem Ref.innocent {r : Ref} (h : r.IsPlain) : Innocent r.text := by
  cases r with
  | cell letters row => exact .name (letters.isName_append fun _ => Number.isDigit_of_mem_digitsOf)
  | range letters first last =>
      have hname : ∀ row, IsName (letters.chars ++ rowDigits row) := fun row =>
        letters.isName_append fun _ => isDigit_of_mem_rowDigits
      intro rest hrest
      have hfirst : Passed (letters.chars ++ rowDigits first)
          (':' :: (letters.chars ++ rowDigits last ++ rest)) :=
        passed_isName (hname first) rfl (by simp)
      have hcolon : Passed [':'] (letters.chars ++ rowDigits last ++ rest) :=
        passed_plain (by decide +kernel)
      exact hfirst.append (hcolon.append (Innocent.name (hname last) rest hrest))
  | header name => exact .name h.1

theorem Tree.render_ne_nil {call : Identifier → List Tree → Prop} {e : Tree}
    (h : e.All Ref.IsPlain call) : e.render ≠ [] := by
  rw [← e.textOf_pieces]
  exact (e.isOperand_pieces _).textOf_ne_nil fun p hp => (valid_pieces h p hp).legible

theorem Tree.innocent {e : Tree}
    (h : e.All Ref.IsPlain fun name arguments => ¬IsGrowth name.chars (arguments.map render)) :
    Innocent e.render := by
  induction e with
  | number n =>
      rw [render]
      refine .plain fun c hc => ?_
      rcases isDigit_or_point_of_isNumeral ⟨n, rfl⟩ c hc with hdigit | rfl
      · have hname := isNameChar_of_isDigit hdigit
        exact ⟨isNameStart_of_isDigit hdigit, isQuote_of_isNameChar hname,
          isBlank_of_isNameChar hname⟩
      · decide +kernel
  | text s =>
      rw [render]
      exact fun rest _ => passed_quote s.toList rest
  | boolean b =>
      rw [render]
      cases b <;> exact .name (by decide)
  | reference r =>
      rw [All] at h
      rw [render]
      exact r.innocent h
  | negate e ih =>
      rw [All] at h
      rw [render]
      intro rest hrest
      exact Passed.append (x := ['-']) (passed_plain (by decide +kernel))
        ((ih h).operand e.isOperator rest hrest)
  | binary op l r ihl ihr =>
      rw [All] at h
      rw [render, List.append_assoc]
      refine ((ihl h.1).operand l.isOperator).infixed ((ihr h.2).operand r.isOperator)
        (m := .operator op) rfl ?_
      cases op <;> decide +kernel
  | call name arguments ih =>
      rw [All] at h
      obtain ⟨hgrowth, harguments⟩ := h
      rw [render]
      refine .call name.isName ?_ hgrowth ?_
      · simp only [List.mem_map, forall_exists_index, and_imp, forall_apply_eq_imp_iff₂]
        intro a ha
        refine ⟨?_, render_ne_nil (harguments a ha)⟩
        rw [← a.textOf_pieces]
        exact nested_pieces (harguments a ha) 0
      · simpa using fun a ha => ih a ha (harguments a ha)
  | paren e ih =>
      rw [All] at h
      rw [render]
      exact (ih h).parenthesised

theorem Innocent.writeGrowth {x : List Char} (h : Innocent x) (schema : Schema) :
    writeGrowth schema x = x := by
  have hnowhere : Nowhere Suspect .outside x := by simpa using h [] (.inl rfl) trivial
  exact editUnquoted_eq_self (fun a b ha => ha.append b) (fun _ _ => growthFormula_eq_none) hnowhere

/-- Without a growth formula in it, a tree is left as it is. -/
theorem writeGrowth_render (schema : Schema) {e : Tree}
    (h : e.All Ref.IsPlain fun name arguments =>
      ¬IsGrowth name.chars (arguments.map Tree.render)) :
    writeGrowth schema e.render = e.render :=
  (e.innocent h).writeGrowth schema

end SheetBoard.Formula
