import SheetBoard.Proofs.Formula.Nesting
import SheetBoard.Proofs.Formula.Operators

/-! Calls of a keyword in pieces. The search for the leftmost call passes over every piece that is
no call of the keyword, and finds the arguments of the call as they were written. -/

namespace SheetBoard.Formula

/-! ### Keywords -/

theorem Keyword.isCapital_spelling (k : Keyword) : ∀ c ∈ k.spelling, isCapital c = true := by
  cases k <;> decide

theorem Keyword.spelling_ne_nil (k : Keyword) : k.spelling ≠ [] := by
  cases k <;> decide

theorem keyword?_eq_some_iff {name : List Char} {k : Keyword} :
    keyword? name = some k ↔ name.map Char.toUpper = k.spelling := by
  unfold keyword?
  generalize name.map Char.toUpper = upper
  constructor
  · intro h
    simpa using List.find?_some h
  · rintro rfl
    cases k <;> decide

/-- Only letters are capitals in upper case. -/
theorem isNameStart_of_isCapital_toUpper {c : Char} (h : isCapital c.toUpper = true) :
    isNameStart c = true := by
  unfold Char.toUpper at h
  split at h
  · rename_i hlower
    have hletter : 'a' ≤ c ∧ c ≤ 'z' := by simpa [Char.le_def] using hlower
    simp [isNameStart, Text.isAsciiLetter, hletter]
  · exact isNameStart_of_isCapital h

/-- The piece starts a call of the keyword. -/
def Piece.calls (k : Keyword) : Piece → Bool
  | .callee name => name.map Char.toUpper == k.spelling
  | _ => false

@[simp] theorem Piece.calls_mark (k : Keyword) (m : Mark) : (Piece.mark m).calls k = false := rfl

/-! ### Where a call starts -/

theorem open_notMem {w : List Char} (h : ∀ c ∈ w, isNameChar c = true) : '(' ∉ w :=
  fun hmem => absurd (h '(' hmem) (by decide)

theorem take_toUpper_beq {keyword w rest : List Char}
    (hkeyword : ∀ c ∈ keyword, isCapital c = true) (hw : '(' ∉ w)
    (hrest : rest.head?.any isNameChar = false) :
    (((w ++ rest).take keyword.length).map Char.toUpper == keyword &&
        (w ++ rest)[keyword.length]? == some '(') =
      (w.map Char.toUpper == keyword && rest.head? == some '(') := by
  induction keyword generalizing w with
  | nil =>
      cases w with
      | nil => simp [List.head?_eq_getElem?]
      | cons c w =>
          have hc : c ≠ '(' := fun hc => hw (by simp [hc])
          simp [hc]
  | cons k keyword ih =>
      cases w with
      | nil =>
          cases rest with
          | nil => simp
          | cons d rest =>
              have hd : d.toUpper ≠ k := by
                rintro rfl
                have hcapital := hkeyword d.toUpper (by simp)
                have hstart := isNameStart_of_isCapital_toUpper hcapital
                rw [List.head?_cons, Option.any_some, isNameChar_of_isNameStart hstart] at hrest
                cases hrest
              simp [hd]
      | cons c w =>
          have hmore := ih (fun d hd => hkeyword d (List.mem_cons_of_mem k hd))
            (mt (List.mem_cons_of_mem c) hw)
          simp only [List.cons_append, List.length_cons, List.take_succ_cons, List.map_cons,
            List.cons_beq_cons, List.getElem?_cons_succ, Bool.and_assoc, hmore]

section

variable (k : Keyword) {before : Option Char} {w rest : List Char}

/-- A name starts a call if it is the keyword and a parenthesis follows. -/
theorem startsCall_name (hw : '(' ∉ w) (hrest : rest.head?.any isNameChar = false) :
    startsCall k.spelling before (w ++ rest) =
      (!before.any joinsName && (w.map Char.toUpper == k.spelling && rest.head? == some '(')) := by
  rw [startsCall, Bool.and_assoc, take_toUpper_beq k.isCapital_spelling hw hrest]

theorem startsCall_plain {c : Char} (h : isNameStart c = false) (cs : List Char) :
    startsCall k.spelling before (c :: cs) = false := by
  obtain ⟨d, ds, hspelling⟩ := List.exists_cons_of_ne_nil k.spelling_ne_nil
  have hc : c.toUpper ≠ d := by
    rintro rfl
    have hcapital := k.isCapital_spelling c.toUpper (by simp [hspelling])
    rw [isNameStart_of_isCapital_toUpper hcapital] at h
    cases h
  simp [startsCall, hspelling, hc]

theorem startsCall_inside {c : Char} (h : joinsName c = true) (cs : List Char) :
    startsCall k.spelling (some c) cs = false := by
  simp [startsCall, h]

end

/-! ### Passing over text -/

/-- The search finds no call in `x`, where `rest` follows. -/
def Passes (k : Keyword) (before : Option Char) (x rest : List Char) : Prop :=
  splitAtCall k.spelling .outside before (x ++ rest) =
    keep x (splitAtCall k.spelling .outside (lastChar before x) rest)

section

variable {k : Keyword} {before : Option Char} {x y w rest : List Char}

theorem Passes.append (hx : Passes k before x (y ++ rest))
    (hy : Passes k (lastChar before x) y rest) : Passes k before (x ++ y) rest := by
  unfold Passes at *
  rw [List.append_assoc, hx, hy, lastChar_append, keep_append]

theorem passes_nil : Passes k before [] rest := (keep_nil _).symm

theorem passes_char {c : Char} (hstarts : startsCall k.spelling before (c :: rest) = false)
    (hquote : isQuote c = false) : Passes k before [c] rest := by
  unfold Passes
  rw [List.singleton_append, splitAtCall]
  simp only [hstarts, QuoteState.step_outside hquote]
  rfl

theorem passes_plain (hx : ∀ c ∈ x, isNameStart c = false ∧ isQuote c = false) :
    Passes k before x rest := by
  induction x generalizing before with
  | nil => exact passes_nil
  | cons c x ih =>
      obtain ⟨hstart, hquote⟩ := hx c (by simp)
      have hc : Passes k before [c] (x ++ rest) :=
        passes_char (startsCall_plain k hstart _) hquote
      exact hc.append (ih fun d hd => hx d (by simp [hd]))

theorem passes_inside {c : Char} (hc : isNameChar c = true)
    (hw : ∀ d ∈ w, isNameChar d = true) : Passes k (some c) w rest := by
  induction w generalizing c with
  | nil => exact passes_nil
  | cons d w ih =>
      have hname := hw d (by simp)
      have hd : Passes k (some c) [d] (w ++ rest) :=
        passes_char (startsCall_inside k (joinsName_of_isNameChar hc) _)
          (isQuote_of_isNameChar hname)
      exact hd.append (ih hname fun e he => hw e (by simp [he]))

theorem passes_name (hw : IsName w) (hrest : rest.head?.any isNameChar = false)
    (hother : w.map Char.toUpper ≠ k.spelling ∨ rest.head? ≠ some '(') :
    Passes k before w rest := by
  have hstarts : startsCall k.spelling before (w ++ rest) = false := by
    rw [startsCall_name k (open_notMem hw.all) hrest]
    rcases hother with hother | hother <;> simp [hother]
  obtain ⟨c, w, rfl, hc⟩ := hw.exists_cons
  have hname := isNameChar_of_isNameStart hc
  have hfirst : Passes k before [c] (w ++ rest) :=
    passes_char hstarts (isQuote_of_isNameChar hname)
  exact hfirst.append (passes_inside hname fun d hd => hw.all d (by simp [hd]))

theorem splitAtCall_escaped {x : List Char} (h : Escaped x) (before : Option Char)
    (rest : List Char) :
    splitAtCall k.spelling (.inside '"') before (x ++ rest) =
      keep x (splitAtCall k.spelling (.inside '"') (lastChar before x) rest) := by
  induction h generalizing before with
  | nil => exact (keep_nil _).symm
  | plain hmark hslash _ ih =>
      simp [hmark, hslash, splitAtCall, QuoteState.step, ih, lastChar, keep, Function.comp_def]
  | slash c _ ih => simp [splitAtCall, QuoteState.step, ih, lastChar, keep, Function.comp_def]

theorem passes_quote (s : List Char) : Passes k before (quote s) rest := by
  have hstarts : startsCall k.spelling before ('"' :: (escape s ++ '"' :: rest)) = false :=
    startsCall_plain k (by decide) _
  unfold Passes
  rw [quote_append, splitAtCall]
  simp only [hstarts, QuoteState.step_open, splitAtCall_escaped (escaped_escape s), splitAtCall,
    QuoteState.step_close]
  simp [quote, keep, lastChar, Function.comp_def]

end

/-! ### Passing over pieces -/

section

variable {k : Keyword} {rest : List Char}

theorem Mark.passes (m : Mark) (before : Option Char) : Passes k before m.text rest := by
  cases m with
  | particle p =>
      have hblank : ∀ before rest, Passes k before [' '] rest := fun _ _ => passes_plain (by decide)
      have hword : IsName p.word := by cases p <;> decide
      have hname : Passes k (some ' ') p.word (' ' :: rest) :=
        passes_name hword rfl (.inr (by simp))
      exact ((hblank before (p.word ++ ' ' :: rest)).append hname).append (hblank _ rest)
  | operator op => cases op <;> exact passes_plain (by decide)
  | scriptOperator op => cases op <;> exact passes_plain (by decide)
  | _ => exact passes_plain (by decide)

theorem IsName.passes {w : List Char} (hw : IsName w) (before : Option Char) (hrest : Ends rest) :
    Passes k before w rest :=
  passes_name hw (hrest.any (by decide)) (.inr (hrest.head?_ne (by decide)))

theorem Piece.Valid.passes {p : Piece} (h : p.Valid) (hcalls : p.calls k = false)
    (before : Option Char) (hends : p.ends = true → Ends rest) : Passes k before p.text rest := by
  cases p with
  | mark m => exact m.passes before
  | callee name =>
      have hname : Passes k before name ('(' :: rest) :=
        passes_name h rfl (.inl (by simpa [Piece.calls] using hcalls))
      exact hname.append (passes_plain (by decide))
  | numeral digits =>
      refine passes_plain fun c hc => ?_
      rcases isDigit_or_point_of_isNumeral h c hc with hdigit | rfl
      · exact ⟨isNameStart_of_isDigit hdigit, isQuote_of_isNameChar (isNameChar_of_isDigit hdigit)⟩
      · decide
  | literal value => exact passes_quote value
  | truth capitals value =>
      have hname : IsName (Piece.truthText capitals value) := by
        cases capitals <;> cases value <;> decide
      exact hname.passes before (hends rfl)
  | reference r =>
      cases r with
      | cell letters row => exact (IsName.cell letters row).passes before (hends rfl)
      | range letters first last =>
          have hfirst : Passes k before (letters.chars ++ rowDigits first)
              (':' :: (letters.chars ++ rowDigits last) ++ rest) :=
            passes_name (IsName.row letters first) rfl (.inr (by simp))
          have hcolon : ∀ before, Passes k before [':'] (letters.chars ++ rowDigits last ++ rest) :=
            fun _ => passes_plain (by decide)
          have hlast := fun before => (IsName.row letters last).passes (k := k) before (hends rfl)
          exact hfirst.append ((hcolon _).append (hlast _))
      | header name => exact (h.1 : IsName name.toList).passes before (hends rfl)

theorem passes_textOf {ps qs : List Piece} (hchain : (ps ++ qs).IsChain Piece.Adjacent)
    (hvalid : ∀ p ∈ ps, p.Valid) (hcalls : ∀ p ∈ ps, p.calls k = false) (before : Option Char) :
    Passes k before (textOf ps) (textOf qs) := by
  induction ps generalizing before with
  | nil => exact passes_nil
  | cons p ps ih =>
      have hp : Passes k before p.text (textOf ps ++ textOf qs) := by
        refine (hvalid p (by simp)).passes (hcalls p (by simp)) before fun hends => ?_
        rw [← textOf_append]
        exact ends_textOf hchain hends
      exact hp.append (ih hchain.tail (fun q hq => hvalid q (by simp [hq]))
        (fun q hq => hcalls q (by simp [hq])) _)

theorem splitAtCall_eq_none {ps : List Piece} (hchain : ps.IsChain Piece.Adjacent)
    (hvalid : ∀ p ∈ ps, p.Valid) (hcalls : ∀ p ∈ ps, p.calls k = false) :
    splitAtCall k.spelling .outside none (textOf ps) = none := by
  have hpasses : Passes k none (textOf ps) (textOf []) :=
    passes_textOf (by simpa using hchain) hvalid hcalls none
  simpa [Passes, splitAtCall, keep] using hpasses

/-- The character before a callee is no part of a name. -/
theorem clear_lastChar_textOf {ps qs : List Piece} {name : List Char}
    (hchain : (ps ++ Piece.callee name :: qs).IsChain Piece.Adjacent)
    (hvalid : ∀ p ∈ ps, p.Valid) : Clear (lastChar none (textOf ps)) := by
  rcases List.eq_nil_or_concat ps with rfl | ⟨front, p, rfl⟩
  · intro c hc
    cases hc
  · rw [List.concat_eq_append, List.append_assoc] at hchain
    have hadjacent := (List.isChain_cons_cons.1 hchain.right_of_append).1
    rw [List.concat_eq_append, textOf_append, lastChar_append, textOf_cons, textOf_nil,
      List.append_nil]
    exact clear_lastChar hadjacent (hvalid p (by simp)).text_ne_nil rfl _

/-- The leftmost call of a keyword is found at its name. -/
theorem splitAtCall_callee {ps qs : List Piece} {name : List Char}
    (hchain : (ps ++ Piece.callee name :: qs).IsChain Piece.Adjacent)
    (hvalid : ∀ p ∈ ps, p.Valid) (hcalls : ∀ p ∈ ps, p.calls k = false) (hname : IsName name)
    (hspelling : name.map Char.toUpper = k.spelling) :
    splitAtCall k.spelling .outside none (textOf (ps ++ Piece.callee name :: qs)) =
      some (textOf ps, textOf qs) := by
  have hpasses := passes_textOf hchain hvalid hcalls none
  have hbefore := (clear_lastChar_textOf hchain hvalid).any (q := joinsName) (by decide)
  unfold Passes at hpasses
  generalize lastChar none (textOf ps) = before at hpasses hbefore
  have hcall : splitAtCall k.spelling .outside before (textOf (Piece.callee name :: qs)) =
      some ([], textOf qs) := by
    have hlength : k.spelling.length = name.length := by rw [← hspelling, List.length_map]
    have hstarts : startsCall k.spelling before (name ++ '(' :: textOf qs) = true := by
      rw [startsCall_name k (open_notMem hname.all) rfl, hbefore, hspelling]
      simp
    have htext : textOf (Piece.callee name :: qs) = name ++ '(' :: textOf qs := by
      simp [Piece.text]
    rw [htext]
    obtain ⟨c, tail, rfl, -⟩ := hname.exists_cons
    rw [List.cons_append] at hstarts ⊢
    rw [splitAtCall, if_pos ⟨rfl, hstarts⟩, hlength]
    simp
  rw [textOf_append, hpasses, hcall, keep_some, List.append_nil]

theorem leftmostCall?_eq_none {ps : List Piece} (hchain : ps.IsChain Piece.Adjacent)
    (hvalid : ∀ p ∈ ps, p.Valid) (hcalls : ∀ p ∈ ps, p.calls k = false) :
    leftmostCall? k.spelling (textOf ps) = none := by
  rw [leftmostCall?, splitAtCall_eq_none hchain hvalid hcalls]
  rfl

/-- The leftmost call is taken apart as it was put together. -/
theorem leftmostCall?_callee {ps qs : List Piece} {name : List Char} {arguments : List (List Piece)}
    (hchain : (ps ++ (Piece.callee name :: ([.mark .comma].intercalate arguments ++
      .mark .right :: qs))).IsChain Piece.Adjacent)
    (hvalid : ∀ p ∈ ps, p.Valid) (hcalls : ∀ p ∈ ps, p.calls k = false) (hname : IsName name)
    (hspelling : name.map Char.toUpper = k.spelling)
    (harguments : ∀ a ∈ arguments, Nested 0 (textOf a) ∧ textOf a ≠ []) :
    leftmostCall? k.spelling (textOf (ps ++ (Piece.callee name ::
        ([.mark .comma].intercalate arguments ++ .mark .right :: qs)))) =
      some (textOf ps, arguments.map textOf, textOf qs) := by
  have htext : textOf ([.mark .comma].intercalate arguments ++ .mark .right :: qs) =
      [','].intercalate (arguments.map textOf) ++ ')' :: textOf qs := by
    rw [textOf_append, textOf_intercalate]
    rfl
  have hnested : ∀ x ∈ arguments.map textOf, Nested 0 x ∧ x ≠ [] := by simpa using harguments
  simp only [leftmostCall?, splitAtCall_callee hchain hvalid hcalls hname hspelling, htext,
    splitClose_arguments fun x hx => (hnested x hx).1, argumentsOf_intercalate hnested,
    Option.bind_eq_bind, Option.bind_some, Option.pure_def]

end

end SheetBoard.Formula
