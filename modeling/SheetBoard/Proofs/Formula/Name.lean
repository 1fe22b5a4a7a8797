import SheetBoard.Proofs.Formula.Tree

/-! The characters of names, and what each pass takes them for. -/

namespace SheetBoard.Formula

/-- Name characters are ASCII, so a property of all of them is checked one by one. -/
theorem of_isNameChar {q : Char → Bool}
    (hq : ∀ n : Fin 128, isNameChar (Char.ofNat n) = true → q (Char.ofNat n) = true) {c : Char}
    (h : isNameChar c = true) : q c = true := by
  have hc : c.toNat < 128 := by
    simp only [isNameChar, isNameStart, Text.isAsciiLetter, Text.isAsciiDigit, Bool.or_eq_true,
      Bool.and_eq_true, decide_eq_true_eq, Char.le_def, UInt32.le_iff_toNat_le] at h
    rcases h with ((h | h) | rfl) | h
    · exact Nat.lt_of_le_of_lt h.2 (by decide)
    · exact Nat.lt_of_le_of_lt h.2 (by decide)
    · decide
    · exact Nat.lt_of_le_of_lt h.2 (by decide)
  have hfound := hq ⟨c.toNat, hc⟩
  rw [Char.ofNat_toNat] at hfound
  exact hfound h

/-- What the passes take a name character for. -/
def hasNameTraits (c : Char) : Bool :=
  Text.isWordChar c && isOperandChar c && joinsName c && Script.continuesName c &&
    !Text.isBlank c && !(Number.isDigit c && isNameStart c) &&
    (!Number.isDigit c || Text.isDecimalDigit c) && !(isCapital c && Text.isDecimalDigit c)

theorem hasNameTraits_of_isNameChar {c : Char} (h : isNameChar c = true) :
    hasNameTraits c = true :=
  of_isNameChar (by decide +kernel) h

section

variable {c : Char} (h : isNameChar c = true)

include h

theorem isWordChar_of_isNameChar : Text.isWordChar c = true := by
  have htraits := hasNameTraits_of_isNameChar h
  simp_all [hasNameTraits]

theorem isOperandChar_of_isNameChar : isOperandChar c = true := by
  have htraits := hasNameTraits_of_isNameChar h
  simp_all [hasNameTraits]

theorem joinsName_of_isNameChar : joinsName c = true := by
  have htraits := hasNameTraits_of_isNameChar h
  simp_all [hasNameTraits]

theorem continuesName_of_isNameChar : Script.continuesName c = true := by
  have htraits := hasNameTraits_of_isNameChar h
  simp_all [hasNameTraits]

theorem isBlank_of_isNameChar : Text.isBlank c = false := by
  have htraits := hasNameTraits_of_isNameChar h
  simp_all [hasNameTraits]

theorem ne_of_isNameChar {d : Char} (hd : isNameChar d = false) : c ≠ d := by
  rintro rfl
  rw [h] at hd
  cases hd

theorem isQuote_of_isNameChar : isQuote c = false := by
  have hdouble := ne_of_isNameChar h (show isNameChar '"' = false by decide)
  have hsingle := ne_of_isNameChar h (show isNameChar '\'' = false by decide)
  simp [isQuote, hdouble, hsingle]

end

theorem isNameChar_of_isNameStart {c : Char} (h : isNameStart c = true) : isNameChar c = true := by
  simp [isNameChar, h]

theorem isNameChar_of_isBlank {c : Char} (h : Text.isBlank c = true) : isNameChar c = false := by
  cases hname : isNameChar c with
  | false => rfl
  | true =>
      rw [isBlank_of_isNameChar hname] at h
      cases h

theorem isNameChar_of_isQuote {c : Char} (h : isQuote c = true) : isNameChar c = false := by
  cases hname : isNameChar c with
  | false => rfl
  | true =>
      rw [isQuote_of_isNameChar hname] at h
      cases h

theorem isNameStart_eq_false {c : Char} (h : isNameChar c = false) : isNameStart c = false :=
  (Bool.or_eq_false_iff.1 h).1

theorem isNameStart_of_isCapital {c : Char} (h : isCapital c = true) : isNameStart c = true := by
  simp only [isCapital] at h
  simp [isNameStart, Text.isAsciiLetter, h]

theorem isNameChar_of_isDigit {c : Char} (h : Number.isDigit c = true) : isNameChar c = true := by
  have hdigit : Text.isAsciiDigit c = true := h
  simp [isNameChar, hdigit]

theorem isNameStart_of_isDigit {c : Char} (h : Number.isDigit c = true) :
    isNameStart c = false := by
  have htraits := hasNameTraits_of_isNameChar (isNameChar_of_isDigit h)
  simp_all [hasNameTraits]

theorem isDecimalDigit_of_isDigit {c : Char} (h : Number.isDigit c = true) :
    Text.isDecimalDigit c = true := by
  have htraits := hasNameTraits_of_isNameChar (isNameChar_of_isDigit h)
  simp_all [hasNameTraits]

theorem isDecimalDigit_of_isCapital {c : Char} (h : isCapital c = true) :
    Text.isDecimalDigit c = false := by
  have htraits :=
    hasNameTraits_of_isNameChar (isNameChar_of_isNameStart (isNameStart_of_isCapital h))
  simp_all [hasNameTraits]

namespace IsName

variable {cs : List Char}

theorem exists_cons (h : IsName cs) : ∃ c rest, cs = c :: rest ∧ isNameStart c = true := by
  cases cs with
  | nil => cases h.start
  | cons c rest => exact ⟨c, rest, rfl, by simpa using h.start⟩

theorem ne_nil (h : IsName cs) : cs ≠ [] := by
  obtain ⟨c, rest, rfl, -⟩ := h.exists_cons
  simp

theorem unquoted (h : IsName cs) : Unquoted cs := fun c hc => isQuote_of_isNameChar (h.all c hc)

end IsName

theorem Capitals.isName_append (letters : Capitals) {digits : List Char}
    (h : ∀ c ∈ digits, Number.isDigit c = true) : IsName (letters.chars ++ digits) := by
  refine ⟨?_, ?_⟩
  · cases hchars : letters.chars with
    | nil => exact absurd hchars letters.ne_nil
    | cons c rest => simpa using isNameStart_of_isCapital (letters.all c (by simp [hchars]))
  · intro c hc
    rcases List.mem_append.mp hc with hc | hc
    · exact isNameChar_of_isNameStart (isNameStart_of_isCapital (letters.all c hc))
    · exact isNameChar_of_isDigit (h c hc)

theorem isDigit_of_mem_rowDigits {row : Option Nat} {c : Char} (h : c ∈ rowDigits row) :
    Number.isDigit c = true := by
  cases row with
  | none => cases h
  | some n => exact Number.isDigit_of_mem_digitsOf h

end SheetBoard.Formula
