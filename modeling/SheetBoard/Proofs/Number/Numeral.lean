import SheetBoard.Cell

/-! Decimal numerals. Every numeral reads as a number, and the text of a finite number is a numeral
with at most a minus sign in front of it. -/

namespace SheetBoard.Number

/-- Digits, and further digits after a point if there are any. -/
structure Numeral where
  whole : List Char
  fraction : List Char
  whole_ne_nil : whole ≠ []
  whole_digits : ∀ c ∈ whole, isDigit c = true
  fraction_digits : ∀ c ∈ fraction, isDigit c = true

namespace Numeral

def text (n : Numeral) : List Char :=
  n.whole ++ if n.fraction = [] then [] else '.' :: n.fraction

/-- The nearest float. -/
def value (n : Numeral) : Float :=
  ofDecimal (natOfDigits (n.whole ++ n.fraction)) (-n.fraction.length)

end Numeral

theorem isDigit_eq (c : Char) : isDigit c = c.isDigit := by
  simp [isDigit, Char.isDigit, Char.le_def]

theorem isDigit_of_mem_digitsOf {n : Nat} {c : Char} (h : c ∈ digitsOf n) : isDigit c = true := by
  rw [isDigit_eq]
  exact Nat.isDigit_of_mem_toDigits (by decide) (by decide) h

theorem digitsOf_ne_nil (n : Nat) : digitsOf n ≠ [] := Nat.toDigits_ne_nil

@[simp] theorem natOfDigits_digitsOf (n : Nat) : natOfDigits (digitsOf n) = n :=
  Nat.ofDigitChars_ten_toDigits

/-- The numeral of a whole number. -/
def Numeral.ofNat (n : Nat) : Numeral where
  whole := digitsOf n
  fraction := []
  whole_ne_nil := digitsOf_ne_nil n
  whole_digits := fun _ hc => isDigit_of_mem_digitsOf hc
  fraction_digits := by simp

@[simp] theorem Numeral.text_ofNat (n : Nat) : (Numeral.ofNat n).text = digitsOf n := by
  simp [Numeral.text, Numeral.ofNat]

@[simp] theorem Numeral.value_ofNat (n : Nat) : (Numeral.ofNat n).value = ofDecimal n 0 := by
  simp [Numeral.value, Numeral.ofNat]

/-! ### Reading numerals -/

theorem takeWhile_append_of_all {α : Type} {p : α → Bool} {a b : List α} (ha : ∀ x ∈ a, p x = true)
    (hb : b.head?.any p = false) : (a ++ b).takeWhile p = a := by
  rw [List.takeWhile_append_of_pos ha]
  cases b with
  | nil => simp
  | cons y b =>
      have hy : p y = false := by simpa using hb
      simp [hy]

theorem dropWhile_append_of_all {α : Type} {p : α → Bool} {a b : List α} (ha : ∀ x ∈ a, p x = true)
    (hb : b.head?.any p = false) : (a ++ b).dropWhile p = b := by
  rw [List.dropWhile_append_of_pos ha]
  cases b with
  | nil => simp
  | cons y b =>
      have hy : p y = false := by simpa using hb
      simp [hy]

theorem Numeral.text_eq_cons (n : Numeral) :
    ∃ c rest, n.text = c :: rest ∧ isDigit c = true := by
  obtain ⟨whole, fraction, hne, hwhole, hfraction⟩ := n
  cases whole with
  | nil => exact absurd rfl hne
  | cons c whole => exact ⟨c, _, rfl, hwhole c (by simp)⟩

theorem splitSign_of_isDigit {c : Char} (cs : List Char) (h : isDigit c = true) :
    splitSign (c :: cs) = (false, c :: cs) := by
  unfold splitSign
  split
  · rename_i heq
    cases heq
    exact absurd h (by decide)
  · rename_i heq
    cases heq
    exact absurd h (by decide)
  · rfl

theorem readWord?_of_isDigit {c : Char} (cs : List Char) (h : isDigit c = true) :
    readWord? (c :: cs) = none := by
  have hlower : c.toLower = c := by
    have hval : c.val < 65 := by
      simp only [isDigit, Bool.and_eq_true, decide_eq_true_eq, Char.le_def] at h
      exact UInt32.lt_of_le_of_lt h.2 (by decide)
    exact dif_neg fun hcapital => UInt32.not_le.mpr hval hcapital.1
  have hhead (word : String) (hword : word.toList.head?.any isDigit = false) :
      String.ofList ((c :: cs).map Char.toLower) ≠ word := by
    intro heq
    rw [← heq] at hword
    simp [hlower, h] at hword
  unfold readWord?
  split
  · rename_i heq
    exact absurd heq (hhead _ (by decide))
  · rename_i heq
    exact absurd heq (hhead _ (by decide))
  · rename_i heq
    exact absurd heq (hhead _ (by decide))
  · rfl

theorem Numeral.readDecimal?_text (n : Numeral) : readDecimal? n.text = some n.value := by
  have hhead : (if n.fraction = [] then [] else '.' :: n.fraction).head?.any isDigit = false := by
    split
    · rfl
    · exact (by decide : isDigit '.' = false)
  have htake := takeWhile_append_of_all n.whole_digits hhead
  have hdrop := dropWhile_append_of_all n.whole_digits hhead
  have hwhole : n.whole.isEmpty = false := by simpa using n.whole_ne_nil
  unfold readDecimal? Numeral.text
  simp only [htake, hdrop, hwhole, Bool.false_and, Bool.false_eq_true, if_false]
  by_cases hfraction : n.fraction = []
  · simp [hfraction, readExponent?, Numeral.value]
  · have hall := takeWhile_append_of_all (b := []) n.fraction_digits rfl
    have hnone := dropWhile_append_of_all (b := []) n.fraction_digits rfl
    rw [List.append_nil] at hall hnone
    simp [hfraction, hall, hnone, readExponent?, Numeral.value]

theorem Numeral.read?_text (n : Numeral) : read? n.text = some n.value := by
  obtain ⟨c, rest, htext, hc⟩ := n.text_eq_cons
  have hdecimal := n.readDecimal?_text
  rw [htext] at hdecimal ⊢
  simp [read?, splitSign_of_isDigit rest hc, readWord?_of_isDigit rest hc, hdecimal, withSign]

/-! ### Writing numerals -/

/-- The text is that of a numeral. -/
def IsNumeral (cs : List Char) : Prop := ∃ n : Numeral, n.text = cs

theorem isNumeral_digitsOf (n : Nat) : IsNumeral (digitsOf n) := ⟨.ofNat n, Numeral.text_ofNat n⟩

theorem isNumeral_of_digits {cs : List Char} (hne : cs ≠ []) (hcs : ∀ c ∈ cs, isDigit c = true) :
    IsNumeral cs :=
  ⟨⟨cs, [], hne, hcs, by simp⟩, by simp [Numeral.text]⟩

theorem isNumeral_of_point {whole fraction : List Char} (hwhole : whole ≠ [])
    (hfraction : fraction ≠ []) (hdigits : ∀ c ∈ whole ++ fraction, isDigit c = true) :
    IsNumeral (whole ++ '.' :: fraction) := by
  refine ⟨⟨whole, fraction, hwhole, ?_, ?_⟩, by simp [Numeral.text, hfraction]⟩
  · intro c hc
    exact hdigits c (by simp [hc])
  · intro c hc
    exact hdigits c (by simp [hc])

theorem isDigit_of_mem_zeros {n : Int} {c : Char} (h : c ∈ zeros n) : isDigit c = true := by
  obtain rfl := List.eq_of_mem_replicate h
  decide

theorem isNumeral_positional {digits : List Char} (hne : digits ≠ [])
    (hdigits : ∀ c ∈ digits, isDigit c = true) (point : Int) :
    IsNumeral (positional false digits point) := by
  unfold positional
  split
  · have hwhole : ['0'] ≠ [] := by simp
    have hfraction : zeros (-point) ++ digits ≠ [] := by simp [hne]
    have hall : ∀ c ∈ ['0'] ++ (zeros (-point) ++ digits), isDigit c = true := by
      intro c hc
      simp only [List.mem_append, List.mem_singleton] at hc
      rcases hc with rfl | hc | hc
      · decide
      · exact isDigit_of_mem_zeros hc
      · exact hdigits c hc
    exact isNumeral_of_point hwhole hfraction hall
  · split
    · refine isNumeral_of_digits (by simp [hne]) ?_
      intro c hc
      simp only [Bool.false_eq_true, if_false, List.append_nil, List.mem_append] at hc
      rcases hc with hc | hc
      · exact hdigits c hc
      · exact isDigit_of_mem_zeros hc
    · rename_i hpositive hlength
      refine isNumeral_of_point ?_ ?_ (by rwa [List.take_append_drop])
      · have : 0 < point.toNat := by omega
        simp only [ne_eq, List.take_eq_nil_iff, not_or]
        exact ⟨by omega, hne⟩
      · simp only [ne_eq, List.drop_eq_nil_iff]
        omega

theorem isNumeral_magnitude (m : Nat) (q : Int) : IsNumeral (Layout.plain.magnitude m q) := by
  unfold Layout.magnitude
  split
  · have hne : ['0'] ≠ [] := by simp
    exact isNumeral_of_digits hne (List.forall_mem_singleton.2 rfl)
  · have hpositional (point : Int) : Layout.plain.isPositional point = true := rfl
    simp only [hpositional, if_true]
    exact isNumeral_positional (digitsOf_ne_nil _) (fun _ hc => isDigit_of_mem_digitsOf hc) _

/-- The text of a finite number is a numeral, with a minus sign in front of it or not. -/
theorem exists_numeral_of_finite {x : Float} {negative : Bool} {m : Nat} {q : Int}
    (h : exact x = .finite negative m q) :
    ∃ (minus : Bool) (n : Numeral), (display x).toList = signed minus n.text := by
  unfold display
  simp only [h]
  split
  · obtain ⟨n, hn⟩ := isNumeral_of_digits (digitsOf_ne_nil (wholePart m q))
      fun _ hc => isDigit_of_mem_digitsOf hc
    exact ⟨_, n, by rw [hn, String.toList_ofList]⟩
  · obtain ⟨n, hn⟩ := isNumeral_magnitude m q
    exact ⟨negative, n, by simp [plain, write, h, hn]⟩

end SheetBoard.Number
