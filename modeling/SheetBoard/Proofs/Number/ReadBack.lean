import Mathlib
import SheetBoard.Proofs.Number.Numeral
import SheetBoard.Proofs.Number.Order
import SheetBoard.Proofs.Number.Shortest

/-! The text of a finite float is read back as that float, but for the sign of zero. -/

namespace SheetBoard.Number

open Float.Model Float.Model.UnpackedFloat

/-! ### Digits in their places -/

theorem foldl_digits (ds : List Char) (n : Nat) :
    ds.foldl (fun n c => 10 * n + digitValue c) n = n * 10 ^ ds.length + natOfDigits ds := by
  induction ds generalizing n with
  | nil => simp [natOfDigits]
  | cons c ds ih =>
      rw [natOfDigits, List.foldl_cons, List.foldl_cons, ih, ih (10 * 0 + digitValue c),
        List.length_cons, Nat.pow_succ]
      ring

theorem natOfDigits_append (a b : List Char) :
    natOfDigits (a ++ b) = natOfDigits a * 10 ^ b.length + natOfDigits b := by
  rw [natOfDigits, List.foldl_append, foldl_digits]
  rfl

theorem natOfDigits_replicate (k : Nat) : natOfDigits (List.replicate k '0') = 0 := by
  induction k with
  | zero => rfl
  | succ k ih =>
      rw [List.replicate_succ', natOfDigits_append, ih]
      rfl

/-- The number that a numeral stands for, before it is rounded to a float. -/
def Numeral.rational (n : Numeral) : ℚ :=
  natOfDigits (n.whole ++ n.fraction) * 10 ^ (-(n.fraction.length : Int))

theorem Numeral.exact_value {n : Numeral} {m : Nat} {q : Int} (hm : Canonical m q) (hpos : 0 < m)
    (hq : q ≤ 971) (h : RoundsTo n.rational m q) : exact n.value = .finite false m q :=
  exact_ofDecimal hm hpos hq h

theorem natOfDigits_zeros (i : Int) : natOfDigits (zeros i) = 0 := natOfDigits_replicate i.toNat

theorem length_zeros (i : Int) : (zeros i).length = i.toNat := List.length_replicate

section

variable (k : Nat) {e : Int}

/-- All digits stand behind the point. -/
theorem exists_numeral_behind (h : (digitsOf k).length + e ≤ 0) : ∃ n : Numeral,
    n.text = '0' :: '.' :: (zeros (-((digitsOf k).length + e)) ++ digitsOf k) ∧
      n.rational = k * 10 ^ e := by
  have hdigits : ∀ c ∈ zeros (-((digitsOf k).length + e)) ++ digitsOf k, isDigit c = true :=
    List.forall_mem_append.2
      ⟨fun c hc => isDigit_of_mem_zeros hc, fun c hc => isDigit_of_mem_digitsOf hc⟩
  refine ⟨⟨['0'], _, by simp, by simp [isDigit], hdigits⟩,
    by simp [Numeral.text, digitsOf_ne_nil k], ?_⟩
  have hvalue : natOfDigits ['0'] = 0 := rfl
  have hplaces : -(((zeros (-((digitsOf k).length + e)) ++ digitsOf k).length : Nat) : Int) =
      e := by
    rw [List.length_append, length_zeros]
    omega
  rw [Numeral.rational, hplaces, natOfDigits_append, natOfDigits_append, hvalue,
    natOfDigits_zeros, natOfDigits_digitsOf]
  simp

/-- The number is whole, with zeros behind its digits. -/
theorem exists_numeral_before (h : 0 ≤ e) : ∃ n : Numeral,
    n.text = digitsOf k ++ zeros ((digitsOf k).length + e - (digitsOf k).length) ∧
      n.rational = k * 10 ^ e := by
  have hdigits : ∀ c ∈ digitsOf k ++ zeros ((digitsOf k).length + e - (digitsOf k).length),
      isDigit c = true :=
    List.forall_mem_append.2
      ⟨fun c hc => isDigit_of_mem_digitsOf hc, fun c hc => isDigit_of_mem_zeros hc⟩
  refine ⟨⟨_, [], by simp [digitsOf_ne_nil k], hdigits, by simp⟩, by simp [Numeral.text], ?_⟩
  have hplaces : (((digitsOf k).length + e - (digitsOf k).length).toNat : Int) = e := by omega
  rw [Numeral.rational, List.append_nil, natOfDigits_append, natOfDigits_zeros, length_zeros,
    natOfDigits_digitsOf]
  push_cast
  rw [← zpow_natCast, hplaces]
  simp

/-- The point stands between two digits. -/
theorem exists_numeral_between (hlow : 0 < (digitsOf k).length + e) (hhigh : e < 0) :
    ∃ n : Numeral,
      n.text = (digitsOf k).take ((digitsOf k).length + e : Int).toNat ++
        '.' :: (digitsOf k).drop ((digitsOf k).length + e : Int).toNat ∧
      n.rational = k * 10 ^ e := by
  have hdigits : ∀ c ∈ digitsOf k, isDigit c = true := fun c hc => isDigit_of_mem_digitsOf hc
  have hwhole : (digitsOf k).take ((digitsOf k).length + e : Int).toNat ≠ [] := by
    simp only [ne_eq, List.take_eq_nil_iff, not_or]
    exact ⟨by omega, digitsOf_ne_nil k⟩
  have hfraction : (digitsOf k).drop ((digitsOf k).length + e : Int).toNat ≠ [] := by
    simp only [ne_eq, List.drop_eq_nil_iff]
    omega
  have hback : ∀ c ∈ (digitsOf k).drop ((digitsOf k).length + e : Int).toNat, isDigit c = true :=
    fun c hc => hdigits c (List.mem_of_mem_drop hc)
  refine ⟨⟨_, _, hwhole, fun c hc => hdigits c (List.mem_of_mem_take hc), hback⟩,
    by simp [Numeral.text, hfraction], ?_⟩
  have hplaces : -(((digitsOf k).drop ((digitsOf k).length + e : Int).toNat).length : Int) =
      e := by
    rw [List.length_drop]
    omega
  simp only [Numeral.rational, hplaces, List.take_append_drop, natOfDigits_digitsOf]

end

/-- Wherever the point goes, the digits keep their places. -/
theorem exists_numeral_positional (d : Decimal) : ∃ n : Numeral,
    n.text = positional false (digitsOf d.digits)
      ((digitsOf d.digits).length + d.exponent) ∧ n.rational = d.value := by
  simp only [positional, Decimal.value]
  split
  · rename_i hsmall
    simpa using exists_numeral_behind d.digits hsmall
  · split
    · simpa using exists_numeral_before d.digits (by omega)
    · simpa using exists_numeral_between d.digits (by omega) (by omega)

theorem exists_numeral_magnitude {m : Nat} {q : Int} (hm : Canonical m q) (hpos : 0 < m) :
    ∃ n : Numeral, n.text = Layout.plain.magnitude m q ∧ RoundsTo n.rational m q := by
  obtain ⟨n, htext, hvalue⟩ := exists_numeral_positional (shortest .up m q).trim
  have hpositional (point : Int) : Layout.plain.isPositional point = true := rfl
  refine ⟨n, ?_, ?_⟩
  · simp only [Layout.magnitude, Nat.ne_of_gt hpos, if_false, hpositional, if_true]
    exact htext
  · rw [hvalue, Decimal.value_trim]
    exact roundsTo_shortest hm hpos .up

/-! ### Floats and what they stand for -/

theorem eq_of_toBits {x y : Float} (h : x.toBits = y.toBits) : x = y := by
  obtain ⟨⟨a, ha⟩⟩ := x
  obtain ⟨⟨b, hb⟩⟩ := y
  obtain rfl : a = b := h
  rfl

section

variable {x y : Float} {negative : Bool} {m : Nat} {q : Int}
  (hx : exact x = .finite negative m q)
include hx

/-- The three fields of a finite float. -/
theorem fields_of_exact : negative = decide (2 ^ 63 ≤ x.toBits.toNat) ∧
    (x.toBits.toNat / 2 ^ 52 % 2048 = 0 ∧ m = x.toBits.toNat % 2 ^ 52 ∧ q = -1074 ∨
      x.toBits.toNat / 2 ^ 52 % 2048 = (q + 1075).toNat ∧ 0 < q + 1075 ∧ q + 1075 < 2047 ∧
        m = 2 ^ 52 + x.toBits.toNat % 2 ^ 52) := by
  have htwo : twoTo 52 = 2 ^ 52 := rfl
  have hhalf : halfWord = 2 ^ 63 := rfl
  simp only [exact, htwo, hhalf] at hx
  split at hx
  · split at hx <;> cases hx
  · split at hx
    · obtain ⟨rfl, rfl, rfl⟩ := Exact.finite.inj hx
      exact ⟨rfl, .inl ⟨‹_›, rfl, rfl⟩⟩
    · obtain ⟨rfl, rfl, rfl⟩ := Exact.finite.inj hx
      refine ⟨rfl, .inr ⟨?_, ?_, ?_, rfl⟩⟩ <;> omega

theorem canonical_of_exact : Canonical m q ∧ q ≤ 971 := by
  obtain ⟨-, ⟨-, hm, hq⟩ | ⟨hbiased, hlow, hhigh, hm⟩⟩ := fields_of_exact hx
  · exact ⟨⟨by omega, by omega, .inr hq⟩, by omega⟩
  · exact ⟨⟨by omega, by omega, .inl (by omega)⟩, by omega⟩

/-- A finite float is known by what it stands for. -/
theorem eq_of_exact (hy : exact y = .finite negative m q) : x = y := by
  obtain ⟨hsign, hfields⟩ := fields_of_exact hx
  obtain ⟨hsign', hfields'⟩ := fields_of_exact hy
  have hlt := x.toBits.toNat_lt
  have hlt' := y.toBits.toNat_lt
  have hhalf : 2 ^ 63 ≤ x.toBits.toNat ↔ 2 ^ 63 ≤ y.toBits.toNat := by
    rw [hsign] at hsign'
    exact decide_eq_decide.1 hsign'
  apply eq_of_toBits
  apply UInt64.toNat.inj
  omega

theorem exact_neg : exact (-x) = .finite (!negative) m q := by
  obtain ⟨hm, hq⟩ := canonical_of_exact hx
  have hmodel : (-x).toModel = .pack x.toModel.unpack.neg := rfl
  rw [exact_eq] at hx ⊢
  rw [hmodel]
  cases hunpack : x.toModel.unpack with
  | notANumber => simp [hunpack, Exact.ofUnpacked] at hx
  | infinity sign => simp [hunpack, Exact.ofUnpacked] at hx
  | zero sign =>
      simp only [hunpack, Exact.ofUnpacked, Exact.finite.injEq] at hx
      obtain ⟨rfl, rfl, rfl⟩ := hx
      cases sign <;> rfl
  | finite sign n e hn =>
      simp only [hunpack, Exact.ofUnpacked, Exact.finite.injEq] at hx
      obtain ⟨rfl, rfl, rfl⟩ := hx
      rw [UnpackedFloat.neg, hm.unpack_pack hn hq]
      cases sign <;> rfl

end

theorem exact_withSign {x : Float} {m : Nat} {q : Int} (hx : exact x = .finite false m q)
    (negative : Bool) : exact (withSign negative x) = .finite negative m q := by
  cases negative with
  | false => exact hx
  | true => exact exact_neg hx

/-! ### The text of a float -/

theorem roundsTo_self (m : Nat) (q : Int) : RoundsTo (m * 2 ^ q) m q := by
  have hpos := two_zpow_pos q
  apply RoundsTo.of_lt
  · apply mul_lt_mul_of_pos_right _ hpos
    linarith [reach_pos m q]
  · apply mul_lt_mul_of_pos_right _ hpos
    linarith

theorem value_wholePart {m : Nat} {q : Int} (h : isWhole m q = true) :
    (wholePart m q : ℚ) = m * 2 ^ q := by
  simp only [isWhole, Bool.or_eq_true, decide_eq_true_eq] at h
  unfold wholePart
  split
  · have hq : (q.toNat : Int) = q := by omega
    conv_rhs => rw [← hq, zpow_natCast]
    simp [twoTo]
  · have hmod := h.resolve_left ‹_›
    have hq : q = -((-q).toNat : Int) := by omega
    conv_rhs => rw [hq, zpow_neg, zpow_natCast]
    rw [Nat.cast_div (Nat.dvd_of_mod_eq_zero hmod) (by simp [twoTo]), div_eq_mul_inv]
    simp [twoTo]

/-- The text is a numeral that lies in the neighbourhood of the float, with a minus sign in front
of it or not. -/
theorem exists_numeral_display {x : Float} {negative : Bool} {m : Nat} {q : Int}
    (hx : exact x = .finite negative m q) (hpos : 0 < m) :
    ∃ n : Numeral, (display x).toList = signed negative n.text ∧ RoundsTo n.rational m q := by
  obtain ⟨hm, -⟩ := canonical_of_exact hx
  simp only [display, hx]
  split
  · rename_i hwhole
    simp only [Bool.and_eq_true] at hwhole
    have hvalue := value_wholePart hwhole.1
    have hne : wholePart m q ≠ 0 := by
      intro hzero
      rw [hzero, Nat.cast_zero] at hvalue
      have hproduct := mul_pos (Nat.cast_pos (α := ℚ).2 hpos) (two_zpow_pos q)
      linarith
    refine ⟨.ofNat (wholePart m q), by simp [hne], ?_⟩
    have hrational : (Numeral.ofNat (wholePart m q)).rational = m * 2 ^ q := by
      simp [Numeral.rational, Numeral.ofNat, hvalue]
    rw [hrational]
    exact roundsTo_self m q
  · obtain ⟨n, htext, hrounds⟩ := exists_numeral_magnitude hm hpos
    exact ⟨n, by simp [plain, write, hx, htext], hrounds⟩

/-- Both zeros as the one without a sign. -/
def plainZero (x : Float) : Float := if x == 0 then 0 else x

section

variable {x : Float} {negative : Bool} {m : Nat} {q : Int} (hx : exact x = .finite negative m q)
include hx

theorem beq_zero_of_exact : (x == 0) = decide (m = 0) := by
  have hzero : (0 : Float).toModel.unpack = .zero .positive := rfl
  have hbeq : (x == 0) = x.toModel.unpack.beq (.zero .positive) :=
    congrArg x.toModel.unpack.beq hzero
  rw [exact_eq] at hx
  rw [hbeq]
  cases hunpack : x.toModel.unpack with
  | notANumber => simp [hunpack, Exact.ofUnpacked] at hx
  | infinity sign => simp [hunpack, Exact.ofUnpacked] at hx
  | zero sign =>
      obtain ⟨-, rfl, -⟩ : _ ∧ 0 = m ∧ _ := by simpa [hunpack, Exact.ofUnpacked] using hx
      cases sign <;> rfl
  | finite sign mantissa e hpos =>
      obtain ⟨-, rfl, -⟩ : _ ∧ mantissa = m ∧ _ := by simpa [hunpack, Exact.ofUnpacked] using hx
      rw [decide_eq_false (Nat.ne_of_gt hpos)]
      cases sign <;> rfl

theorem plainZero_of_exact : plainZero x = if m = 0 then 0 else x := by
  simp [plainZero, beq_zero_of_exact hx]

theorem display_of_zero (hm : m = 0) : display x = .ofList (digitsOf 0) := by
  subst hm
  have hwhole : isWhole 0 q = true := by simp [isWhole]
  have hnone : wholePart 0 q = 0 := by simp [wholePart]
  simp [display, hx, hwhole, hnone, tenTo, signed]

/-- A zero is shown without a sign. -/
theorem display_plainZero : display (plainZero x) = display x := by
  rw [plainZero_of_exact hx]
  split
  · rename_i hm
    have hzero : exact 0 = .finite false 0 (-1074) := by decide +kernel
    rw [display_of_zero hx hm, display_of_zero hzero rfl]
  · rfl

/-- The text of a finite float is that of a numeral with a sign or without; with its sign the
numeral is the float, or the zero without sign. -/
theorem display_eq_signed : ∃ (minus : Bool) (n : Numeral),
    (display x).toList = signed minus n.text ∧ withSign minus n.value = plainZero x := by
  rw [plainZero_of_exact hx]
  rcases Nat.eq_zero_or_pos m with rfl | hpos
  · refine ⟨false, .ofNat 0, ?_, ?_⟩
    · simp [display_of_zero hx rfl, signed]
    · rw [Numeral.value_ofNat]
      rfl
  · obtain ⟨hm, hq⟩ := canonical_of_exact hx
    obtain ⟨n, htext, hrounds⟩ := exists_numeral_display hx hpos
    refine ⟨negative, n, htext, ?_⟩
    rw [if_neg (Nat.ne_of_gt hpos)]
    exact eq_of_exact (exact_withSign (n.exact_value hm hpos hq hrounds) negative) hx

end

theorem Numeral.read?_signed (n : Numeral) (minus : Bool) :
    read? (signed minus n.text) = some (withSign minus n.value) := by
  cases minus with
  | false => exact n.read?_text
  | true =>
      obtain ⟨c, rest, htext, hc⟩ := n.text_eq_cons
      have hdecimal := n.readDecimal?_text
      rw [htext] at hdecimal
      simp [signed, htext, read?, splitSign, readWord?_of_isDigit rest hc, hdecimal]

/-- Every finite float is read back from its text, but for the sign of zero. -/
theorem read?_display {x : Float} {negative : Bool} {m : Nat} {q : Int}
    (hx : exact x = .finite negative m q) :
    read? (display x).toList = some (plainZero x) := by
  obtain ⟨minus, n, htext, hvalue⟩ := display_eq_signed hx
  rw [htext, n.read?_signed, hvalue]

/-! ### Infinite floats and zeros -/

theorem fields_of_infinite {x : Float} {negative : Bool} (hx : exact x = .infinite negative) :
    negative = decide (2 ^ 63 ≤ x.toBits.toNat) ∧ x.toBits.toNat / 2 ^ 52 % 2048 = 2047 ∧
      x.toBits.toNat % 2 ^ 52 = 0 := by
  have htwo : twoTo 52 = 2 ^ 52 := rfl
  have hhalf : halfWord = 2 ^ 63 := rfl
  simp only [exact, htwo, hhalf] at hx
  split at hx
  · split at hx
    · cases hx
      exact ⟨rfl, ‹_›, ‹_›⟩
    · cases hx
  · split at hx <;> cases hx

theorem eq_of_infinite {x y : Float} {negative : Bool} (hx : exact x = .infinite negative)
    (hy : exact y = .infinite negative) : x = y := by
  obtain ⟨hsign, hbiased, hfraction⟩ := fields_of_infinite hx
  obtain ⟨hsign', hbiased', hfraction'⟩ := fields_of_infinite hy
  have hlt := x.toBits.toNat_lt
  have hlt' := y.toBits.toNat_lt
  have hhalf : 2 ^ 63 ≤ x.toBits.toNat ↔ 2 ^ 63 ≤ y.toBits.toNat := by
    rw [hsign] at hsign'
    exact decide_eq_decide.1 hsign'
  apply eq_of_toBits
  apply UInt64.toNat.inj
  omega

theorem plainZero_of_infinite {x : Float} {negative : Bool} (hx : exact x = .infinite negative) :
    plainZero x = x := by
  have hbeq : (x == 0) = x.toModel.unpack.beq (.zero .positive) :=
    congrArg x.toModel.unpack.beq (rfl : (0 : Float).toModel.unpack = .zero .positive)
  have hzero : (x == 0) = false := by
    rw [exact_eq] at hx
    rw [hbeq]
    cases hunpack : x.toModel.unpack with
    | infinity sign => cases sign <;> rfl
    | notANumber => simp [hunpack, Exact.ofUnpacked] at hx
    | zero sign => simp [hunpack, Exact.ofUnpacked] at hx
    | finite sign mantissa e hpos => simp [hunpack, Exact.ofUnpacked] at hx
  simp [plainZero, hzero]

/-- An infinite float is read back from its word. -/
theorem read?_display_of_infinite {x : Float} {negative : Bool}
    (hx : exact x = .infinite negative) : read? (display x).toList = some x := by
  have hword : (display x).toList = signed negative ['i', 'n', 'f'] := by
    simp [display, hx, plain, write]
  have hvalue : exact (withSign negative (1.0 / 0.0)) = .infinite negative := by
    cases negative <;> decide +kernel
  rw [hword, eq_of_infinite hx hvalue]
  cases negative <;> decide +kernel

theorem isNaN_plainZero {x : Float} (hx : x.isNaN = false) : (plainZero x).isNaN = false := by
  unfold plainZero
  split
  · decide +kernel
  · exact hx

theorem plainZero_plainZero (x : Float) : plainZero (plainZero x) = plainZero x := by
  by_cases hx : (x == 0) = true
  · rw [plainZero, plainZero, if_pos hx]
    rfl
  · rw [plainZero, plainZero, if_neg hx, if_neg hx]

/-- Every number is read back from its text, but for the sign of zero. -/
theorem read?_display_of_isNaN {x : Float} (hx : x.isNaN = false) :
    read? (display x).toList = some (plainZero x) ∧ display (plainZero x) = display x := by
  cases hexact : exact x with
  | nan =>
      rw [isNaN_eq, hexact] at hx
      simp at hx
  | infinite negative =>
      rw [plainZero_of_infinite hexact]
      exact ⟨read?_display_of_infinite hexact, rfl⟩
  | finite negative m q => exact ⟨read?_display hexact, display_plainZero hexact⟩

/-- The sign of a zero does not count in comparisons. -/
theorem order?_plainZero (y x : Float) : order? y (plainZero x) = order? y x := by
  unfold plainZero
  split
  · rename_i hzero
    exact order?_congr (beq_symm hzero) y
  · rfl

/-- A number agrees with its plain form, as every number but NaN agrees with itself. -/
theorem beq_plainZero {x : Float} (hx : x.isNaN = false) : (plainZero x == x) = true := by
  unfold plainZero
  split
  · rename_i hzero
    exact beq_symm hzero
  · exact beq_self hx

end SheetBoard.Number
