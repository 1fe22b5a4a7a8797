import Mathlib
import SheetBoard.Proofs.Number.Whole

/-! Rounding to the nearest float. A decimal number is read as the float whose neighbourhood it
lies in: between the midpoints to the two neighbouring floats. -/

namespace SheetBoard.Number

open Float.Model Float.Model.UnpackedFloat

/-! ### Further bits -/

/-- What a mantissa and its two further bits say of a number, in units of the last place. -/
inductive Meets : ExtendedMantissa → ℚ → Prop where
  | exact (m : Nat) : Meets ⟨m, false, false⟩ m
  | below {m : Nat} {r : ℚ} : m < r → r < m + 1 / 2 → Meets ⟨m, false, true⟩ r
  | half (m : Nat) : Meets ⟨m, true, false⟩ (m + 1 / 2)
  | above {m : Nat} {r : ℚ} : m + 1 / 2 < r → r < m + 1 → Meets ⟨m, true, true⟩ r

theorem shiftRightOne_even (k : Nat) (a b : Bool) :
    (⟨2 * k, a, b⟩ : ExtendedMantissa).shiftRightOne = ⟨k, false, a || b⟩ := by
  simp [ExtendedMantissa.shiftRightOne]

theorem shiftRightOne_odd (k : Nat) (a b : Bool) :
    (⟨2 * k + 1, a, b⟩ : ExtendedMantissa).shiftRightOne = ⟨k, true, a || b⟩ := by
  have hhalf : (2 * k + 1) / 2 = k := by omega
  simp [ExtendedMantissa.shiftRightOne, hhalf]

namespace Meets

variable {x : ExtendedMantissa} {r : ℚ}

theorem bounds (h : Meets x r) : x.mantissa ≤ r ∧ r < x.mantissa + 1 := by
  cases h with
  | exact m => constructor <;> simp
  | below hlow hhigh => constructor <;> simp only <;> linarith
  | half m => constructor <;> simp only <;> linarith
  | above hlow hhigh => constructor <;> simp only <;> linarith

theorem shiftRightOne_of_lt {m : Nat} {a b : Bool} (hbits : (a || b) = true) (hlow : m < r)
    (hhigh : r < m + 1) : Meets (⟨m, a, b⟩ : ExtendedMantissa).shiftRightOne (r / 2) := by
  obtain ⟨k, rfl | rfl⟩ := Nat.even_or_odd' m
  · push_cast at hlow hhigh
    rw [shiftRightOne_even, hbits]
    exact .below (by linarith) (by linarith)
  · push_cast at hlow hhigh
    rw [shiftRightOne_odd, hbits]
    exact .above (by linarith) (by linarith)

/-- A bit goes from the mantissa to the round bit, and the two others are joined. -/
theorem shiftRightOne (h : Meets x r) : Meets x.shiftRightOne (r / 2) := by
  cases h with
  | exact m =>
      obtain ⟨k, rfl | rfl⟩ := Nat.even_or_odd' m
      · have hhalf : ((2 * k : Nat) : ℚ) / 2 = k := by push_cast; ring
        rw [shiftRightOne_even, hhalf]
        exact .exact k
      · have hhalf : ((2 * k + 1 : Nat) : ℚ) / 2 = k + 1 / 2 := by push_cast; ring
        rw [shiftRightOne_odd, hhalf]
        exact .half k
  | below hlow hhigh => exact shiftRightOne_of_lt rfl (by linarith) (by linarith)
  | half m => exact shiftRightOne_of_lt rfl (by linarith) (by linarith)
  | above hlow hhigh => exact shiftRightOne_of_lt rfl (by linarith) (by linarith)

theorem shiftRight (h : Meets x r) (k : Nat) : Meets (x >>> k) (r / 2 ^ k) := by
  induction k with
  | zero =>
      rw [pow_zero, div_one]
      exact h
  | succ k ih =>
      have hstep := ih.shiftRightOne
      rw [div_div, ← pow_succ] at hstep
      exact hstep

end Meets

/-- The whole number `n` is the nearest to `r`, or it is even and no other one is nearer. -/
structure Nearest (r : ℚ) (n : Nat) : Prop where
  low : n - 1 / 2 ≤ r
  high : r ≤ n + 1 / 2
  even : r = n - 1 / 2 ∨ r = n + 1 / 2 → n % 2 = 0

/-- Whole numbers that are less than one apart are the same. -/
theorem eq_of_cast_lt {m n : Nat} (hlow : (m : ℚ) < n + 1) (hhigh : (n : ℚ) < m + 1) : m = n := by
  norm_cast at hlow hhigh
  omega

theorem Meets.roundedMantissa {x : ExtendedMantissa} {r : ℚ} {n : Nat} (h : Meets x r)
    (hn : Nearest r n) : x.roundedMantissa = n := by
  obtain ⟨hlow, hhigh, heven⟩ := hn
  cases h with
  | exact m =>
      change m = n
      exact eq_of_cast_lt (by linarith) (by linarith)
  | @below m r hm hm' =>
      change m = n
      exact eq_of_cast_lt (by linarith) (by linarith)
  | half m =>
      change m + m % 2 = n
      have hle : (n : ℚ) ≤ m + 1 := by linarith
      have hge : (m : ℚ) ≤ n := by linarith
      norm_cast at hle hge
      have htie : n % 2 = 0 := by
        rcases Nat.lt_or_eq_of_le hge with hlt | rfl
        · obtain rfl : n = m + 1 := by omega
          exact heven (.inl (by push_cast; ring))
        · exact heven (.inr rfl)
      omega
  | @above m r hm hm' =>
      change m + 1 = n
      exact eq_of_cast_lt (by push_cast; linarith) (by push_cast; linarith)

/-! ### Neighbourhoods -/

/-- A pair that stands for a float: the significand has all its bits, or the exponent is the least
one. -/
structure Canonical (m : Nat) (q : Int) : Prop where
  lt : m < 2 ^ 53
  least : -1074 ≤ q
  full : 2 ^ 52 ≤ m ∨ q = -1074

/-- How far the neighbourhood goes down, in units of the last place: the floats below a power of two
are closer. -/
def reach (m : Nat) (q : Int) : ℚ := if m = 2 ^ 52 ∧ -1074 < q then 1 / 4 else 1 / 2

/-- The number lies in the neighbourhood of the float `m * 2 ^ q`; the ends belong to it when the
significand is even. -/
structure RoundsTo (v : ℚ) (m : Nat) (q : Int) : Prop where
  low : (m - reach m q) * 2 ^ q ≤ v
  high : v ≤ (m + 1 / 2) * 2 ^ q
  even : v = (m - reach m q) * 2 ^ q ∨ v = (m + 1 / 2) * 2 ^ q → m % 2 = 0

theorem two_zpow_pos (q : Int) : (0 : ℚ) < 2 ^ q := zpow_pos (by norm_num) q

theorem two_zpow_lt_iff {a b : Int} : (2 : ℚ) ^ a < 2 ^ b ↔ a < b :=
  zpow_lt_zpow_iff_right₀ (by norm_num)

theorem two_zpow_le_two_zpow {a b : Int} (h : a ≤ b) : (2 : ℚ) ^ a ≤ 2 ^ b :=
  zpow_le_zpow_right₀ (by norm_num) h

theorem two_zpow_add (a b : Int) : (2 : ℚ) ^ (a + b) = 2 ^ a * 2 ^ b :=
  zpow_add₀ (by norm_num) a b

theorem ten_zpow_pos (e : Int) : (0 : ℚ) < 10 ^ e := zpow_pos (by norm_num) e

namespace RoundsTo

variable {v : ℚ} {m : Nat} {q : Int} (h : RoundsTo v m q)
include h

theorem nearest (hreach : reach m q = 1 / 2) : Nearest (v / 2 ^ q) m := by
  obtain ⟨hlow, hhigh, heven⟩ := h
  rw [hreach] at hlow heven
  have hpos := two_zpow_pos q
  constructor
  · rwa [le_div_iff₀ hpos]
  · rwa [div_le_iff₀ hpos]
  · intro hend
    rw [div_eq_iff hpos.ne', div_eq_iff hpos.ne'] at hend
    exact heven hend

/-- Below a power of two the exponent is one less, and the mantissa is rounded up to that power. -/
theorem nearest_carry (hm : m = 2 ^ 52) (hq : -1074 < q) (hlt : v < 2 ^ (52 + q)) :
    Nearest (v / 2 ^ (q - 1)) (2 ^ 53) := by
  have hlow := h.low
  have hpos := two_zpow_pos (q - 1)
  have hstep : (2 : ℚ) ^ q = 2 * 2 ^ (q - 1) := by
    rw [← zpow_one_add₀ (by norm_num)]
    congr 1
    omega
  rw [reach, if_pos ⟨hm, hq⟩, hm, hstep] at hlow
  rw [two_zpow_add, hstep] at hlt
  push_cast at hlow
  constructor
  · rw [le_div_iff₀ hpos]
    push_cast
    linarith
  · rw [div_le_iff₀ hpos]
    push_cast
    norm_num at hlt
    linarith
  · intro _
    decide

theorem lt_two_zpow (hm : Canonical m q) : v < 2 ^ (53 + q) := by
  have hpos := two_zpow_pos q
  have hle : (m : ℚ) + 1 ≤ 2 ^ 53 := by exact_mod_cast hm.lt
  calc v ≤ (m + 1 / 2) * 2 ^ q := h.high
    _ < 2 ^ 53 * 2 ^ q := by
      apply mul_lt_mul_of_pos_right _ hpos
      linarith
    _ = 2 ^ (53 + q) := by
      rw [two_zpow_add]
      norm_num

/-- At or above the power of two the neighbourhood is that of the whole number. -/
theorem nearest_of_le (hle : 2 ^ (52 + q) ≤ v) : Nearest (v / 2 ^ q) m := by
  by_cases hpower : m = 2 ^ 52 ∧ -1074 < q
  · have hpos := two_zpow_pos q
    rw [two_zpow_add] at hle
    norm_num at hle
    have heven : m % 2 = 0 := by
      rw [hpower.1]
      decide
    constructor
    · rw [le_div_iff₀ hpos, hpower.1]
      push_cast
      linarith
    · rw [div_le_iff₀ hpos]
      exact h.high
    · exact fun _ => heven
  · exact h.nearest (if_neg hpower)

/-- The neighbourhood of a power of two does not go down to the next power. -/
theorem two_zpow_le_of_power (hm : m = 2 ^ 52) (hq : -1074 < q) : 2 ^ (51 + q) ≤ v := by
  have hlow := h.low
  have hpos := two_zpow_pos q
  refine le_trans ?_ hlow
  rw [reach, if_pos ⟨hm, hq⟩, hm, two_zpow_add]
  push_cast
  norm_num
  linarith

/-- Apart from powers of two, the neighbourhood ends above the floats with fewer bits, unless the
exponent is the least one. -/
theorem eq_least_of_lt (hm : Canonical m q) (hpower : ¬(m = 2 ^ 52 ∧ -1074 < q))
    (hlt : v < 2 ^ (52 + q)) : q = -1074 := by
  have hleast := hm.least
  by_contra hne
  have hfull : 2 ^ 52 + 1 ≤ m := by
    rcases hm.full with hle | heq
    · have hother : m ≠ 2 ^ 52 := fun heq => hpower ⟨heq, by omega⟩
      omega
    · exact absurd heq hne
  have hlow := h.low
  rw [reach, if_neg hpower] at hlow
  rw [two_zpow_add] at hlt
  have hhalf : (m : ℚ) - 1 / 2 < 2 ^ (52 : Int) :=
    lt_of_mul_lt_mul_right (lt_of_le_of_lt hlow hlt) (two_zpow_pos q).le
  have hcast : ((2 ^ 52 + 1 : Nat) : ℚ) ≤ m := Nat.cast_le.2 hfull
  have hvalue : (2 : ℚ) ^ (52 : Int) = 2 ^ 52 := rfl
  push_cast at hcast
  linarith

/-- The exponent that the size of the number asks for is that of the float, or one less when the
mantissa is rounded up to a power of two. -/
theorem exponent (hm : Canonical m q) {t : Int} (ht : -1074 ≤ t) (hupper : v < 2 ^ (53 + t))
    (hlower : -1074 < t → 2 ^ (52 + t) ≤ v) :
    (t = q ∧ Nearest (v / 2 ^ q) m) ∨
      (t = q - 1 ∧ m = 2 ^ 52 ∧ Nearest (v / 2 ^ (q - 1)) (2 ^ 53)) := by
  have hleast := hm.least
  by_cases hle : 2 ^ (52 + q) ≤ v
  · have hge : 52 + q < 53 + t := two_zpow_lt_iff.1 (lt_of_le_of_lt hle hupper)
    have htop : -1074 < t → 52 + t < 53 + q := fun hlt =>
      two_zpow_lt_iff.1 (lt_of_le_of_lt (hlower hlt) (h.lt_two_zpow hm))
    exact .inl ⟨by omega, h.nearest_of_le hle⟩
  · have hlt := not_le.1 hle
    have htop : -1074 < t → 52 + t < 52 + q := fun hlarge =>
      two_zpow_lt_iff.1 (lt_of_le_of_lt (hlower hlarge) hlt)
    by_cases hpower : m = 2 ^ 52 ∧ -1074 < q
    · have hge : 51 + q < 53 + t :=
        two_zpow_lt_iff.1 (lt_of_le_of_lt (h.two_zpow_le_of_power hpower.1 hpower.2) hupper)
      exact .inr ⟨by omega, hpower.1, h.nearest_carry hpower.1 hpower.2 hlt⟩
    · have hq := h.eq_least_of_lt hm hpower hlt
      exact .inl ⟨by omega, h.nearest (if_neg hpower)⟩

end RoundsTo

/-! ### Rounding a number -/

theorem shiftToTargetExponent_of_le {M : Nat} {E t : Int} (accuracy : Accuracy)
    (ht : max (M.log2 + E - 52) (-1074) = t) (hle : E ≤ t) :
    shiftToTargetExponent .binary64 M E accuracy =
      (ExtendedMantissa.ofMantissaAndAccuracy M accuracy >>> (t - E).toNat, t) := by
  have htarget : Format.binary64.targetExponent (totalExponent M E) = t := by
    rw [targetExponent_eq, ht]
  have hback : E + ((t - E).toNat : Int) = t := by omega
  simp only [shiftToTargetExponent, htarget, shiftToExponent, hback]

theorem Canonical.target {m : Nat} {q : Int} (h : Canonical m q) (hpos : 0 < m) :
    max (m.log2 + q - 52) (-1074) = q := by
  have hleast := h.least
  have hlog : m.log2 ≤ 52 := log2_le hpos h.lt
  rcases h.full with hfull | rfl
  · have hfull' : m.log2 = 52 := Full.log2_eq ⟨hfull, h.lt⟩
    omega
  · omega

/-- Once the mantissa is rounded, the second shift is exact. -/
theorem roundWithAccuracy_eq_finite {M R m : Nat} {E t q : Int} {accuracy : Accuracy}
    {x y : ExtendedMantissa} (hfirst : shiftToTargetExponent .binary64 M E accuracy = (x, t))
    (hrounded : x.roundedMantissa = R)
    (hsecond : shiftToTargetExponent .binary64 R t .exact = (y, q)) (hy : y.mantissa = m)
    (hpos : 0 < m) (sign : Sign) :
    roundWithAccuracy .binary64 sign M E accuracy = .finite sign m q hpos := by
  subst hrounded hy
  simp [roundWithAccuracy, hfirst, hsecond, Nat.ne_of_gt hpos]

theorem mantissa_ofMantissaAndAccuracy (M : Nat) (accuracy : Accuracy) :
    (ExtendedMantissa.ofMantissaAndAccuracy M accuracy).mantissa = M := by
  cases accuracy with
  | exact => rfl
  | inexact order => cases order <;> rfl

/-- The number is at least as fine as the floats of its size, so that rounding loses nothing before
it rounds. -/
def Fine (M : Nat) (E : Int) : Prop := E ≤ -1074 ∨ 2 ^ 52 ≤ M

section

variable {M : Nat} {E t : Int} {r : ℚ} {accuracy : Accuracy}
  (hmeets : Meets (.ofMantissaAndAccuracy M accuracy) r) (hfine : Fine M E)
  (ht : max (M.log2 + E - 52) (-1074) = t)
include ht

include hfine in
theorem Fine.le_target : E ≤ t := by
  rcases hfine with hsmall | hlarge
  · omega
  · have hlog : 52 ≤ M.log2 := (Nat.le_log2 (by omega)).2 hlarge
    omega

include hmeets

theorem Meets.lt_two_zpow : r * 2 ^ E < 2 ^ (53 + t) := by
  have hbound := hmeets.bounds.2
  rw [mantissa_ofMantissaAndAccuracy] at hbound
  have hself : ((M + 1 : Nat) : ℚ) ≤ (2 ^ (M.log2 + 1) : Nat) := Nat.cast_le.2 Nat.lt_log2_self
  push_cast at hself
  calc r * 2 ^ E < 2 ^ (M.log2 + 1) * 2 ^ E :=
        mul_lt_mul_of_pos_right (lt_of_lt_of_le hbound hself) (two_zpow_pos E)
    _ = 2 ^ (((M.log2 + 1 : Nat) : Int) + E) := by rw [two_zpow_add, zpow_natCast]
    _ ≤ 2 ^ (53 + t) := two_zpow_le_two_zpow (by omega)

include hfine in
theorem Meets.two_zpow_le (hlarge : -1074 < t) : 2 ^ (52 + t) ≤ r * 2 ^ E := by
  have hbound := hmeets.bounds.1
  rw [mantissa_ofMantissaAndAccuracy] at hbound
  have hne : M ≠ 0 := by
    rintro rfl
    have hzero : Nat.log2 0 = 0 := by decide
    rcases hfine with hsmall | hfull
    · omega
    · omega
  have hself : ((2 ^ M.log2 : Nat) : ℚ) ≤ M := Nat.cast_le.2 (Nat.log2_self_le hne)
  push_cast at hself
  calc (2 : ℚ) ^ (52 + t) = 2 ^ ((M.log2 : Int) + E) := by
        congr 1
        omega
    _ = 2 ^ M.log2 * 2 ^ E := by rw [two_zpow_add, zpow_natCast]
    _ ≤ r * 2 ^ E := mul_le_mul_of_nonneg_right (le_trans hself hbound) (two_zpow_pos E).le

end

theorem roundWithAccuracy_of_roundsTo {M m : Nat} {E q : Int} {r : ℚ} {accuracy : Accuracy}
    (hmeets : Meets (.ofMantissaAndAccuracy M accuracy) r) (hfine : Fine M E)
    (hm : Canonical m q) (hpos : 0 < m) (h : RoundsTo (r * 2 ^ E) m q) (sign : Sign) :
    roundWithAccuracy .binary64 sign M E accuracy = .finite sign m q hpos := by
  obtain ⟨t, ht⟩ : ∃ t, max (M.log2 + E - 52) (-1074) = t := ⟨_, rfl⟩
  have hle := hfine.le_target ht
  have hfirst := shiftToTargetExponent_of_le accuracy ht hle
  have hshift := hmeets.shiftRight (t - E).toNat
  have hscale : r / 2 ^ (t - E).toNat = r * 2 ^ E / 2 ^ t := by
    have hsplit : (2 : ℚ) ^ t = 2 ^ E * 2 ^ (t - E).toNat := by
      rw [← zpow_natCast, ← two_zpow_add]
      congr 1
      omega
    rw [hsplit, mul_comm r, mul_div_mul_left _ _ (two_zpow_pos E).ne']
  rw [hscale] at hshift
  rcases h.exponent hm (by omega) (hmeets.lt_two_zpow ht) (hmeets.two_zpow_le hfine ht) with
    ⟨rfl, hnearest⟩ | ⟨rfl, rfl, hnearest⟩
  · have hsecond := shiftToTargetExponent_of_le .exact (hm.target hpos) le_rfl
    rw [Int.sub_self] at hsecond
    exact roundWithAccuracy_eq_finite hfirst (hshift.roundedMantissa hnearest) hsecond rfl hpos sign
  · have hlog : Nat.log2 (2 ^ 53) = 53 := by decide
    have htarget : max (((2 ^ 53 : Nat).log2 : Int) + (q - 1) - 52) (-1074) = q := by
      rw [hlog]
      omega
    have hsecond := shiftToTargetExponent_of_le .exact htarget (by omega)
    have hone : (q - (q - 1)).toNat = 1 := by omega
    rw [hone] at hsecond
    exact roundWithAccuracy_eq_finite hfirst (hshift.roundedMantissa hnearest) hsecond rfl hpos sign

/-! ### Products and quotients -/

/-- A quotient of whole numbers, and what is left of it. -/
theorem meets_div (a : Nat) {b : Nat} (hb : 0 < b) :
    Meets (.ofMantissaAndAccuracy (a / b) (accuracyOfFraction (a % b) b)) (a / b) := by
  have hpos : (0 : ℚ) < b := by exact_mod_cast hb
  have hlt : ((a % b : Nat) : ℚ) < b := by exact_mod_cast Nat.mod_lt a hb
  have hsplit : (a : ℚ) / b = (a / b : Nat) + (a % b : Nat) / b := by
    have hdiv : ((b * (a / b) + a % b : Nat) : ℚ) = a := by rw [Nat.div_add_mod]
    push_cast at hdiv ⊢
    rw [← hdiv]
    field_simp
  rw [hsplit]
  unfold accuracyOfFraction
  by_cases hzero : a % b = 0
  · simp only [hzero, if_true, Nat.cast_zero, zero_div, add_zero]
    exact .exact _
  · have hpart : 0 < ((a % b : Nat) : ℚ) / b :=
      div_pos (by exact_mod_cast Nat.pos_of_ne_zero hzero) hpos
    simp only [hzero, if_false]
    cases hcompare : compare (2 * (a % b)) b with
    | lt =>
        have hhalf : 2 * ((a % b : Nat) : ℚ) < b := by
          exact_mod_cast Nat.compare_eq_lt.1 hcompare
        refine .below (by linarith) ?_
        rw [add_lt_add_iff_left, div_lt_div_iff₀ hpos (by norm_num)]
        linarith
    | eq =>
        have hhalf : 2 * ((a % b : Nat) : ℚ) = b := by
          exact_mod_cast Nat.compare_eq_eq.1 hcompare
        have hequal : ((a % b : Nat) : ℚ) / b = 1 / 2 := by
          rw [div_eq_div_iff hpos.ne' (by norm_num)]
          linarith
        rw [hequal]
        exact .half _
    | gt =>
        have hhalf : (b : ℚ) < 2 * (a % b : Nat) := by
          exact_mod_cast Nat.compare_eq_gt.1 hcompare
        refine .above ?_ ?_
        · rw [add_lt_add_iff_left, div_lt_div_iff₀ (by norm_num) hpos]
          linarith
        · rw [add_lt_add_iff_left, div_lt_one hpos]
          exact hlt

section

variable {m m₁ m₂ : Nat} {q e₁ e₂ : Int} (h₁ : 0 < m₁) (h₂ : 0 < m₂) (hm : Canonical m q)
  (hpos : 0 < m)

include hm in
theorem mul_of_roundsTo (hfine : Fine (m₁ * m₂) (e₁ + e₂))
    (h : RoundsTo (m₁ * 2 ^ e₁ * (m₂ * 2 ^ e₂)) m q) :
    UnpackedFloat.mul .binary64 (.finite .positive m₁ e₁ h₁) (.finite .positive m₂ e₂ h₂) =
      .finite .positive m q hpos := by
  have hmeets : Meets (.ofMantissaAndAccuracy (m₁ * m₂) .exact) ((m₁ * m₂ : Nat) : ℚ) := .exact _
  have hvalue : (m₁ * 2 ^ e₁ * (m₂ * 2 ^ e₂) : ℚ) = (m₁ * m₂ : Nat) * 2 ^ (e₁ + e₂) := by
    rw [two_zpow_add]
    push_cast
    ring
  rw [hvalue] at h
  exact roundWithAccuracy_of_roundsTo hmeets hfine hm hpos h .positive

include h₁ h₂ in
/-- The dividend is shifted until the quotient has enough bits. -/
theorem divCore_eq (e₁ e₂ : Int) : ∃ k : Nat,
    divCore .binary64 m₁ e₁ m₂ e₂ =
      (m₁ * 2 ^ k / m₂, e₁ - e₂ - k, accuracyOfFraction (m₁ * 2 ^ k % m₂) m₂) ∧
    Fine (m₁ * 2 ^ k / m₂) (e₁ - e₂ - k) := by
  obtain ⟨target, htarget⟩ : ∃ target, min (e₁ - e₂) (Format.binary64.targetExponent
      (totalExponent m₁ e₁ - totalExponent m₂ e₂)) = target := ⟨_, rfl⟩
  have hback : e₁ - e₂ - ((e₁ - e₂ - target).toNat : Int) = target := by omega
  refine ⟨(e₁ - e₂ - target).toNat, ?_, ?_⟩
  · simp only [divCore, htarget, Nat.shiftLeft_eq, hback]
  · rw [hback]
    by_cases hsmall : target ≤ -1074
    · exact .inl hsmall
    · right
      have hbits : m₂.log2 + 53 ≤ m₁.log2 + (e₁ - e₂ - target).toNat := by
        have hformat : Format.binary64.targetExponent
            (totalExponent m₁ e₁ - totalExponent m₂ e₂) =
              max (totalExponent m₁ e₁ - totalExponent m₂ e₂ - 53) (-1074) := rfl
        rw [hformat, totalExponent, totalExponent] at htarget
        omega
      rw [Nat.le_div_iff_mul_le h₂]
      calc 2 ^ 52 * m₂ ≤ 2 ^ 52 * 2 ^ (m₂.log2 + 1) :=
            Nat.mul_le_mul_left _ (Nat.le_of_lt Nat.lt_log2_self)
        _ = 2 ^ (m₂.log2 + 53) := by rw [← Nat.pow_add]; congr 1; omega
        _ ≤ 2 ^ (m₁.log2 + (e₁ - e₂ - target).toNat) := Nat.pow_le_pow_right (by decide) hbits
        _ = 2 ^ m₁.log2 * 2 ^ (e₁ - e₂ - target).toNat := Nat.pow_add ..
        _ ≤ m₁ * 2 ^ (e₁ - e₂ - target).toNat :=
          Nat.mul_le_mul_right _ (Nat.log2_self_le (Nat.ne_of_gt h₁))

include hm in
theorem div_of_roundsTo (h : RoundsTo (m₁ * 2 ^ e₁ / (m₂ * 2 ^ e₂)) m q) :
    UnpackedFloat.div .binary64 (.finite .positive m₁ e₁ h₁) (.finite .positive m₂ e₂ h₂) =
      .finite .positive m q hpos := by
  obtain ⟨k, hcore, hfine⟩ := divCore_eq h₁ h₂ e₁ e₂
  have hvalue : (m₁ * 2 ^ e₁ / (m₂ * 2 ^ e₂) : ℚ) =
      ((m₁ * 2 ^ k : Nat) : ℚ) / m₂ * 2 ^ (e₁ - e₂ - k) := by
    have htwo : (2 : ℚ) ≠ 0 := by norm_num
    rw [zpow_sub₀ htwo, zpow_sub₀ htwo, zpow_natCast]
    push_cast
    field_simp
  rw [hvalue] at h
  have hround := roundWithAccuracy_of_roundsTo (meets_div _ h₂) hfine hm hpos h .positive
  rw [← hround]
  simp only [UnpackedFloat.div, hcore]
  rfl

end

/-! ### Packing -/

/-- A significand without its first bits is packed as it is. -/
theorem unpack_pack_of_small {m : Nat} (hpos : 0 < m) (hlt : m < 2 ^ 52) (sign : Sign) :
    (Float.Model.pack (.finite sign m (-1074) hpos)).unpack = .finite sign m (-1074) hpos := by
  have hlog : ¬ m.log2 + 1 = Format.binary64.mantissaBits := by
    have hlt' : m.log2 < 52 := (Nat.log2_lt (Nat.ne_of_gt hpos)).2 hlt
    have hbits : Format.binary64.mantissaBits = 53 := rfl
    omega
  have hroom : ¬ 2 ^ Format.binary64.exponentBits ≤ ((-1074 : Int) + Format.binary64.exponentBias +
      Format.binary64.mantissaBitsWithoutImplicit).toNat + 1 := by decide
  have hpack : UnpackedFloat.pack .binary64 (.finite sign m (-1074) hpos) =
      packComponents .binary64 sign 0#_ (BitVec.ofNat _ m) := by
    simp only [UnpackedFloat.pack, hroom, hlog, if_false]
  have hmantissa : (BitVec.ofNat Format.binary64.mantissaBitsWithoutImplicit m).toNat = m := by
    rw [BitVec.toNat_ofNat]
    exact Nat.mod_eq_of_lt hlt
  have hlast : (0#_ : BitVec Format.binary64.exponentBits) ≠ -1#_ := by decide
  have hzero : BitVec.ofNat Format.binary64.mantissaBitsWithoutImplicit m ≠ 0#_ := by
    intro heq
    have hvalue := congrArg BitVec.toNat heq
    rw [hmantissa] at hvalue
    exact Nat.ne_of_gt hpos hvalue
  change UnpackedFloat.unpack .binary64 (UnpackedFloat.pack .binary64 _) = _
  rw [hpack]
  simp only [UnpackedFloat.unpack, unpackMantissa_packComponents, unpackExponent_packComponents,
    unpackSign_packComponents, hlast, hzero, hmantissa, if_false, if_true, dite_false]
  rfl

theorem Canonical.unpack_pack {m : Nat} {q : Int} (h : Canonical m q) (hpos : 0 < m)
    (hq : q ≤ 971) (sign : Sign) :
    (Float.Model.pack (.finite sign m q hpos)).unpack = .finite sign m q hpos := by
  by_cases hfull : 2 ^ 52 ≤ m
  · exact Full.unpack_pack ⟨hfull, h.lt⟩ sign h.least hq
  · obtain rfl : q = -1074 := h.full.resolve_left hfull
    exact unpack_pack_of_small hpos (Nat.lt_of_not_le hfull) sign

/-! ### Decimal numbers -/

theorem unpack_of_exact {x : Float} {m : Nat} {q : Int} (hpos : 0 < m)
    (h : exact x = .finite false m q) : x.toModel.unpack = .finite .positive m q hpos := by
  rw [exact_eq] at h
  cases hunpack : x.toModel.unpack with
  | notANumber => simp [hunpack, Exact.ofUnpacked] at h
  | infinity sign => simp [hunpack, Exact.ofUnpacked] at h
  | zero sign =>
      simp [hunpack, Exact.ofUnpacked] at h
      omega
  | finite sign n e hn =>
      cases sign with
      | negative => simp [hunpack, Exact.ofUnpacked] at h
      | positive =>
          simp only [hunpack, Exact.ofUnpacked, Exact.finite.injEq] at h
          obtain ⟨-, rfl, rfl⟩ := h
          rfl

/-- The first powers of ten are floats. -/
theorem exact_powerOfTen : ∀ k : Fin 23,
    (Float.exactlyRepresentablePowersOfTen[k.val]?).map exact =
      some (.finite false (10 ^ k.val * 2 ^ 52 / 2 ^ (10 ^ k.val).log2)
        ((10 ^ k.val).log2 - 52)) ∧
    10 ^ k.val * 2 ^ 52 / 2 ^ (10 ^ k.val).log2 * 2 ^ (10 ^ k.val).log2 = 10 ^ k.val * 2 ^ 52 ∧
    2 ^ 52 ≤ 10 ^ k.val * 2 ^ 52 / 2 ^ (10 ^ k.val).log2 := by
  decide +kernel

theorem unpack_powerOfTen {k : Nat} (hk : k ≤ 22) {x : Float}
    (hx : Float.exactlyRepresentablePowersOfTen[k]? = some x) :
    ∃ (m : Nat) (q : Int) (hpos : 0 < m), x.toModel.unpack = .finite .positive m q hpos ∧
      (m : ℚ) * 2 ^ q = 10 ^ k ∧ 2 ^ 52 ≤ m := by
  obtain ⟨hexact, hvalue, hfull⟩ := exact_powerOfTen ⟨k, by omega⟩
  simp only [hx, Option.map_some, Option.some.injEq] at hexact hvalue hfull
  have hpos : 0 < 10 ^ k * 2 ^ 52 / 2 ^ (10 ^ k).log2 := by omega
  refine ⟨_, _, hpos, unpack_of_exact hpos hexact, ?_, hfull⟩
  have hcast : (((10 ^ k * 2 ^ 52 / 2 ^ (10 ^ k).log2 : Nat) : ℚ)) * 2 ^ (10 ^ k).log2 =
      10 ^ k * 2 ^ 52 := by exact_mod_cast hvalue
  have htwo : (2 : ℚ) ≠ 0 := by norm_num
  have hexponent : (2 : ℚ) ^ (((10 ^ k).log2 : Int) - 52) = 2 ^ (10 ^ k).log2 / 2 ^ 52 := by
    rw [zpow_sub₀ htwo, zpow_natCast]
    rfl
  rw [hexponent, ← mul_div_assoc, hcast]
  field_simp

/-- The number of digits is given by the power of ten at or below the number. -/
theorem length_toDigits {n : Nat} (hn : 0 < n) :
    ∃ d, (Nat.toDigits 10 n).length = d + 1 ∧ 10 ^ d ≤ n ∧ n < 10 ^ (d + 1) := by
  obtain ⟨d, hd⟩ : ∃ d, (Nat.toDigits 10 n).length = d + 1 :=
    Nat.exists_eq_succ_of_ne_zero (by simp [Nat.toDigits_ne_nil])
  refine ⟨d, hd, ?_, (Nat.length_toDigits_le_iff (by decide) (by omega)).1 (le_of_eq hd)⟩
  rcases Nat.eq_zero_or_pos d with rfl | hpositive
  · exact hn
  · by_contra hlt
    have hle := (Nat.length_toDigits_le_iff (b := 10) (by decide) hpositive).2 (not_le.1 hlt)
    omega

/-- The place of the first digit of a number that is about as large as a float. -/
theorem place_bounds {n d : Nat} {e : Int} (hlower : 10 ^ d ≤ n) (hupper : n < 10 ^ (d + 1))
    (hleast : (2 : ℚ) ^ (-1075 : Int) ≤ n * 10 ^ e)
    (hmost : (n : ℚ) * 10 ^ e < 2 ^ (1024 : Int)) :
    -400 < (d : Int) + 1 + e ∧ (d : Int) + e < 309 := by
  have hpos := (ten_zpow_pos e).le
  constructor
  · apply (zpow_lt_zpow_iff_right₀ (by norm_num : (1 : ℚ) < 10)).1
    calc (10 : ℚ) ^ (-400 : Int) < 2 ^ (-1075 : Int) := by
          have hnat : 2 ^ 1075 < 10 ^ 400 := by decide +kernel
          rw [zpow_neg, zpow_neg, zpow_ofNat, zpow_ofNat]
          apply inv_strictAnti₀ (pow_pos (by norm_num) 1075)
          exact_mod_cast hnat
      _ ≤ n * 10 ^ e := hleast
      _ ≤ 10 ^ (d + 1) * 10 ^ e :=
        mul_le_mul_of_nonneg_right (by exact_mod_cast hupper.le) hpos
      _ = 10 ^ ((d : Int) + 1 + e) := by
        rw [zpow_add₀ (by norm_num), ← zpow_natCast]
        rfl
  · apply (zpow_lt_zpow_iff_right₀ (by norm_num : (1 : ℚ) < 10)).1
    calc (10 : ℚ) ^ ((d : Int) + e) = 10 ^ d * 10 ^ e := by
          rw [zpow_add₀ (by norm_num), zpow_natCast]
      _ ≤ n * 10 ^ e := mul_le_mul_of_nonneg_right (by exact_mod_cast hlower) hpos
      _ < 2 ^ (1024 : Int) := hmost
      _ < 10 ^ (309 : Int) := by
        have hnat : 2 ^ 1024 < 10 ^ 309 := by decide +kernel
        rw [zpow_ofNat, zpow_ofNat]
        exact_mod_cast hnat

/-- A small whole number, converted to a float, is that number. -/
theorem value_toFloat {n : Nat} (hlog : n.log2 ≤ 52) :
    ((n * 2 ^ (52 - n.log2) : Nat) : ℚ) * 2 ^ ((n.log2 : Int) - 52) = n := by
  have hexponent : ((52 - n.log2 : Nat) : Int) + ((n.log2 : Int) - 52) = 0 := by omega
  push_cast
  rw [mul_assoc, ← zpow_natCast, ← two_zpow_add, hexponent, zpow_zero, mul_one]

section

variable {n m : Nat} {q : Int} (hm : Canonical m q) (hpos : 0 < m) (hq : q ≤ 971)
include hm hpos hq

theorem exact_pack (sign : Sign) :
    exact (.ofModel (.pack (.finite sign m q hpos))) = .finite (sign == .negative) m q := by
  rw [exact_eq]
  change Exact.ofUnpacked (Float.Model.pack (.finite sign m q hpos)).unpack = _
  rw [hm.unpack_pack hpos hq]
  rfl

/-- Both operands are floats, and the operation rounds once. -/
theorem exact_ofScientific_of_small (hn : 0 < n) (hlt : n < 2 ^ 53) {k : Nat} (hk : k ≤ 22) :
    (RoundsTo (n * 10 ^ k) m q → exact (Float.ofScientific n false k) = .finite false m q) ∧
    (RoundsTo (n / 10 ^ k) m q → exact (Float.ofScientific n true k) = .finite false m q) := by
  have hsize : k < Float.exactlyRepresentablePowersOfTen.size := Nat.lt_succ_of_le hk
  obtain ⟨l, e, hl, hunpack, hvalue, hfull⟩ :=
    unpack_powerOfTen hk (Array.getElem?_eq_getElem hsize)
  have hleft := unpack_toFloat hn hlt
  have hself := value_toFloat (log2_le hn hlt)
  have hone := (full_mul hn hlt).pos
  have hfine : Fine (n * 2 ^ (52 - n.log2) * l) ((n.log2 : Int) - 52 + e) :=
    .inr (Nat.le_trans hfull (Nat.le_mul_of_pos_left l hone))
  constructor
  · intro h
    have hproduct := mul_of_roundsTo hone hl hm hpos hfine (by rwa [hself, hvalue])
    rw [Float.ofScientific, dif_pos ⟨hlt, hk⟩]
    change exact (.ofModel (.pack (UnpackedFloat.mul .binary64 n.toUInt64.toFloat.toModel.unpack
      Float.exactlyRepresentablePowersOfTen[k].toModel.unpack))) = _
    rw [hleft, hunpack, hproduct, exact_pack hm hpos hq]
    rfl
  · intro h
    have hquotient := div_of_roundsTo hone hl hm hpos (by rwa [hself, hvalue])
    rw [Float.ofScientific, dif_pos ⟨hlt, hk⟩]
    change exact (.ofModel (.pack (UnpackedFloat.div .binary64 n.toUInt64.toFloat.toModel.unpack
      Float.exactlyRepresentablePowersOfTen[k].toModel.unpack))) = _
    rw [hleft, hunpack, hquotient, exact_pack hm hpos hq]
    rfl

omit hq in
/-- All other numbers are rounded from a whole number or from a quotient of two. -/
theorem ofScientific_of_roundsTo {e : Int} (hn : 0 < n) (hlow : -(2048 + (n.log2 : Int)) ≤ e)
    (hhigh : e ≤ 2048) (h : RoundsTo (n * 10 ^ e) m q) :
    UnpackedFloat.ofScientific .binary64 n e = .finite .positive m q hpos := by
  have hlarge : ¬ e > 2 ^ Format.binary64.exponentBits := not_lt.2 hhigh
  have hsmall : ¬ e < -((2 ^ Format.binary64.exponentBits : Int) + n.log2) := not_lt.2 hlow
  have hten : ∀ k, 0 < 10 ^ k := fun k => Nat.pow_pos (by decide)
  rw [UnpackedFloat.ofScientific, dif_neg (Nat.ne_of_gt hn), if_neg hlarge, if_neg hsmall]
  by_cases hsign : 0 ≤ e
  · obtain ⟨k, rfl⟩ := Int.eq_ofNat_of_zero_le hsign
    rw [if_pos hsign]
    have hshift : 0 < n <<< 53 := by
      rw [Nat.shiftLeft_eq]
      exact Nat.mul_pos hn (by decide)
    have hfine : Fine (n <<< 53 * 10 ^ k) (-53 + 0) := by
      right
      rw [Nat.shiftLeft_eq]
      nlinarith [hten k, Nat.mul_le_mul hn (hten k)]
    have hvalue : ((n <<< 53 : Nat) : ℚ) * 2 ^ (-53 : Int) * ((10 ^ k : Nat) * 2 ^ (0 : Int)) =
        n * 10 ^ (k : Int) := by
      rw [Nat.shiftLeft_eq, zpow_natCast]
      push_cast
      norm_num
      ring
    rw [← hvalue] at h
    exact mul_of_roundsTo hshift (hten k) hm hpos hfine h
  · obtain ⟨k, rfl⟩ : ∃ k : Nat, e = -k := ⟨(-e).toNat, by omega⟩
    rw [if_neg hsign]
    have hvalue : (n : ℚ) * 2 ^ (0 : Int) / ((10 ^ (-(-(k : Int))).toNat : Nat) * 2 ^ (0 : Int)) =
        n * 10 ^ (-(k : Int)) := by
      rw [neg_neg, Int.toNat_natCast, zpow_neg, zpow_natCast]
      push_cast
      rw [mul_one, mul_one, div_eq_mul_inv]
    rw [← hvalue] at h
    exact div_of_roundsTo hn (hten _) hm hpos h

theorem exact_ofScientific {e : Int} (hn : 0 < n) (hlow : -(2048 + (n.log2 : Int)) ≤ e)
    (hhigh : e ≤ 2048) (h : RoundsTo (n * 10 ^ e) m q) :
    exact (Float.ofScientific n (e < 0) e.natAbs) = .finite false m q := by
  by_cases hsmall : n < 2 ^ 53 ∧ e.natAbs ≤ 22
  · have hfast := exact_ofScientific_of_small hm hpos hq hn hsmall.1 hsmall.2
    by_cases hsign : e < 0
    · have hvalue : (n : ℚ) / 10 ^ e.natAbs = n * 10 ^ e := by
        have he : e = -(e.natAbs : Int) := by omega
        rw [div_eq_mul_inv, ← zpow_natCast, ← zpow_neg, ← he]
      rw [decide_eq_true hsign]
      exact hfast.2 (by rwa [hvalue])
    · have hvalue : (n : ℚ) * 10 ^ e.natAbs = n * 10 ^ e := by
        have he : e = (e.natAbs : Int) := by omega
        rw [← zpow_natCast, ← he]
      rw [decide_eq_false hsign]
      exact hfast.1 (by rwa [hvalue])
  · have hsign : (if decide (e < 0) = true then Int.negOfNat e.natAbs else Int.ofNat e.natAbs) =
        e := by
      by_cases hneg : e < 0
      · rw [if_pos (decide_eq_true hneg), Int.negOfNat_eq]
        simp only [Int.ofNat_eq_natCast]
        omega
      · rw [if_neg (by simpa using hneg)]
        simp only [Int.ofNat_eq_natCast]
        omega
    rw [Float.ofScientific, dif_neg hsmall]
    simp only [hsign]
    change exact (.ofModel (.pack (UnpackedFloat.ofScientific .binary64 n e))) = _
    rw [ofScientific_of_roundsTo hm hpos hn hlow hhigh h, exact_pack hm hpos hq]
    rfl

omit hq in
theorem RoundsTo.two_zpow_le {v : ℚ} (h : RoundsTo v m q) : 2 ^ (-1075 : Int) ≤ v := by
  have hone : (1 : ℚ) ≤ m := by exact_mod_cast hpos
  have hreach : reach m q ≤ 1 / 2 := by
    unfold reach
    split <;> norm_num
  calc (2 : ℚ) ^ (-1075 : Int) ≤ 2 ^ (-1 + q) := two_zpow_le_two_zpow (by have := hm.least; omega)
    _ = 1 / 2 * 2 ^ q := by
      rw [two_zpow_add]
      norm_num
    _ ≤ (m - reach m q) * 2 ^ q :=
      mul_le_mul_of_nonneg_right (by linarith) (two_zpow_pos q).le
    _ ≤ v := h.low

/-- A decimal number is read as the float whose neighbourhood it lies in. -/
theorem exact_ofDecimal {e : Int} (h : RoundsTo (n * 10 ^ e) m q) :
    exact (ofDecimal n e) = .finite false m q := by
  have hleast := h.two_zpow_le hm hpos
  have hmost : (n : ℚ) * 10 ^ e < 2 ^ (1024 : Int) :=
    lt_of_lt_of_le (h.lt_two_zpow hm) (two_zpow_le_two_zpow (by omega))
  have hn : 0 < n := by
    rcases Nat.eq_zero_or_pos n with rfl | hn
    · have hzero := lt_of_lt_of_le (two_zpow_pos (-1075)) hleast
      simp at hzero
    · exact hn
  obtain ⟨d, hd, hlower, hupper⟩ := length_toDigits hn
  obtain ⟨hlarge, hsmall⟩ := place_bounds hlower hupper hleast hmost
  have hlog : d ≤ n.log2 :=
    (Nat.le_log2 (Nat.ne_of_gt hn)).2 (Nat.le_trans (Nat.pow_le_pow_left (by decide) d) hlower)
  have hread : ofDecimal n e = Float.ofScientific n (e < 0) e.natAbs := by
    simp only [ofDecimal, hd]
    rw [if_neg (by push_cast; omega), if_neg (by push_cast; omega)]
  rw [hread]
  exact exact_ofScientific hm hpos hq hn (by omega) (by omega) h

end

end SheetBoard.Number
