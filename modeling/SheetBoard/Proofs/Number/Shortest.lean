import Mathlib
import SheetBoard.Number.Decimal
import SheetBoard.Proofs.Number.Rounding

/-! The fewest digits of a float. They lie in its neighbourhood, since the decimals with seventeen
digits are closer together than the floats. -/

namespace SheetBoard.Number

/-! ### Values -/

def Decimal.value (d : Decimal) : ℚ := d.digits * 10 ^ d.exponent

def Fraction.value (f : Fraction) : ℚ := f.num / f.den

/-- A power of ten with its negative part below the line. -/
theorem ten_zpow_eq (e : Int) : (10 : ℚ) ^ e = tenTo e.toNat / tenTo (-e).toNat := by
  have hsplit : e = (e.toNat : Int) - (-e).toNat := by omega
  conv_lhs => rw [hsplit, zpow_sub₀ (by norm_num), zpow_natCast, zpow_natCast]
  simp [tenTo]

theorem tenTo_pos (n : Nat) : (0 : ℚ) < tenTo n := by
  have hpos : 0 < tenTo n := Nat.pow_pos (by decide)
  exact_mod_cast hpos

theorem Fraction.value_scaleTwo (n : Nat) (e : Int) : (scaleTwo n e).value = n * 2 ^ e := by
  have hsplit : e = (e.toNat : Int) - (-e).toNat := by omega
  conv_rhs => rw [hsplit, zpow_sub₀ (by norm_num), zpow_natCast, zpow_natCast]
  simp [scaleTwo, value, twoTo, mul_div_assoc]

theorem Fraction.den_scaleTwo_pos (n : Nat) (e : Int) : 0 < (scaleTwo n e).den :=
  Nat.two_pow_pos _

/-- Decimals and fractions are compared by their values. -/
theorem Decimal.compare_eq (d : Decimal) {f : Fraction} (hf : 0 < f.den) :
    d.compare f = compareOfLessAndEq d.value f.value := by
  have hden : (0 : ℚ) < f.den := by exact_mod_cast hf
  have hup := tenTo_pos d.exponent.toNat
  have hdown := tenTo_pos (-d.exponent).toNat
  have hvalue : d.value = d.digits * tenTo d.exponent.toNat / tenTo (-d.exponent).toNat := by
    rw [value, ten_zpow_eq, mul_div_assoc]
  have hlt : d.digits * tenTo d.exponent.toNat * f.den < f.num * tenTo (-d.exponent).toNat ↔
      d.value < f.value := by
    rw [hvalue, Fraction.value, div_lt_div_iff₀ hdown hden]
    exact_mod_cast Iff.rfl
  have heq : d.digits * tenTo d.exponent.toNat * f.den = f.num * tenTo (-d.exponent).toNat ↔
      d.value = f.value := by
    rw [hvalue, Fraction.value, div_eq_div_iff hdown.ne' hden.ne']
    exact_mod_cast Iff.rfl
  simp only [Decimal.compare, compareOfLessAndEq, hlt, heq]

/-! ### The neighbourhood of a float -/

section

variable {m : Nat} {q : Int}

theorem two_zpow_quarter (q : Int) : (2 : ℚ) ^ (q - 2) = 2 ^ q / 4 := by
  rw [zpow_sub₀ (by norm_num)]
  norm_num

theorem value_low (hpos : 0 < m) : (interval m q).low.value = (m - reach m q) * 2 ^ q := by
  have hpower : twoTo 52 = 2 ^ 52 := rfl
  simp only [interval, Fraction.value_scaleTwo, two_zpow_quarter, hpower, reach]
  split
  · rw [Nat.cast_sub (by omega)]
    push_cast
    ring
  · rw [Nat.cast_sub (by omega)]
    push_cast
    ring

theorem value_high : (interval m q).high.value = (m + 1 / 2) * 2 ^ q := by
  simp only [interval, Fraction.value_scaleTwo, two_zpow_quarter]
  push_cast
  ring

/-- The test decides whether a decimal lies in the neighbourhood. -/
theorem contains_iff (hpos : 0 < m) (d : Decimal) :
    (interval m q).contains d = true ↔ RoundsTo d.value m q := by
  have hlow : d.compare (interval m q).low =
      compareOfLessAndEq d.value ((m - reach m q) * 2 ^ q) := by
    have hden : 0 < (interval m q).low.den := Fraction.den_scaleTwo_pos _ _
    rw [d.compare_eq hden, value_low hpos]
  have hhigh : d.compare (interval m q).high =
      compareOfLessAndEq d.value ((m + 1 / 2) * 2 ^ q) := by
    have hden : 0 < (interval m q).high.den := Fraction.den_scaleTwo_pos _ _
    rw [d.compare_eq hden, value_high]
  have hclosed : (interval m q).closed = decide (m % 2 = 0) := rfl
  have hrounds : RoundsTo d.value m q ↔ (m - reach m q) * 2 ^ q ≤ d.value ∧
      d.value ≤ (m + 1 / 2) * 2 ^ q ∧
      (d.value = (m - reach m q) * 2 ^ q ∨ d.value = (m + 1 / 2) * 2 ^ q → m % 2 = 0) :=
    ⟨fun h => ⟨h.low, h.high, h.even⟩, fun h => ⟨h.1, h.2.1, h.2.2⟩⟩
  rw [Interval.contains, hlow, hhigh, hclosed, hrounds]
  generalize d.value = v
  generalize ((m - reach m q) * 2 ^ q : ℚ) = a
  generalize ((m + 1 / 2) * 2 ^ q : ℚ) = b
  unfold compareOfLessAndEq
  rcases lt_trichotomy v a with ha | rfl | ha
  · simp [ha, not_le.2 ha]
  · rcases lt_trichotomy v b with hb | rfl | hb
    · simp [hb, hb.le]
    · simp
    · simp [hb.not_gt, hb.ne', not_le.2 hb]
  · rcases lt_trichotomy v b with hb | rfl | hb
    · simp [ha.not_gt, ha.ne', hb, ha.le, hb.le, hb.ne]
    · simp [ha.not_gt, ha.ne', ha.le]
    · simp [ha.not_gt, ha.ne', hb.not_gt, hb.ne', not_le.2 hb]

end

/-! ### Decimals next to a fraction -/

section

variable {f : Fraction} (hnum : 0 < f.num) (hden : 0 < f.den)

include hden in
theorem neighbours_spec (e : Int) : (f.neighbours e).1.value ≤ f.value ∧
    f.value < (f.neighbours e).2.value ∧
    (f.neighbours e).2.value = (f.neighbours e).1.value + 10 ^ e := by
  let a := f.num * tenTo (-e).toNat
  let b := f.den * tenTo e.toNat
  have hlower : (f.neighbours e).1.value = (a / b : Nat) * 10 ^ e := rfl
  have hupper : (f.neighbours e).2.value = (a / b + 1 : Nat) * 10 ^ e := rfl
  have hb : 0 < b := Nat.mul_pos hden (Nat.pow_pos (by decide))
  have hb' : (0 : ℚ) < b := by exact_mod_cast hb
  have hvalue : f.value = a / b * 10 ^ e := by
    have hden' : (f.den : ℚ) ≠ 0 := by exact_mod_cast hden.ne'
    have hup := (tenTo_pos e.toNat).ne'
    have hdown := (tenTo_pos (-e).toNat).ne'
    rw [Fraction.value, ten_zpow_eq]
    push_cast [a, b]
    field_simp
  have hpos := ten_zpow_pos e
  refine ⟨?_, ?_, ?_⟩
  · rw [hlower, hvalue]
    exact mul_le_mul_of_nonneg_right Nat.cast_div_le hpos.le
  · rw [hupper, hvalue]
    apply mul_lt_mul_of_pos_right _ hpos
    rw [div_lt_iff₀' hb']
    exact_mod_cast Nat.lt_mul_div_succ a hb
  · rw [hupper, hlower]
    push_cast
    ring

include hnum hden in
theorem ten_zpow_magnitude_le : (10 : ℚ) ^ f.magnitude ≤ f.value := by
  obtain ⟨c, hc, hlow, -⟩ := length_toDigits hnum
  obtain ⟨d, hd, -, hhigh⟩ := length_toDigits hden
  have hguess : ((digitCount f.num : Int) - digitCount f.den) = c - d := by
    simp only [digitCount, hc, hd]
    omega
  have hone : (Decimal.mk 1 (c - d)).value = 10 ^ ((c : Int) - d) := by simp [Decimal.value]
  simp only [Fraction.magnitude, hguess, Decimal.compare_eq _ hden, hone]
  split
  · -- Even then the fraction has at least the first digit of its numerator.
    have hden' : (0 : ℚ) < f.den := by exact_mod_cast hden
    have hnum' : (10 : ℚ) ^ c ≤ f.num := by exact_mod_cast hlow
    have hden'' : (f.den : ℚ) ≤ 10 ^ (d + 1) := by exact_mod_cast hhigh.le
    have hsplit : (10 : ℚ) ^ ((c : Int) - d - 1) = 10 ^ c / 10 ^ (d + 1) := by
      have hexponent : (c : Int) - d - 1 = (c : Int) - (d + 1 : Nat) := by
        push_cast
        ring
      rw [hexponent, zpow_sub₀ (by norm_num), zpow_natCast, zpow_natCast]
    rw [hsplit, Fraction.value]
    exact div_le_div₀ (by positivity) hnum' hden' hden''
  · rename_i hcompare
    by_contra hlarge
    have hlt := not_le.1 hlarge
    exact hcompare (by simp [compareOfLessAndEq, hlt.not_gt, hlt.ne'])

end

/-- What is picked lies in the range, and nothing is picked only if neither neighbour does. -/
theorem pick?_cases (i : Interval) (f : Fraction) (tie : Tie) (e : Int) :
    (∃ d, i.pick? f tie e = some d ∧ i.contains d = true) ∨
      (i.pick? f tie e = none ∧ i.contains (f.neighbours e).1 = false ∧
        i.contains (f.neighbours e).2 = false) := by
  cases hlower : i.contains (f.neighbours e).1 with
  | true =>
      cases hupper : i.contains (f.neighbours e).2 with
      | true =>
          left
          refine ⟨if f.prefersUpper tie (f.neighbours e).1 then (f.neighbours e).2
            else (f.neighbours e).1, by simp only [Interval.pick?, hlower, hupper], ?_⟩
          split <;> assumption
      | false => exact .inl ⟨_, by simp only [Interval.pick?, hlower, hupper], hlower⟩
  | false =>
      cases hupper : i.contains (f.neighbours e).2 with
      | true => exact .inl ⟨_, by simp only [Interval.pick?, hlower, hupper], hupper⟩
      | false => exact .inr ⟨by simp only [Interval.pick?, hlower, hupper], rfl, rfl⟩

/-! ### The fewest digits -/

section

variable {m : Nat} {q : Int}

theorem RoundsTo.of_lt {v : ℚ} (hlow : (m - reach m q) * 2 ^ q < v)
    (hhigh : v < (m + 1 / 2) * 2 ^ q) : RoundsTo v m q :=
  ⟨hlow.le, hhigh.le, fun hend => by rcases hend with rfl | rfl <;> simp at hlow hhigh⟩

theorem reach_pos (m : Nat) (q : Int) : 0 < reach m q := by
  unfold reach
  split <;> norm_num

variable (hm : Canonical m q) (hpos : 0 < m)
include hm

/-- Seventeen digits tell the floats apart. -/
theorem half_step_lt {g : ℚ} (hg : g * 10 ^ 16 ≤ m * 2 ^ q) :
    g / 2 < reach m q * 2 ^ q ∧ g / 2 < 1 / 2 * 2 ^ q := by
  have hp := two_zpow_pos q
  have hlt : (m : ℚ) < 2 ^ 53 := by exact_mod_cast hm.lt
  have hbound : (m : ℚ) * 2 ^ q ≤ 2 ^ 53 * 2 ^ q := mul_le_mul_of_nonneg_right hlt.le hp.le
  have hhalf : g / 2 < 1 / 2 * 2 ^ q := by
    norm_num at hg hbound ⊢
    linarith
  refine ⟨?_, hhalf⟩
  unfold reach
  split
  · rename_i hpower
    rw [hpower.1] at hg
    push_cast at hg
    norm_num at hg ⊢
    linarith
  · exact hhalf

include hpos

/-- With seventeen digits the nearer neighbour is close enough. -/
theorem contains_neighbours :
    (interval m q).contains ((Fraction.scaleTwo m q).neighbours
        ((Fraction.scaleTwo m q).magnitude - 16)).1 = true ∨
      (interval m q).contains ((Fraction.scaleTwo m q).neighbours
        ((Fraction.scaleTwo m q).magnitude - 16)).2 = true := by
  have hnum : 0 < (Fraction.scaleTwo m q).num := Nat.mul_pos hpos (Nat.two_pow_pos _)
  have hden := Fraction.den_scaleTwo_pos m q
  have hmagnitude := ten_zpow_magnitude_le hnum hden
  obtain ⟨hlower, hupper, hstep⟩ :=
    neighbours_spec hden ((Fraction.scaleTwo m q).magnitude - 16)
  rw [Fraction.value_scaleTwo] at hmagnitude hlower hupper
  have hgrid : (10 : ℚ) ^ ((Fraction.scaleTwo m q).magnitude - 16) * 10 ^ 16 ≤ m * 2 ^ q := by
    refine le_trans (le_of_eq ?_) hmagnitude
    rw [← zpow_natCast, ← zpow_add₀ (by norm_num)]
    congr 1
    push_cast
    ring
  obtain ⟨hreach, hhalf⟩ := half_step_lt hm hgrid
  have hp := mul_pos (reach_pos m q) (two_zpow_pos q)
  rw [contains_iff hpos, contains_iff hpos]
  by_cases hnear : (m : ℚ) * 2 ^ q - ((Fraction.scaleTwo m q).neighbours
      ((Fraction.scaleTwo m q).magnitude - 16)).1.value ≤
        10 ^ ((Fraction.scaleTwo m q).magnitude - 16) / 2
  · left
    apply RoundsTo.of_lt
    · rw [sub_mul]
      linarith
    · rw [add_mul]
      linarith
  · right
    apply RoundsTo.of_lt
    · rw [sub_mul]
      linarith
    · rw [add_mul]
      linarith

/-- The search for the fewest digits ends, and what it finds is in the neighbourhood. -/
theorem exists_pick? (tie : Tie) : ∃ d,
    ((List.range 17).findSome? fun (n : Nat) => (interval m q).pick? (.scaleTwo m q) tie
      ((Fraction.scaleTwo m q).magnitude - n)) = some d ∧
    (interval m q).contains d = true := by
  cases hfound : (List.range 17).findSome? fun (n : Nat) => (interval m q).pick? (.scaleTwo m q) tie
      ((Fraction.scaleTwo m q).magnitude - n) with
  | some d =>
      obtain ⟨n, -, hpick⟩ := List.exists_of_findSome?_eq_some hfound
      rcases pick?_cases (interval m q) (.scaleTwo m q) tie
        ((Fraction.scaleTwo m q).magnitude - n) with ⟨d', hd', hcontains⟩ | ⟨hnone, -⟩
      · rw [hpick] at hd'
        exact ⟨d, rfl, Option.some.inj hd' ▸ hcontains⟩
      · rw [hnone] at hpick
        cases hpick
  | none =>
      have hlast : (interval m q).pick? (.scaleTwo m q) tie
          ((Fraction.scaleTwo m q).magnitude - 16) = none := by
        have hall := List.findSome?_eq_none_iff.1 hfound 16 (by simp)
        simpa only [Nat.cast_ofNat] using hall
      rcases pick?_cases (interval m q) (.scaleTwo m q) tie
        ((Fraction.scaleTwo m q).magnitude - 16) with ⟨d, hd, -⟩ | ⟨-, hlower, hupper⟩
      · rw [hlast] at hd
        cases hd
      · rcases contains_neighbours hm hpos with h | h
        · rw [hlower] at h
          cases h
        · rw [hupper] at h
          cases h

theorem roundsTo_shortest (tie : Tie) : RoundsTo (shortest tie m q).value m q := by
  obtain ⟨d, hfound, hcontains⟩ := exists_pick? hm hpos tie
  simp only [shortest, hfound, Option.getD_some]
  exact (contains_iff hpos d).1 hcontains

end

theorem Decimal.value_trim (d : Decimal) : d.trim.value = d.value := by
  fun_induction Decimal.trim d with
  | case1 d h ih =>
      rw [ih, Decimal.value, Decimal.value]
      have hdigits : (d.digits : ℚ) = (d.digits / 10 : Nat) * 10 := by
        have hsplit : d.digits = d.digits / 10 * 10 := by omega
        exact_mod_cast hsplit
      rw [hdigits, zpow_add_one₀ (by norm_num)]
      ring
  | case2 d h => rfl

end SheetBoard.Number
