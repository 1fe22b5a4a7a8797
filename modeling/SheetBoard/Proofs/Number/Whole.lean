import Mathlib
import SheetBoard.Number.Read

/-! Whole numbers as floats. A whole number up to `2 ^ 53` is read as itself, and a larger one as
something that is no smaller. -/

namespace SheetBoard.Number

open Float.Model Float.Model.UnpackedFloat

/-! ### The exact value -/

/-- What an unpacked float stands for. -/
def Exact.ofUnpacked : UnpackedFloat → Exact
  | .notANumber => .nan
  | .infinity sign => .infinite (sign == .negative)
  | .zero sign => .finite (sign == .negative) 0 (-1074)
  | .finite sign m e _ => .finite (sign == .negative) m e

theorem toNat_unpackMantissa (b : BitVec Format.binary64.numBits) :
    (unpackMantissa b).toNat = b.toNat % 2 ^ 52 := by
  simp [unpackMantissa]

theorem toNat_unpackExponent (b : BitVec Format.binary64.numBits) :
    (unpackExponent b).toNat = b.toNat / 2 ^ 52 % 2048 := by
  simp [unpackExponent, Nat.shiftRight_eq_div_pow]

theorem ofBitVec_unpackSign (b : BitVec Format.binary64.numBits) :
    (Sign.ofBitVec (unpackSign b) == .negative) = decide (halfWord ≤ b.toNat) := by
  have hbit : (unpackSign b).toNat = b.toNat / 2 ^ 63 % 2 := by
    simp [unpackSign, Nat.shiftRight_eq_div_pow]
  have hlt : b.toNat < 2 ^ 64 := b.isLt
  have hhalf : halfWord = 2 ^ 63 := rfl
  unfold Sign.ofBitVec
  by_cases h : 2 ^ 63 ≤ b.toNat
  · have hne : unpackSign b ≠ 0#1 := by
      intro hzero
      rw [hzero] at hbit
      simp at hbit
      omega
    rw [hhalf, decide_eq_true h]
    simp only [hne, if_false]
    rfl
  · have hzero : unpackSign b = 0#1 := by
      apply BitVec.eq_of_toNat_eq
      rw [hbit]
      simp
      omega
    rw [hhalf, decide_eq_false h]
    simp only [hzero, if_true]
    rfl

theorem toNat_append_one {w : Nat} (b : BitVec w) : (1#1 ++ b).toNat = 2 ^ w + b.toNat := by
  rw [BitVec.toNat_append, ← Nat.shiftLeft_add_eq_or_of_lt b.isLt]
  simp [Nat.shiftLeft_eq]

/-- The bits are read as the operations on floats read them. -/
theorem exact_eq (x : Float) : exact x = .ofUnpacked x.toModel.unpack := by
  let b : BitVec Format.binary64.numBits := x.toModel.toBits.toBitVec
  have hexponent : ∀ n < 2048,
      unpackExponent b = BitVec.ofNat _ n ↔ b.toNat / 2 ^ 52 % 2048 = n := by
    intro n hn
    have hmod : n % 2 ^ Format.binary64.exponentBits = n := Nat.mod_eq_of_lt hn
    rw [← toNat_unpackExponent, ← BitVec.toNat_inj, BitVec.toNat_ofNat, hmod]
  have hmantissa : unpackMantissa b = 0#_ ↔ b.toNat % 2 ^ 52 = 0 := by
    rw [← toNat_unpackMantissa, ← BitVec.toNat_inj]
    rfl
  have hlast : -BitVec.ofNat Format.binary64.exponentBits 1 = BitVec.ofNat _ 2047 := rfl
  have hsign := ofBitVec_unpackSign b
  change (if b.toNat / 2 ^ 52 % 2048 = 2047 then
      if b.toNat % 2 ^ 52 = 0 then .infinite (decide (halfWord ≤ b.toNat)) else .nan
    else if b.toNat / 2 ^ 52 % 2048 = 0 then
      .finite (decide (halfWord ≤ b.toNat)) (b.toNat % 2 ^ 52) (-1074)
    else .finite (decide (halfWord ≤ b.toNat)) (2 ^ 52 + b.toNat % 2 ^ 52)
      (((b.toNat / 2 ^ 52 % 2048 : Nat) : Int) - 1075)) =
    Exact.ofUnpacked (UnpackedFloat.unpack _ b)
  rw [UnpackedFloat.unpack, ← hsign]
  simp only [hlast, hexponent 2047 (by decide), hexponent 0 (by decide), hmantissa]
  by_cases htop : b.toNat / 2 ^ 52 % 2048 = 2047
  · by_cases hfraction : b.toNat % 2 ^ 52 = 0
    · simp only [htop, hfraction, if_true, Exact.ofUnpacked]
    · simp only [htop, hfraction, if_true, if_false, Exact.ofUnpacked]
  · by_cases hbottom : b.toNat / 2 ^ 52 % 2048 = 0
    · by_cases hfraction : b.toNat % 2 ^ 52 = 0
      · simp only [hbottom, hfraction, if_true, dite_true, Exact.ofUnpacked]
        rfl
      · simp only [hbottom, hfraction, if_true, if_false, dite_false, Exact.ofUnpacked,
          toNat_unpackMantissa, toNat_unpackExponent]
        rfl
    · have hone := toNat_append_one (unpackMantissa b)
      simp only [htop, hbottom, if_false, Exact.ofUnpacked, hone, toNat_unpackMantissa,
        toNat_unpackExponent]
      rfl

theorem isNaN_eq (x : Float) : x.isNaN = decide (exact x = .nan) := by
  rw [exact_eq, Float.isNaN, Float.Model.isNaN]
  cases x.toModel.unpack <;> simp [Exact.ofUnpacked, UnpackedFloat.isNaN]

theorem isInf_eq (x : Float) : x.isInf = decide (∃ negative, exact x = .infinite negative) := by
  rw [exact_eq, Float.isInf, Float.Model.isInf]
  cases x.toModel.unpack <;> simp [Exact.ofUnpacked, UnpackedFloat.isInf]

/-! ### Rounding -/

theorem targetExponent_eq (m : Nat) (e : Int) :
    Format.binary64.targetExponent (totalExponent m e) = max (m.log2 + e - 52) (-1074) := by
  have hbits : (Format.binary64.mantissaBits : Int) = 53 := rfl
  have hleast : Format.binary64.minExponent = -1074 := rfl
  rw [Format.targetExponent, totalExponent, hbits, hleast]
  omega

/-- A mantissa without its last `k` bits, and what is known of them. -/
def dropBits (n k : Nat) : ExtendedMantissa := (⟨n, false, false⟩ : ExtendedMantissa) >>> k

theorem dropBits_succ (n k : Nat) : dropBits n (k + 1) = (dropBits n k).shiftRightOne := rfl

theorem mantissa_dropBits (n k : Nat) : (dropBits n k).mantissa = n / 2 ^ k := by
  induction k with
  | zero => exact (Nat.div_one _).symm
  | succ k ih =>
      rw [dropBits_succ, ExtendedMantissa.shiftRightOne, ih, Nat.div_div_eq_div_mul, Nat.pow_succ]

/-- Nothing is lost of a multiple of the power of two. -/
theorem dropBits_mul (m k : Nat) : dropBits (m * 2 ^ k) k = ⟨m, false, false⟩ := by
  induction k generalizing m with
  | zero => exact congrArg (dropBits · 0) (Nat.mul_one m)
  | succ k ih =>
      have hpower : m * 2 ^ (k + 1) = m * 2 * 2 ^ k := by rw [Nat.pow_succ]; ac_rfl
      rw [dropBits_succ, hpower, ih]
      simp [ExtendedMantissa.shiftRightOne]

theorem roundedMantissa_bounds (x : ExtendedMantissa) :
    x.mantissa ≤ x.roundedMantissa ∧ x.roundedMantissa ≤ x.mantissa + 1 := by
  obtain ⟨m, roundBit, stickyBit⟩ := x
  cases roundBit <;> cases stickyBit <;>
    simp [ExtendedMantissa.roundedMantissa, ExtendedMantissa.accuracy, Accuracy.roundToNearestEven]
  omega

theorem log2_mul_two_pow {n : Nat} (hn : n ≠ 0) (k : Nat) : (n * 2 ^ k).log2 = n.log2 + k := by
  have hpos : 0 < n * 2 ^ k := Nat.mul_pos (Nat.pos_of_ne_zero hn) (Nat.two_pow_pos k)
  apply (Nat.log2_eq_iff (Nat.ne_of_gt hpos)).2
  constructor
  · rw [Nat.pow_add]
    exact Nat.mul_le_mul_right _ (Nat.log2_self_le hn)
  · rw [Nat.add_right_comm, Nat.pow_add]
    exact Nat.mul_lt_mul_of_pos_right Nat.lt_log2_self (Nat.two_pow_pos k)

/-- A mantissa with all its bits. -/
structure Full (m : Nat) : Prop where
  le : 2 ^ 52 ≤ m
  lt : m < 2 ^ 53

namespace Full

variable {m : Nat} (h : Full m)
include h

theorem pos : 0 < m := Nat.lt_of_lt_of_le (by decide) h.le

theorem log2_eq : m.log2 = 52 := (Nat.log2_eq_iff (Nat.ne_of_gt h.pos)).2 ⟨h.le, h.lt⟩

theorem log2_mul (k : Nat) : (m * 2 ^ k).log2 = 52 + k := by
  rw [log2_mul_two_pow (Nat.ne_of_gt h.pos), h.log2_eq]

end Full

section

variable {n k : Nat} (hk : n.log2 = 52 + k) {e : Int} (he : -1074 ≤ e + k)
include hk

theorem full_div : Full (n / 2 ^ k) := by
  have hne : n ≠ 0 := by
    rintro rfl
    have hzero : Nat.log2 0 = 0 := by decide
    omega
  constructor
  · rw [Nat.le_div_iff_mul_le (Nat.two_pow_pos k), ← Nat.pow_add, ← hk]
    exact Nat.log2_self_le hne
  · rw [Nat.div_lt_iff_lt_mul (Nat.two_pow_pos k), ← Nat.pow_add, Nat.add_comm 53 k,
      ← Nat.log2_lt hne]
    omega

include he

theorem shiftToTargetExponent_eq :
    shiftToTargetExponent .binary64 n e .exact = (dropBits n k, e + k) := by
  have htarget : Format.binary64.targetExponent (totalExponent n e) = e + k := by
    rw [targetExponent_eq, hk]
    omega
  have hamount : (e + k - e).toNat = k := by omega
  simp only [shiftToTargetExponent, htarget, shiftToExponent, hamount]
  rfl

/-- The rounded mantissa may have one bit more, which the second shift takes off. -/
theorem roundWithAccuracy_eq {m j : Nat} (h : Full m)
    (hm : (dropBits n k).roundedMantissa = m * 2 ^ j) (sign : Sign) :
    roundWithAccuracy .binary64 sign n e .exact = .finite sign m (e + k + j) h.pos := by
  have hagain : shiftToTargetExponent .binary64 (m * 2 ^ j) (e + k) .exact =
      (⟨m, false, false⟩, e + k + j) := by
    have htop : -1074 ≤ e + k + j := by omega
    rw [shiftToTargetExponent_eq (h.log2_mul j) htop, dropBits_mul]
  simp [roundWithAccuracy, shiftToTargetExponent_eq hk he, hm, hagain, Nat.ne_of_gt h.pos]

end

theorem Full.roundWithAccuracy {m : Nat} (h : Full m) (k : Nat) {e : Int} (he : -1074 ≤ e + k)
    (sign : Sign) :
    UnpackedFloat.roundWithAccuracy .binary64 sign (m * 2 ^ k) e .exact =
      .finite sign m (e + k) h.pos := by
  have hrounded : (dropBits (m * 2 ^ k) k).roundedMantissa = m * 2 ^ 0 := by
    rw [dropBits_mul, Nat.pow_zero, Nat.mul_one]
    rfl
  simpa using roundWithAccuracy_eq (h.log2_mul k) he h hrounded sign

/-- Rounding keeps all bits of the mantissa in use, and does not go below the number without its
dropped bits. -/
theorem exists_roundWithAccuracy {n k : Nat} (hk : n.log2 = 52 + k) {e : Int} (he : -1074 ≤ e + k)
    (sign : Sign) : ∃ (m j : Nat) (h : Full m), n / 2 ^ k ≤ m * 2 ^ j ∧
      roundWithAccuracy .binary64 sign n e .exact = .finite sign m (e + k + j) h.pos := by
  obtain ⟨hle, hlt⟩ := roundedMantissa_bounds (dropBits n k)
  rw [mantissa_dropBits] at hle hlt
  have hfull := full_div hk
  by_cases hcarry : (dropBits n k).roundedMantissa < 2 ^ 53
  · have h : Full (dropBits n k).roundedMantissa := ⟨Nat.le_trans hfull.le hle, hcarry⟩
    exact ⟨_, 0, h, by simpa using hle, roundWithAccuracy_eq hk he h (j := 0) (by simp) sign⟩
  · have h : Full (2 ^ 52) := ⟨by decide, by decide⟩
    have hrounded : (dropBits n k).roundedMantissa = 2 ^ 52 * 2 ^ 1 := by
      have hbound := hfull.lt
      omega
    exact ⟨_, 1, h, hrounded ▸ hle, roundWithAccuracy_eq hk he h hrounded sign⟩

/-! ### Packing -/

theorem unpackSign_packComponents {spec : Format} (sign : Sign) (e : BitVec spec.exponentBits)
    (m : BitVec spec.mantissaBitsWithoutImplicit) :
    Sign.ofBitVec (unpackSign (packComponents spec sign e m)) = sign := by
  have hbits : unpackSign (packComponents spec sign e m) = sign.toBitVec := by
    ext i hi
    obtain rfl : i = 0 := by omega
    simp [unpackSign, packComponents, BitVec.getLsbD_append, BitVec.getElem_append]
  rw [hbits]
  cases sign with
  | negative => rfl
  | positive => rfl

section

variable {m : Nat} (h : Full m) {e : Int} (sign : Sign)
include h

theorem Full.unpack_pack (he : -1074 ≤ e) (he' : e ≤ 971) :
    (Float.Model.pack (.finite sign m e h.pos)).unpack = .finite sign m e h.pos := by
  have hbias : (Format.binary64.exponentBias : Int) = 1023 := rfl
  have hlog : m.log2 + 1 = Format.binary64.mantissaBits := by
    rw [h.log2_eq]
    rfl
  have hbiased : (e + Format.binary64.exponentBias +
      Format.binary64.mantissaBitsWithoutImplicit).toNat = (e + 1075).toNat := by
    rw [hbias]
    congr 1
    exact Int.add_assoc e 1023 52
  have hroom : ¬ 2 ^ Format.binary64.exponentBits ≤ (e + 1075).toNat + 1 := by
    have hpower : 2 ^ Format.binary64.exponentBits = 2048 := rfl
    omega
  have hpack : UnpackedFloat.pack .binary64 (.finite sign m e h.pos) =
      packComponents .binary64 sign (BitVec.ofNat _ (e + 1075).toNat) (BitVec.ofNat _ m) := by
    simp only [UnpackedFloat.pack, hbiased, hroom, hlog, if_true, if_false]
  have hexponent : (BitVec.ofNat Format.binary64.exponentBits (e + 1075).toNat).toNat =
      (e + 1075).toNat := by
    rw [BitVec.toNat_ofNat]
    exact Nat.mod_eq_of_lt (by omega)
  have hmantissa : (1#1 ++ BitVec.ofNat Format.binary64.mantissaBitsWithoutImplicit m).toNat =
      m := by
    have hmod : m % 2 ^ Format.binary64.mantissaBitsWithoutImplicit = m - 2 ^ 52 := by
      have hle := h.le
      have hlt := h.lt
      change m % 2 ^ 52 = m - 2 ^ 52
      omega
    rw [toNat_append_one, BitVec.toNat_ofNat, hmod]
    exact Nat.add_sub_cancel' h.le
  have hlast : BitVec.ofNat Format.binary64.exponentBits (e + 1075).toNat ≠ -1#_ := by
    intro heq
    have hvalue := congrArg BitVec.toNat heq
    rw [hexponent] at hvalue
    have hones : (-BitVec.ofNat Format.binary64.exponentBits 1).toNat = 2047 := rfl
    omega
  have hzero : BitVec.ofNat Format.binary64.exponentBits (e + 1075).toNat ≠ 0#_ := by
    intro heq
    have hvalue := congrArg BitVec.toNat heq
    rw [hexponent] at hvalue
    have hnone : (BitVec.ofNat Format.binary64.exponentBits 0).toNat = 0 := rfl
    omega
  have hback : ((e + 1075).toNat : Int) - (Format.binary64.exponentBias +
      Format.binary64.mantissaBitsWithoutImplicit) = e := by
    have hbits : ((Format.binary64.mantissaBitsWithoutImplicit : Nat) : Int) = 52 := rfl
    omega
  change UnpackedFloat.unpack .binary64 (UnpackedFloat.pack .binary64 _) = _
  rw [hpack]
  simp only [UnpackedFloat.unpack, unpackMantissa_packComponents, unpackExponent_packComponents,
    unpackSign_packComponents, hlast, hzero, hexponent, hmantissa, hback, if_false]

theorem Full.unpack_pack_of_lt (he : 971 < e) :
    (Float.Model.pack (.finite sign m e h.pos)).unpack = .infinity sign := by
  have hbias : (Format.binary64.exponentBias : Int) = 1023 := rfl
  have hfull : 2 ^ Format.binary64.exponentBits ≤ (e + Format.binary64.exponentBias +
      Format.binary64.mantissaBitsWithoutImplicit).toNat + 1 := by
    have hbits : ((Format.binary64.mantissaBitsWithoutImplicit : Nat) : Int) = 52 := rfl
    have hpower : 2 ^ Format.binary64.exponentBits = 2048 := rfl
    omega
  have hpack : UnpackedFloat.pack .binary64 (.finite sign m e h.pos) =
      packedInfinity .binary64 sign := by
    simp only [UnpackedFloat.pack, hfull, if_true]
  change UnpackedFloat.unpack .binary64 (UnpackedFloat.pack .binary64 _) = _
  rw [hpack]
  cases sign with
  | negative => rfl
  | positive => rfl

end

/-! ### Whole numbers -/

section

variable {n : Nat} (hpos : 0 < n) (hlt : n < 2 ^ 53)
include hpos hlt

theorem log2_le : n.log2 ≤ 52 :=
  Nat.le_of_lt_succ ((Nat.log2_lt (Nat.ne_of_gt hpos)).2 hlt)

/-- A small number is shifted until all bits are in use. -/
theorem full_mul : Full (n * 2 ^ (52 - n.log2)) := by
  have hlog := log2_le hpos hlt
  have hle := Nat.log2_self_le (Nat.ne_of_gt hpos)
  have hself : n < 2 ^ (n.log2 + 1) := Nat.lt_log2_self
  have hpower := Nat.two_pow_pos (52 - n.log2)
  constructor
  · calc 2 ^ 52 = 2 ^ n.log2 * 2 ^ (52 - n.log2) := by rw [← Nat.pow_add]; congr 1; omega
      _ ≤ n * 2 ^ (52 - n.log2) := Nat.mul_le_mul_right _ hle
  · calc n * 2 ^ (52 - n.log2) < 2 ^ (n.log2 + 1) * 2 ^ (52 - n.log2) :=
          Nat.mul_lt_mul_of_pos_right hself hpower
      _ = 2 ^ 53 := by rw [← Nat.pow_add]; congr 1; omega

theorem ofNat_eq :
    UnpackedFloat.ofNat .binary64 n =
      .finite .positive (n * 2 ^ (52 - n.log2)) (n.log2 - 52) (full_mul hpos hlt).pos := by
  have hfull := full_mul hpos hlt
  have hlog := log2_le hpos hlt
  have hsign : compare (n : Int) 0 = .gt := Int.compare_eq_gt.2 (by omega)
  have htarget : Format.binary64.targetExponent (totalExponent n 0) = n.log2 - 52 := by
    rw [targetExponent_eq]
    omega
  have hamount : (0 - ((n.log2 : Int) - 52)).toNat = 52 - n.log2 := by omega
  have hexponent : (0 : Int) - (52 - n.log2 : Nat) = n.log2 - 52 := by omega
  have hround := hfull.roundWithAccuracy 0 (e := n.log2 - 52) (by omega) .positive
  simp only [UnpackedFloat.ofNat, UnpackedFloat.ofInt, UnpackedFloat.normalize, hsign,
    Int.toNat_natCast, UnpackedFloat.round, htarget, decreaseExponent, hamount, hexponent,
    Nat.shiftLeft_eq]
  simpa using hround

theorem unpack_toFloat :
    (n.toUInt64.toFloat).toModel.unpack =
      .finite .positive (n * 2 ^ (52 - n.log2)) (n.log2 - 52) (full_mul hpos hlt).pos := by
  have hfull := full_mul hpos hlt
  have hlog := log2_le hpos hlt
  have hword : n.toUInt64.toNat = n := UInt64.toNat_ofNat_of_lt' (Nat.lt_trans hlt (by decide))
  have hmodel : n.toUInt64.toFloat.toModel =
      .pack (UnpackedFloat.ofNat .binary64 n.toUInt64.toNat) := rfl
  rw [hmodel, hword, ofNat_eq hpos hlt, hfull.unpack_pack]
  · omega
  · omega

/-- The number one leaves a number as it is. -/
theorem unpack_ofScientific_of_lt :
    (Float.ofScientific n false 0).toModel.unpack =
      .finite .positive (n * 2 ^ (52 - n.log2)) (n.log2 - 52) (full_mul hpos hlt).pos := by
  have hfull := full_mul hpos hlt
  have hlog := log2_le hpos hlt
  have hleft := unpack_toFloat hpos hlt
  have hone : (Float.ofBits 0x3FF0000000000000).toModel.unpack =
      .finite .positive (2 ^ 52) (-52) (by decide) := by rfl
  have hproduct : Float.ofScientific n false 0 =
      n.toUInt64.toFloat * Float.ofBits 0x3FF0000000000000 := by
    rw [Float.ofScientific, dif_pos ⟨hlt, Nat.zero_le 22⟩]
    rfl
  have hmodel : (n.toUInt64.toFloat * Float.ofBits 0x3FF0000000000000).toModel =
      .pack (UnpackedFloat.mul .binary64 n.toUInt64.toFloat.toModel.unpack
        (Float.ofBits 0x3FF0000000000000).toModel.unpack) := rfl
  have hround := hfull.roundWithAccuracy 52 (e := n.log2 - 52 + -52) (by omega) .positive
  have hexponent : (n.log2 : Int) - 52 + -52 + (52 : Nat) = n.log2 - 52 := by omega
  rw [hproduct, hmodel, hleft, hone]
  change (Float.Model.pack
    (UnpackedFloat.roundWithAccuracy .binary64 .positive _ _ .exact)).unpack = _
  rw [hround]
  simp only [hexponent]
  exact hfull.unpack_pack .positive (by omega) (by omega)

end

theorem ofScientific_eq {n : Nat} (hn : n ≠ 0) :
    UnpackedFloat.ofScientific .binary64 n 0 =
      roundWithAccuracy .binary64 .positive (n <<< 53 * 10 ^ 0) (-53 + 0) .exact := by
  have hlarge : ¬ (0 : Int) > 2 ^ Format.binary64.exponentBits := by decide
  have hsmall : ¬ (0 : Int) < -((2 ^ Format.binary64.exponentBits : Int) + n.log2) := by omega
  rw [UnpackedFloat.ofScientific, dif_neg hn, if_neg hlarge, if_neg hsmall, if_pos (Int.le_refl 0)]
  rfl

/-- A large number keeps its first bits, or it is infinite. -/
theorem unpack_ofScientific_of_le {n : Nat} (hle : 2 ^ 53 ≤ n) :
    (Float.ofScientific n false 0).toModel.unpack = .infinity .positive ∨
      ∃ (m j : Nat) (h : Full m), n / 2 ^ (n.log2 - 52) ≤ m * 2 ^ j ∧
        (Float.ofScientific n false 0).toModel.unpack =
          .finite .positive m (n.log2 - 52 + j) h.pos := by
  have hne : n ≠ 0 := by omega
  have hlog : 53 ≤ n.log2 := (Nat.le_log2 hne).2 hle
  have hbits : (n <<< 53 * 10 ^ 0).log2 = 52 + (n.log2 + 1) := by
    rw [Nat.pow_zero, Nat.mul_one, Nat.shiftLeft_eq, log2_mul_two_pow hne]
    omega
  obtain ⟨m, j, hfull, hbound, hround⟩ :=
    exists_roundWithAccuracy hbits (e := -53 + 0) (by omega) .positive
  have hkept : n <<< 53 * 10 ^ 0 / 2 ^ (n.log2 + 1) = n / 2 ^ (n.log2 - 52) := by
    have hshift : n.log2 + 1 = n.log2 - 52 + 53 := by omega
    rw [Nat.pow_zero, Nat.mul_one, Nat.shiftLeft_eq, hshift, Nat.pow_add,
      Nat.mul_div_mul_right _ _ (Nat.two_pow_pos 53)]
  rw [hkept] at hbound
  have htop : (-53 : Int) + 0 + (n.log2 + 1 : Nat) + j = n.log2 - 52 + j := by omega
  simp only [htop] at hround
  have hmodel : (Float.ofScientific n false 0).toModel =
      .pack (.finite .positive m (n.log2 - 52 + j) hfull.pos) := by
    rw [← hround, ← ofScientific_eq hne, Float.ofScientific, dif_neg (by omega)]
    rfl
  rw [hmodel]
  by_cases hroom : (n.log2 : Int) - 52 + j ≤ 971
  · exact .inr ⟨m, j, hfull, hbound, hfull.unpack_pack .positive (by omega) hroom⟩
  · exact .inl (hfull.unpack_pack_of_lt .positive (by omega))

/-! ### Reading whole numbers -/

theorem ofDecimal_eq_ofScientific {n : Nat} (hpos : 0 < n)
    (hsize : (Nat.toDigits 10 n).length ≤ 400) :
    ofDecimal n 0 = Float.ofScientific n false 0 := by
  unfold ofDecimal
  rw [if_neg (by omega), if_neg (by omega)]
  rfl

/-- Counting gives the float that is read for the count. -/
theorem ofDecimal_eq_ofNat {n : Nat} (hpos : 0 < n) (hlt : n < 2 ^ 53) :
    ofDecimal n 0 = Float.ofNat n := by
  have hdigits : (Nat.toDigits 10 n).length ≤ 16 :=
    (Nat.length_toDigits_le_iff (by decide) (by decide)).2 (Nat.lt_trans hlt (by decide))
  exact ofDecimal_eq_ofScientific hpos (by omega)

theorem exact_ofDecimal_of_lt {n : Nat} (hpos : 0 < n) (hlt : n < 2 ^ 53) :
    exact (ofDecimal n 0) = .finite false (n * 2 ^ (52 - n.log2)) (n.log2 - 52) := by
  have hread : ofDecimal n 0 = Float.ofScientific n false 0 := ofDecimal_eq_ofNat hpos hlt
  rw [hread, exact_eq, unpack_ofScientific_of_lt hpos hlt]
  rfl

/-- The float keeps the first bits of a large number, or it is infinite. -/
def KeepsBits (n : Nat) (x : Float) : Prop :=
  exact x = .infinite false ∨
    ∃ m j : Nat, n / 2 ^ (n.log2 - 52) ≤ m * 2 ^ j ∧ exact x = .finite false m (n.log2 - 52 + j)

theorem keepsBits_ofNat {n : Nat} (hle : 2 ^ 53 ≤ n) : KeepsBits n (Float.ofNat n) := by
  have hread : Float.ofNat n = Float.ofScientific n false 0 := rfl
  unfold KeepsBits
  rw [hread, exact_eq]
  rcases unpack_ofScientific_of_le hle with hinfinite | ⟨m, j, hfull, hbound, hfinite⟩
  · left
    rw [hinfinite]
    rfl
  · right
    refine ⟨m, j, hbound, ?_⟩
    rw [hfinite]
    rfl

theorem keepsBits_ofDecimal {n : Nat} (hle : 2 ^ 53 ≤ n) : KeepsBits n (ofDecimal n 0) := by
  by_cases hsize : 400 < ((Nat.toDigits 10 n).length : Int) + 0
  · have hread : ofDecimal n 0 = 1.0 / 0.0 := by
      unfold ofDecimal
      rw [if_neg (by omega), if_pos hsize]
    left
    rw [hread]
    decide
  · rw [ofDecimal_eq_ofScientific (by omega) (by omega)]
    exact keepsBits_ofNat hle

theorem KeepsBits.isNaN {n : Nat} {x : Float} (h : KeepsBits n x) : x.isNaN = false := by
  rw [isNaN_eq, decide_eq_false_iff_not]
  rcases h with hexact | ⟨m, j, -, hexact⟩
  · simp [hexact]
  · simp [hexact]

theorem isNaN_ofDecimal (n : Nat) : (ofDecimal n 0).isNaN = false := by
  by_cases hpos : 0 < n
  · by_cases hlt : n < 2 ^ 53
    · rw [isNaN_eq, exact_ofDecimal_of_lt hpos hlt]
      rfl
    · exact (keepsBits_ofDecimal (Nat.le_of_not_lt hlt)).isNaN
  · obtain rfl : n = 0 := by omega
    decide

theorem toInt_ofDecimal_of_lt {n : Nat} (hpos : 0 < n) (hlt : n < 2 ^ 53) :
    toInt (ofDecimal n 0) = n := by
  have hlog := log2_le hpos hlt
  have hpower := Nat.two_pow_pos (52 - n.log2)
  have hwhole : wholePart (n * 2 ^ (52 - n.log2)) (n.log2 - 52) = n := by
    unfold wholePart
    split
    · have hfull : n.log2 = 52 := by omega
      simp [hfull, twoTo]
    · have hshift : (-((n.log2 : Int) - 52)).toNat = 52 - n.log2 := by omega
      rw [hshift]
      exact Nat.mul_div_cancel n hpower
  have hhalf : (halfWord : Int) = 2 ^ 63 := rfl
  simp only [toInt, exact_ofDecimal_of_lt hpos hlt, hwhole, hhalf]
  simp only [Bool.false_eq_true, if_false]
  omega

/-- A whole number with few enough bits is read as itself. -/
theorem toInt_ofDecimal {n : Nat} (hle : n ≤ 2 ^ 53) : toInt (ofDecimal n 0) = n := by
  rcases Nat.eq_zero_or_pos n with rfl | hpos
  · decide +kernel
  · rcases Nat.lt_or_eq_of_le hle with hlt | rfl
    · exact toInt_ofDecimal_of_lt hpos hlt
    · decide +kernel

/-- The next number is the first one that is read as another. -/
theorem toInt_ofDecimal_limit : toInt (ofDecimal (2 ^ 53 + 1) 0) = 2 ^ 53 := by decide +kernel

/-- Among the numbers that large, the even ones are not passed when a number is rounded. -/
theorem KeepsBits.le_toInt {m n : Nat} {x : Float} (h : KeepsBits n x) (hn : 2 ^ 53 ≤ n)
    (hm : m ≤ 2 ^ 54) (heven : m % 2 = 0) (hle : m ≤ n) : (m : Int) ≤ toInt x := by
  have hhalf : (halfWord : Int) = 2 ^ 63 := rfl
  have hne : n ≠ 0 := by omega
  have hlog : 53 ≤ n.log2 := (Nat.le_log2 hne).2 hn
  -- The number without the bits that a rounded one has no room for.
  have hkept : m ≤ n / 2 ^ (n.log2 - 52) * 2 ^ (n.log2 - 52) := by
    by_cases hone : n.log2 = 53
    · rw [hone]
      omega
    · have hfull := full_div (n := n) (k := n.log2 - 52) (by omega)
      calc m ≤ 2 ^ 52 * 2 ^ 2 := hm
        _ ≤ n / 2 ^ (n.log2 - 52) * 2 ^ (n.log2 - 52) :=
          Nat.mul_le_mul hfull.le (Nat.pow_le_pow_right (by decide) (by omega))
  rcases h with hexact | ⟨l, j, hbound, hexact⟩
  · simp only [toInt, hexact, hhalf]
    simp only [Bool.false_eq_true, if_false]
    omega
  · have hwhole : m ≤ wholePart l (n.log2 - 52 + j) := by
      have htop : ((n.log2 : Int) - 52 + j).toNat = j + (n.log2 - 52) := by omega
      unfold wholePart
      rw [if_pos (by omega), htop]
      calc m ≤ n / 2 ^ (n.log2 - 52) * 2 ^ (n.log2 - 52) := hkept
        _ ≤ l * 2 ^ j * 2 ^ (n.log2 - 52) := Nat.mul_le_mul_right _ hbound
        _ = l * twoTo (j + (n.log2 - 52)) := by rw [Nat.mul_assoc, ← Nat.pow_add]; rfl
    simp only [toInt, hexact, hhalf, Bool.false_eq_true, if_false]
    omega

theorem le_toInt_ofDecimal {m n : Nat} (hn : 2 ^ 53 ≤ n) (hm : m ≤ 2 ^ 54) (heven : m % 2 = 0)
    (hle : m ≤ n) : (m : Int) ≤ toInt (ofDecimal n 0) :=
  (keepsBits_ofDecimal hn).le_toInt hn hm heven hle

theorem two_pow_le_toInt_ofDecimal {n : Nat} (h : 2 ^ 53 ≤ n) : 2 ^ 53 ≤ toInt (ofDecimal n 0) := by
  have hle := le_toInt_ofDecimal (m := 2 ^ 53) h (by decide) (by decide) h
  simpa using hle

end SheetBoard.Number
