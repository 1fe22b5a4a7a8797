import SheetBoard.Cell

/-! The order of floats other than NaN is the order of keys, and two floats are equal if their keys
are. -/

namespace SheetBoard.Number

open Float.Model Float.Model.UnpackedFloat Std

/-- What a float is ordered by: its place among the infinities, the numbers of either sign and zero,
then its exponent and its mantissa. -/
structure OrderKey where
  place : Int
  exponent : Int
  mantissa : Int
  deriving Repr, DecidableEq

namespace OrderKey

instance : Ord OrderKey where
  compare := compareLex (compareOn place) (compareLex (compareOn exponent) (compareOn mantissa))

instance : TransOrd OrderKey := inferInstanceAs (TransCmp (compareLex _ _))

theorem compare_def (a b : OrderKey) :
    compare a b = (compare a.place b.place).then
      ((compare a.exponent b.exponent).then (compare a.mantissa b.mantissa)) := rfl

/-- The key of an unpacked float. A negative number with larger parts comes first. -/
def ofUnpacked : UnpackedFloat → OrderKey
  | .infinity .negative => ⟨-2, 0, 0⟩
  | .finite .negative m e _ => ⟨-1, -e, -m⟩
  | .zero _ => ⟨0, 0, 0⟩
  | .finite .positive m e _ => ⟨1, e, m⟩
  | .infinity .positive => ⟨2, 0, 0⟩
  | .notANumber => ⟨3, 0, 0⟩

theorem compare_neg (a b : Int) : compare (-a) (-b) = (compare a b).swap := by
  rw [Int.compare_swap]
  simp only [compare, compareOfLessAndEq, Int.neg_lt_neg_iff, Int.neg_inj, eq_comm]

theorem compare_natCast (m n : Nat) : compare (m : Int) (n : Int) = compare m n := by
  simp only [compare, compareOfLessAndEq, Int.ofNat_lt, Int.ofNat_inj]

theorem compare_finite_negative {m n : Nat} {d e : Int} (hm : 0 < m) (hn : 0 < n) :
    compare (ofUnpacked (.finite .negative m d hm)) (ofUnpacked (.finite .negative n e hn)) =
      ((compare d e).then (compare m n)).swap := by
  change compare (⟨-1, -d, -m⟩ : OrderKey) ⟨-1, -e, -n⟩ = _
  simp [compare_def, compare_neg, compare_natCast, Ordering.swap_then]

theorem compare_finite_positive {m n : Nat} {d e : Int} (hm : 0 < m) (hn : 0 < n) :
    compare (ofUnpacked (.finite .positive m d hm)) (ofUnpacked (.finite .positive n e hn)) =
      (compare d e).then (compare m n) := by
  change compare (⟨1, d, m⟩ : OrderKey) ⟨1, e, n⟩ = _
  simp [compare_def, compare_natCast]

theorem compare_ofUnpacked {u v : UnpackedFloat} (hu : u.isNaN = false) (hv : v.isNaN = false) :
    u.compare v = some (compare (ofUnpacked u) (ofUnpacked v)) := by
  cases u with
  | notANumber => cases hu
  | infinity s =>
      cases v with
      | notANumber => cases hv
      | infinity t => cases s <;> cases t <;> rfl
      | zero t => cases s <;> rfl
      | finite t n e hn => cases s <;> cases t <;> rfl
  | zero s =>
      cases v with
      | notANumber => cases hv
      | infinity t => cases t <;> rfl
      | zero t => rfl
      | finite t n e hn => cases t <;> rfl
  | finite s m d hm =>
      cases v with
      | notANumber => cases hv
      | infinity t => cases s <;> cases t <;> rfl
      | zero t => cases s <;> rfl
      | finite t n e hn =>
          cases s with
          | negative =>
              cases t with
              | negative => rw [compare_finite_negative]; rfl
              | positive => rfl
          | positive =>
              cases t with
              | negative => rfl
              | positive => rw [compare_finite_positive]; rfl

end OrderKey

/-- The key of a float. -/
def orderKey (x : Float) : OrderKey := .ofUnpacked x.toModel.unpack

theorem lt_iff_unpack (x y : Float) : x < y ↔ x.toModel.unpack.lt y.toModel.unpack = true := by
  have hlt : x < y ↔ decide (x.toModel < y.toModel) = true := Iff.rfl
  rw [hlt, decide_eq_true_iff]
  exact Iff.rfl

theorem beq_eq_unpack (x y : Float) :
    (x == y) = (x.toModel.unpack.compare y.toModel.unpack == some .eq) := rfl

section

variable {x y z : Float} (hx : x.isNaN = false) (hy : y.isNaN = false)
include hx hy

theorem compare_unpack : x.toModel.unpack.compare y.toModel.unpack =
    some (compare (orderKey x) (orderKey y)) :=
  OrderKey.compare_ofUnpacked hx hy

theorem lt_iff_orderKey : x < y ↔ compare (orderKey x) (orderKey y) = .lt := by
  simp [lt_iff_unpack, UnpackedFloat.lt, compare_unpack hx hy]

theorem beq_iff_orderKey : (x == y) = true ↔ compare (orderKey x) (orderKey y) = .eq := by
  simp [beq_eq_unpack, compare_unpack hx hy]

/-- Floats other than NaN are ordered as their keys are. -/
theorem order?_eq : order? x y = some (compare (orderKey x) (orderKey y)) := by
  have hgreater : x > y ↔ compare (orderKey x) (orderKey y) = .gt := by
    rw [gt_iff_lt, lt_iff_orderKey hy hx, OrientedCmp.gt_iff_lt]
  unfold order?
  simp only [lt_iff_orderKey hx hy, beq_iff_orderKey hx hy, hgreater]
  cases compare (orderKey x) (orderKey y) <;> rfl

end

theorem eq_notANumber_of_isNaN {x : Float} (h : x.isNaN = true) :
    x.toModel.unpack = .notANumber := by
  have hnan : x.toModel.unpack.isNaN = true := h
  cases hx : x.toModel.unpack with
  | notANumber => rfl
  | _ =>
      rw [hx] at hnan
      cases hnan

/-- NaN is equal to nothing, itself included. -/
theorem not_isNaN_of_beq {x y : Float} (h : (x == y) = true) :
    x.isNaN = false ∧ y.isNaN = false := by
  rw [beq_eq_unpack] at h
  constructor
  · cases hx : x.isNaN with
    | false => rfl
    | true =>
        rw [eq_notANumber_of_isNaN hx] at h
        cases h
  · cases hy : y.isNaN with
    | false => rfl
    | true =>
        rw [eq_notANumber_of_isNaN hy] at h
        cases hx : x.toModel.unpack <;> rw [hx] at h <;> cases h

theorem order?_of_isNaN {x : Float} (h : x.isNaN = true) (y : Float) : order? x y = none := by
  have hx := eq_notANumber_of_isNaN h
  have hless : UnpackedFloat.notANumber.compare y.toModel.unpack = none := rfl
  have hgreater : y.toModel.unpack.compare .notANumber = none := by
    cases y.toModel.unpack <;> rfl
  simp [order?, lt_iff_unpack, beq_eq_unpack, UnpackedFloat.lt, hx, hless, hgreater]

theorem order?_eq_some_eq {x y : Float} : order? x y = some .eq ↔ (x == y) = true := by
  constructor
  · intro h
    unfold order? at h
    split at h
    · cases h
    · split at h
      · assumption
      · split at h <;> cases h
  · intro h
    obtain ⟨hx, hy⟩ := not_isNaN_of_beq h
    rw [order?_eq hx hy, (beq_iff_orderKey hx hy).1 h]

theorem beq_self {x : Float} (h : x.isNaN = false) : (x == x) = true :=
  (beq_iff_orderKey h h).2 ReflCmp.compare_self

theorem beq_symm {x y : Float} (h : (x == y) = true) : (y == x) = true := by
  obtain ⟨hx, hy⟩ := not_isNaN_of_beq h
  exact (beq_iff_orderKey hy hx).2 (OrientedCmp.eq_symm ((beq_iff_orderKey hx hy).1 h))

theorem beq_trans {x y z : Float} (hxy : (x == y) = true) (hyz : (y == z) = true) :
    (x == z) = true := by
  obtain ⟨hx, hy⟩ := not_isNaN_of_beq hxy
  have hz := (not_isNaN_of_beq hyz).2
  exact (beq_iff_orderKey hx hz).2
    (TransCmp.eq_trans ((beq_iff_orderKey hx hy).1 hxy) ((beq_iff_orderKey hy hz).1 hyz))

/-- Equal floats have the same order to any other. -/
theorem order?_congr {x y : Float} (h : (x == y) = true) (z : Float) : order? z x = order? z y := by
  obtain ⟨hx, hy⟩ := not_isNaN_of_beq h
  cases hz : z.isNaN with
  | true => rw [order?_of_isNaN hz, order?_of_isNaN hz]
  | false =>
      rw [order?_eq hz hx, order?_eq hz hy, TransCmp.congr_right ((beq_iff_orderKey hx hy).1 h)]

end SheetBoard.Number
