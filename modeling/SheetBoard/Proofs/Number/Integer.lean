import SheetBoard.Proofs.Number.ReadBack

/-! Integers as floats. Up to `2 ^ 53` an integer is exact; a larger one is rounded and stays as
large as that, and a negative one stays negative. -/

namespace SheetBoard.Number

theorem toInt_ofNat {n : Nat} (hle : n ≤ 2 ^ 53) : toInt (Float.ofNat n) = n := by
  rcases Nat.eq_zero_or_pos n with rfl | hpos
  · decide +kernel
  · rcases Nat.lt_or_eq_of_le hle with hlt | rfl
    · rw [← ofDecimal_eq_ofNat hpos hlt, toInt_ofDecimal hle]
    · decide +kernel

/-- The float of a number is not negative, whether it is exact or not. -/
theorem exact_ofNat_cases (n : Nat) : exact (Float.ofNat n) = .infinite false ∨
    ∃ m q, exact (Float.ofNat n) = .finite false m q := by
  rcases Nat.eq_zero_or_pos n with rfl | hpos
  · exact .inr ⟨0, -1074, by decide +kernel⟩
  · rcases Nat.lt_or_ge n (2 ^ 53) with hlt | hle
    · rw [← ofDecimal_eq_ofNat hpos hlt]
      exact .inr ⟨_, _, exact_ofDecimal_of_lt hpos hlt⟩
    · rcases keepsBits_ofNat hle with hinfinite | ⟨m, j, -, hfinite⟩
      · exact .inl hinfinite
      · exact .inr ⟨m, _, hfinite⟩

theorem exact_neg_of_infinite {x : Float} {negative : Bool} (hx : exact x = .infinite negative) :
    exact (-x) = .infinite (!negative) := by
  have hvalue : exact (withSign negative (1.0 / 0.0)) = .infinite negative := by
    cases negative <;> decide +kernel
  rw [eq_of_infinite hx hvalue]
  cases negative <;> decide +kernel

theorem exact_neg_ofNat_cases (n : Nat) : exact (-Float.ofNat n) = .infinite true ∨
    ∃ m q, exact (-Float.ofNat n) = .finite true m q := by
  rcases exact_ofNat_cases n with hinfinite | ⟨m, q, hfinite⟩
  · exact .inl (exact_neg_of_infinite hinfinite)
  · exact .inr ⟨m, q, exact_neg hfinite⟩

theorem toInt_neg_ofNat_le (n : Nat) : toInt (-Float.ofNat n) ≤ 0 := by
  have hhalf : (halfWord : Int) = 2 ^ 63 := rfl
  rcases exact_neg_ofNat_cases n with hinfinite | ⟨m, q, hfinite⟩
  · simp only [toInt, hinfinite, hhalf, if_true]
    omega
  · simp only [toInt, hfinite, hhalf, if_true]
    omega

theorem isNaN_ofInt (n : Int) : (Float.ofInt n).isNaN = false := by
  rw [isNaN_eq, decide_eq_false_iff_not]
  cases n with
  | ofNat n =>
      change exact (Float.ofNat n) ≠ .nan
      rcases exact_ofNat_cases n with hinfinite | ⟨m, q, hfinite⟩
      · simp [hinfinite]
      · simp [hfinite]
  | negSucc n =>
      change exact (-Float.ofNat (n + 1)) ≠ .nan
      rcases exact_neg_ofNat_cases (n + 1) with hinfinite | ⟨m, q, hfinite⟩
      · simp [hinfinite]
      · simp [hfinite]

/-- An integer that is not too large is read as itself, and as nothing if it is negative. -/
theorem toNat_toInt_ofInt {n : Int} (hle : n ≤ 2 ^ 53) :
    (toInt (Float.ofInt n)).toNat = n.toNat := by
  cases n with
  | ofNat n =>
      have hread : toInt (Float.ofInt (.ofNat n)) = n := toInt_ofNat (Int.ofNat_le.1 hle)
      rw [hread]
      rfl
  | negSucc n =>
      have hread : toInt (Float.ofInt (.negSucc n)) ≤ 0 := toInt_neg_ofNat_le (n + 1)
      omega

theorem two_pow_le_toInt_ofInt {n : Int} (hle : 2 ^ 53 ≤ n) : 2 ^ 53 ≤ toInt (Float.ofInt n) := by
  obtain ⟨n, rfl⟩ := Int.eq_ofNat_of_zero_le (Int.le_trans (by decide) hle)
  have hlarge : 2 ^ 53 ≤ n := by omega
  exact (keepsBits_ofNat hlarge).le_toInt hlarge (by decide) (by decide) hlarge

end SheetBoard.Number
